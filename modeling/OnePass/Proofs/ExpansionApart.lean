import OnePass.Proofs.ExpansionInput

/-! # Expansion in two places

Two runs of the expander go abreast as long as what they see of their surroundings is the same. -/
namespace OnePass.Expand

variable {α β : Type} {host : Host} {R : Preprocessor → Preprocessor → Prop} {V : α → α → Prop} {W : β → β → Prop}

/-- Both runs give answers that belong together, or both fail. Their states belong together either way. -/
inductive Abreast {σ τ : Type} (V : α → α → Prop) (R : σ → τ → Prop) :
    EStateM.Result Stop σ α → EStateM.Result Stop τ α → Prop where
  | ok {a b s t} (answers : V a b) (states : R s t) : Abreast V R (.ok a s) (.ok b t)
  | error {e e' s t} (states : R s t) : Abreast V R (.error e s) (.error e' t)

/-- From states that belong together the computations run abreast. -/
def Match (host : Host) (R : Preprocessor → Preprocessor → Prop) (V : α → α → Prop) (x y : PreM α) : Prop :=
  ∀ s t, R s t → Abreast V R (x host s) (y host t)

/-- Two runs of one computation from states that belong together. -/
abbrev Matches (host : Host) (R : Preprocessor → Preprocessor → Prop) (V : α → α → Prop) (x : PreM α) : Prop :=
  Match host R V x x

namespace Match

theorem pure {a b : α} (same : V a b) : Match host R V (pure a) (pure b) := fun _ _ together => .ok same together

theorem bind {x y : PreM α} {f g : α → PreM β} (first : Match host R V x y)
    (later : ∀ a b, V a b → Match host R W (f a) (g b)) : Match host R W (x >>= f) (y >>= g) := by
  intro s t together
  have ends := first s t together
  rw [run_bind,run_bind]
  generalize x host s = left, y host t = right at ends
  cases ends with
  | ok answers states => exact later _ _ answers _ _ states
  | error states => exact .error states

/-- The first part gives the same answer on both sides. -/
theorem next {x y : PreM α} {f g : α → PreM β} (first : Match host R Eq x y)
    (later : ∀ a, Match host R W (f a) (g a)) : Match host R W (x >>= f) (y >>= g) :=
  first.bind fun a _ same => same ▸ later a

theorem read : Matches host R Eq read := fun _ _ together => .ok rfl together

theorem get {f g : Preprocessor → PreM α} (each : ∀ s t, R s t → Match host R V (f s) (g t)) :
    Match host R V (get >>= f) (get >>= g) := fun s t together => each s t together s t together

theorem iterate {step other : α → PreM (α ⊕ β)} (each : ∀ a, Match host R (Sum.LiftRel Eq W) (step a) (other a))
    (fuel : Nat) (a : α) : Match host R W (iterate step fuel a) (iterate other fuel a) := by
  induction fuel generalizing a with
  | zero => exact fun _ _ => .error
  | succ fuel ih =>
    refine (each a).bind fun next other same => ?_
    cases same with
    | inl same => exact same ▸ ih _
    | inr same => exact .pure same

end Match

/-- What an expansion sees of its surroundings. -/
structure Seen (s t : Preprocessor) : Prop where
  macros : s.macros = t.macros
  counter : s.counter = t.counter
  fileName : s.fileName = t.fileName
  hidden : ∀ name, isHidden s name = isHidden t name

/-- States that stay together through messages and the counter, and look the same. -/
structure Together (R : Preprocessor → Preprocessor → Prop) : Prop where
  seen {s t} : R s t → Seen s t
  report {s t} (complaint : Complaint) :
    R s t → R (s.reportOn s.chain complaint).2 (t.reportOn t.chain complaint).2
  count {s t} (counter : Nat) : R s t → R { s with counter } { t with counter }

section Substitution

variable (kept : Together R) {expandArg expandArg' : List Token → PreM (List Token)}
  (expand : ∀ arg, Match host R Eq (expandArg arg) (expandArg' arg))

include kept

theorem fail_match (complaint : Complaint) : Matches host R V (PreM.fail complaint) :=
  fun _ _ together => .error (kept.report complaint together)

theorem paste_match (left right : Token) : Matches host R Eq (paste left right) := by
  unfold paste
  split
  · exact .pure rfl
  split
  · exact .pure rfl
  split
  · exact .pure rfl
  · exact fun _ _ together => .ok rfl (kept.report _ together)

theorem pasteAll_match (call : Token) (done tokens : List Token) :
    Matches host R Eq (pasteAll call done tokens) := by
  fun_induction pasteAll call done tokens with
  | case1 | case3 => exact .pure rfl
  | case2 => exact (paste_match kept _ _).next fun _ => .pure rfl
  | case4 _ _ _ _ _ _ ih => exact (paste_match kept _ _).next ih
  | case5 _ _ _ _ _ ih => exact ih

include expand

omit kept in
theorem arguments_match (m : Macro) (args : List (List Token)) (call : Token) (before : List BodyToken)
    (out : List Token) (body : List BodyToken) :
    Match host R Eq (arguments expandArg m args call before out body)
      (arguments expandArg' m args call before out body) := by
  induction body generalizing before out with
  | nil => exact .pure rfl
  | cons t rest ih =>
    unfold arguments
    split
    · exact ih _ _
    · exact ih _ _
    · dsimp only
      split
      · exact ih _ _
      · exact (expand _).next fun _ => ih _ _

theorem substitute_match (m : Macro) (args : List (List Token)) (call : Token) :
    Match host R Eq (substitute expandArg m args call) (substitute expandArg' m args call) := by
  refine (arguments_match expand m args call [] [] m.body).next fun out => ?_
  refine (pasteAll_match kept call [] out).next fun pasted => ?_
  split <;> exact .pure rfl

end Substitution

/-- The same token, or the end of the input in both places. -/
def Like (a b : Token) : Prop := a = b ∨ a.isEof = true ∧ b.isEof = true

/-- States that stay together when frames are put on top, and when a token is put back. -/
structure Joint (R : Preprocessor → Preprocessor → Prop) (L : Token → Token → Prop) : Prop extends Together R where
  refl (a) : L a a
  like {a b} : L a b → Like a b
  frame {s t} (frame : Frame) : R s t → R { s with frames := frame :: s.frames } { t with frames := frame :: t.frames }
  pushback {s t a b} : R s t → L a b → R { s with pushback := some a } { t with pushback := some b }

section Reading

variable {L : Token → Token → Prop} (joint : Joint R L) {raw raw' : PreM Token} (reads : Match host R L raw raw')
  {expandArg expandArg' : List Token → PreM (List Token)}

include joint reads

theorem readArguments_match (name : String) (m : Macro) :
    Match host R Eq (readArguments raw name m) (readArguments raw' name m) := by
  refine Match.read.next fun here => Match.next (.iterate (fun c => reads.bind fun a b like => ?_) _ _) fun args => ?_
  · rcases joint.like like with rfl | ⟨left,right⟩
    · split
      · exact fail_match joint.toTogether _
      · refine .pure ?_
        cases collect m c a
        · exact .inl rfl
        · exact .inr rfl
    · rw [if_pos left,if_pos right]
      exact fail_match joint.toTogether _
  · split
    · exact .pure rfl
    · exact fail_match joint.toTogether _

omit reads in
theorem dynamic_match (here : Host) (name : String) (call : Token) :
    Matches host R Eq (modifyGet (dynamic? here name call)) := by
  intro s t together
  have seen := joint.seen together
  simp only [run_modifyGet,dynamic?]
  split
  · exact .ok rfl together
  · exact .ok (by rw [seen.fileName]) together
  · exact .ok rfl together
  · exact .ok rfl together
  · rw [seen.counter]
    exact .ok rfl (joint.count _ together)
  · exact .ok rfl together

omit reads in
theorem expanded_match (tokens : List Token) (name : String) : Matches host R (Option.Rel L) (do
    pushFrame { tokens, hides := some name }
    return none) :=
  fun _ _ together => .ok .none (joint.frame _ together)

theorem step_match (expand : ∀ arg, Match host R Eq (expandArg arg) (expandArg' arg)) :
    Match host R (Option.Rel L) (step raw expandArg) (step raw' expandArg') := by
  refine reads.bind fun a b like => ?_
  rcases joint.like like with rfl | ⟨left,right⟩
  · split
    · split
      · exact .pure (.some like)
      · refine .get fun s t together => ?_
        rw [(joint.seen together).macros]
        cases t.macros.find? _ with
        | none => exact .pure (.some like)
        | some m =>
          refine .get fun s t together => ?_
          rw [(joint.seen together).hidden]
          split
          · exact .pure (.some (joint.refl _))
          refine Match.read.next fun here => (dynamic_match joint here _ _).next fun value => ?_
          cases value with
          | some value => exact .pure (.some (joint.refl _))
          | none =>
            cases m.params with
            | none => exact (substitute_match joint.toTogether expand m _ a).next fun tokens => expanded_match joint tokens _
            | some _ =>
              refine reads.bind fun after other alike => ?_
              have same : after.isPunct .lparen = other.isPunct .lparen := by
                rcases joint.like alike with rfl | ⟨left,right⟩
                · rfl
                · rw [Token.isPunct,Token.isPunct,eq_of_beq left,eq_of_beq right]
              rw [same]
              split
              · exact fun _ _ together => .ok (.some like) (joint.pushback together alike)
              · refine (readArguments_match joint reads _ m).next fun args => ?_
                exact (substitute_match joint.toTogether expand m args a).next fun tokens => expanded_match joint tokens _
    · exact .pure (.some like)
  · rw [eq_of_beq left,eq_of_beq right]
    exact .pure (.some like)

theorem nextFrom_match (expand : ∀ arg, Match host R Eq (expandArg arg) (expandArg' arg)) :
    Match host R L (nextFrom raw expandArg) (nextFrom raw' expandArg') := by
  refine Match.read.next fun here => .iterate (fun _ => (step_match joint reads expand).bind fun a b same => ?_) _ _
  cases same with
  | none => exact .pure (.inl rfl)
  | some like => exact .pure (.inr like)

end Reading

/-- The frames above the surroundings are the same in both places, and a barrier is among them. With the surroundings
alone the states belong together. -/
structure Above (R : Preprocessor → Preprocessor → Prop) (s t a b : Preprocessor) : Prop where
  kept : R { a with frames := s.frames, pushback := s.pushback } { b with frames := t.frames, pushback := t.pushback }
  frames : ∃ upper, a.frames = upper ++ s.frames ∧ b.frames = upper ++ t.frames ∧ ∃ f ∈ upper, f.barrier = true
  pushback : Option.Rel Like a.pushback b.pushback

theorem dropFinished_split (upper frames : List Frame) : dropFinished (upper ++ frames) =
    match dropFinished upper with
    | [] => dropFinished frames
    | f :: rest => f :: (rest ++ frames) := by
  induction upper with
  | nil => rfl
  | cons first rest ih =>
    rw [List.cons_append,dropFinished,dropFinished]
    split <;> simp_all

variable {s t : Preprocessor}

theorem Above.cut {a b : Preprocessor} (above : Above R s t a b) :
    a.frames.drop (a.frames.length - s.frames.length) = s.frames := by
  obtain ⟨upper,eq,-⟩ := above.frames
  simp [eq]

theorem above_joint (kept : Together R) : Joint (Above R s t) Like where
  refl _ := .inl rfl
  like := id
  seen {a b} above := by
    obtain ⟨upper,left,right,_⟩ := above.frames
    have seen := kept.seen above.kept
    refine ⟨seen.macros,seen.counter,seen.fileName,fun name => ?_⟩
    have hidden := seen.hidden name
    simp only [isHidden,left,right,List.any_append] at hidden ⊢
    rw [hidden]
  report complaint above := ⟨kept.report complaint above.kept,above.frames,above.pushback⟩
  count counter above := ⟨kept.count counter above.kept,above.frames,above.pushback⟩
  frame frame above := by
    obtain ⟨upper,left,right,f,member,barrier⟩ := above.frames
    exact ⟨above.kept,⟨frame :: upper,by simp [left],by simp [right],f,by simp [member],barrier⟩,above.pushback⟩
  pushback above like := ⟨above.kept,above.frames,.some like⟩

/-- Under a barrier it does not matter what the input would go on with. -/
theorem rawFrom_above (source other : PreM Token) : Match host (Above R s t) Like (rawFrom source) (rawFrom other) := by
  intro a b above
  obtain ⟨kept,⟨upper,left,right,barrier⟩,pushback⟩ := above
  rw [rawFrom_run,rawFrom_run,left,right,dropFinished_split,dropFinished_split]
  cases back : a.pushback <;> cases other : b.pushback <;> rw [back,other] at pushback <;> cases pushback
  · obtain ⟨f,member,stops⟩ := barrier_dropFinished barrier
    cases top : dropFinished upper with
    | nil => simp [top] at member
    | cons first rest =>
      rw [top] at member
      obtain ⟨tokens,hides,barrier⟩ := first
      cases tokens with
      | nil => exact .ok (.inr ⟨rfl,rfl⟩) ⟨kept,⟨_ :: rest,rfl,rfl,f,member,stops⟩,by simp⟩
      | cons tok tokens =>
        refine .ok (.inl rfl) ⟨kept,⟨_ :: rest,rfl,rfl,?_⟩,by simp⟩
        rcases List.mem_cons.mp member with rfl | member
        · exact ⟨_,List.mem_cons_self,stops⟩
        · exact ⟨f,List.mem_cons_of_mem _ member,stops⟩
  · next like => exact .ok like ⟨kept,⟨upper,rfl,rfl,barrier⟩,.none⟩

/-- The expansion of a list up to the point where its surroundings come back. -/
def listAbove (source : PreM Token) (depth : Nat) (tokens : List Token) : PreM (List Token) := do
  modify fun pp => { pp with pushback := none }
  pushFrame { tokens, barrier := true }
  iterate (fun out => do
    let tok ← nextFrom (rawFrom source) (listFrom source depth)
    return if tok.isEof then .inr out.reverse else .inl (tok :: out)) (← read).fuel []

theorem Abreast.finishing {x y : PreM α} {R' : Preprocessor → Preprocessor → Prop} {f g : Preprocessor → Preprocessor}
    (abreast : Abreast V R' (x host s) (y host t)) (after : ∀ a b, R' a b → R (f a) (g b)) :
    Abreast V R (PreM.finishing x f host s) (PreM.finishing y g host t) := by
  rw [PreM.finishing,PreM.finishing]
  generalize x host s = left, y host t = right at abreast
  cases abreast with
  | ok answers states => exact .ok answers (after _ _ states)
  | error states => exact .error (after _ _ states)

theorem listAbove_above (host : Host) {source other : PreM Token} (kept : Together R)
    (expand : ∀ {R}, Together R → ∀ arg, Match host R Eq (listFrom source depth arg) (listFrom other depth arg))
    (together : R s t) (tokens : List Token) :
    Abreast Eq (Above R s t) (listAbove source depth tokens host s) (listAbove other depth tokens host t) := by
  have joint := above_joint (s := s) (t := t) kept
  have begun : Above R s t { s with frames := { tokens, barrier := true } :: s.frames, pushback := none }
      { t with frames := { tokens, barrier := true } :: t.frames, pushback := none } :=
    ⟨together,⟨[_],rfl,rfl,_,List.mem_singleton_self _,rfl⟩,.none⟩
  refine Match.iterate (fun out => (nextFrom_match joint (rawFrom_above _ _) (expand joint.toTogether)).bind
    fun a b like => .pure ?_) host.fuel [] _ _ begun
  rcases like with rfl | ⟨left,right⟩
  · split
    · exact .inr rfl
    · exact .inl rfl
  · rewrite [if_pos left,if_pos right]
    exact .inr rfl

theorem listFrom_match (source other : PreM Token) (kept : Together R) (depth : Nat) (tokens : List Token) :
    Match host R Eq (listFrom source depth tokens) (listFrom other depth tokens) := by
  induction depth generalizing R tokens with
  | zero => exact fun _ _ => .error
  | succ depth ih =>
    exact fun s t together => (listAbove_above host kept (fun kept => ih kept) together tokens).finishing
      fun _ _ above => above.kept

/-- Only the messages and the counter have changed. -/
def Untouched (pp pp' : Preprocessor) : Prop := ∃ diagnostics counter, pp' = { pp with diagnostics, counter }

/-- Neither of two states has changed apart from its messages, and the counter is the same in both. -/
def Isolated (p q s t : Preprocessor) : Prop := Untouched p s ∧ Untouched q t ∧ s.counter = t.counter

theorem isolated_together {p q : Preprocessor} (seen : Seen p q) : Together (Isolated p q) where
  seen := by
    rintro _ _ ⟨⟨_,_,rfl⟩,⟨_,_,rfl⟩,same⟩
    exact ⟨seen.macros,same,seen.fileName,seen.hidden⟩
  report := by
    rintro _ _ complaint ⟨⟨_,_,rfl⟩,⟨_,_,rfl⟩,same⟩
    exact ⟨⟨_,_,rfl⟩,⟨_,_,rfl⟩,same⟩
  count := by
    rintro _ _ counter ⟨⟨_,_,rfl⟩,⟨_,_,rfl⟩,same⟩
    exact ⟨⟨_,_,rfl⟩,⟨_,_,rfl⟩,rfl⟩

theorem Seen.isolated {p q : Preprocessor} (seen : Seen p q) : Isolated p q p q := ⟨⟨_,_,rfl⟩,⟨_,_,rfl⟩,seen.counter⟩

/-- A list is expanded apart from the input around it. Whether that succeeds or not, frames, files and conditionals are
left as they are, and the tokens depend on the surroundings only by the names that are hidden there and the name of the
file. Nothing is taken from what the input would go on with, in one place and in the other. It is enough to cut off
what lies above the frames to leave them as they are. -/
theorem lists_expand_apart {p q : Preprocessor} (seen : Seen p q) (source other : PreM Token) (host : Host)
    (depth : Nat) (tokens : List Token) :
    Abreast Eq (Isolated p q) (listFrom source depth tokens host p) (listFrom other depth tokens host q) ∧
    listFrom source (depth + 1) tokens host p = PreM.finishing (listAbove source depth tokens) (fun s => { s with
      frames := s.frames.drop (s.frames.length - p.frames.length), pushback := p.pushback }) host p := by
  refine ⟨listFrom_match source other (isolated_together seen) depth tokens p q seen.isolated,?_⟩
  have alone : Seen p p := ⟨rfl,rfl,rfl,fun _ => rfl⟩
  have above := listAbove_above host (isolated_together alone) (fun kept => listFrom_match source source kept depth)
    alone.isolated tokens
  show PreM.finishing (listAbove source depth tokens) _ host p = _
  unfold PreM.finishing
  generalize listAbove source depth tokens host p = result at above
  cases above with
  | ok _ above | error above => simp only [above.cut]

/-- A macro with a parameter, and input that would go on with a call of it. -/
def alone : Preprocessor := { macros := ({} : MacroTable).define "f" { params := some ["x"], body := [] } }

def opening : Token := { kind := .punct .lparen, line := 1 }

def between : Preprocessor := { alone with frames := [{ tokens := [opening] }], pushback := some opening }

def calling : PreM Token := do
  modify fun pp => { pp with files := [] }
  return opening

theorem lists_expand_apart_between : Seen alone between ∧
    Abreast Eq (Isolated alone between) (listFrom nothing 1 [{ opening with kind := .ident "f" }] { fuel := 3 } alone)
      (listFrom calling 1 [{ opening with kind := .ident "f" }] { fuel := 3 } between) ∧
    succeeds (· == [{ opening with kind := .ident "f" }])
      (listFrom calling 1 [{ opening with kind := .ident "f" }] { fuel := 3 } between) = true := by
  have seen : Seen alone between := ⟨rfl,rfl,rfl,fun _ => rfl⟩
  exact ⟨seen,(lists_expand_apart seen nothing calling { fuel := 3 } 1 _).1,by decide +kernel⟩

end OnePass.Expand
