import OnePass.Preprocess.Expand
import OnePass.Proofs.Settling
import OnePass.Proofs.Spelling

/-! # Replacement lists without open parentheses

A macro is sealed when its replacement list closes every parenthesis that it opens. The arguments of a
call are closed in themselves, so the tokens that replace a call of a sealed macro are closed too, after
stringizing and pasting. -/
namespace OnePass

open TokenKind
open List hiding after

/-- How many parentheses are open behind a token when `n` are open in front of it. One that closes
nothing is passed over. -/
def TokenKind.nest (n : Nat) : TokenKind → Nat
  | .punct .lparen => n + 1
  | .punct .rparen => n - 1
  | _ => n

def opened (n : Nat) (kinds : List TokenKind) : Nat := kinds.foldl nest n

def Closed (kinds : List TokenKind) : Prop := opened 0 kinds = 0
  deriving Decidable

/-- The list leaves open what is open before it and nothing else. -/
def Paired (kinds : List TokenKind) : Prop := ∀ n, opened n kinds = n

namespace TokenKind

theorem nest_mono (le : n ≤ m) (kind : TokenKind) : kind.nest n ≤ kind.nest m := by
  unfold nest
  split <;> omega

theorem nest_le_add (n m : Nat) (kind : TokenKind) : kind.nest (n + m) ≤ n + kind.nest m := by
  unfold nest
  split <;> omega

theorem nest_add (n : Nat) (some : 0 < m) (kind : TokenKind) : kind.nest (n + m) = n + kind.nest m := by
  unfold nest
  split <;> omega

theorem nest_other {kind : TokenKind} (noOpening : kind ≠ .punct .lparen) (noClosing : kind ≠ .punct .rparen)
    (n : Nat) : kind.nest n = n := by
  unfold nest
  split
  · exact absurd rfl noOpening
  · exact absurd rfl noClosing
  · rfl

theorem le_nest {kind : TokenKind} (noClosing : kind ≠ .punct .rparen) (n : Nat) : n ≤ kind.nest n := by
  unfold nest
  split
  · omega
  · exact absurd rfl noClosing
  · exact le_refl n

end TokenKind

@[simp] theorem opened_nil (n : Nat) : opened n [] = n := rfl

@[simp] theorem opened_cons (n : Nat) (kind : TokenKind) (rest : List TokenKind) :
    opened n (kind :: rest) = opened (kind.nest n) rest := rfl

@[simp] theorem opened_append (n : Nat) (first rest : List TokenKind) :
    opened n (first ++ rest) = opened (opened n first) rest := foldl_append

theorem opened_mono (le : n ≤ m) (kinds : List TokenKind) : opened n kinds ≤ opened m kinds := by
  induction kinds generalizing n m with
  | nil => exact le
  | cons kind rest ih => exact ih (kind.nest_mono le)

theorem opened_le_add (n m : Nat) (kinds : List TokenKind) : opened (n + m) kinds ≤ n + opened m kinds := by
  induction kinds generalizing m with
  | nil => exact le_refl _
  | cons kind rest ih => exact le_trans (opened_mono (kind.nest_le_add n m) rest) (ih _)

theorem Closed.opened_le (closed : Closed kinds) (n : Nat) : opened n kinds ≤ n := by
  have bound := opened_le_add n 0 kinds
  rwa [closed] at bound

theorem Closed.suffix (closed : Closed (first ++ rest)) : Closed rest := by
  rw [Closed,opened_append] at closed
  exact Nat.le_zero.mp (closed ▸ opened_mono (Nat.zero_le _) rest)

theorem Paired.closed (paired : Paired kinds) : Closed kinds := paired 0

theorem Paired.head_ne (paired : Paired kinds) : kinds.head? ≠ some (.punct .rparen) := by
  intro head
  obtain ⟨rest,rfl⟩ := List.head?_eq_some_iff.mp head
  have none : opened 0 rest = 0 := paired 0
  have one : opened 0 rest = 1 := paired 1
  omega

/-- A part of a list may be replaced by one that opens no more. -/
theorem Closed.replace (closed : Closed (before ++ part ++ after))
    (less : ∀ n, opened n other ≤ opened n part) : Closed (before ++ other ++ after) := by
  simp only [Closed,opened_append] at closed ⊢
  exact Nat.le_zero.mp (Nat.le_trans (opened_mono (less _) after) closed.le)

/-- The tokens of an argument: they are spelled, and the parentheses among them belong together. -/
structure Argument (arg : List Token) : Prop where
  spelled : ∀ tok ∈ arg, tok.kind.isSpelled
  paired : Paired (arg.map (·.kind))

/-- Tokens that can be read again. -/
structure Readable (tokens : List Token) : Prop where
  spelled : ∀ tok ∈ tokens, tok.kind.isSpelled
  closed : Closed (tokens.map (·.kind))

theorem Argument.readable (argument : Argument arg) : Readable arg :=
  ⟨argument.spelled,argument.paired.closed⟩

theorem argument_nil : Argument [] := ⟨by simp,fun _ => rfl⟩

theorem Readable.congr (readable : Readable tokens)
    (same : others.map (·.kind) = tokens.map (·.kind)) : Readable others := by
  refine ⟨fun tok member => ?_,same ▸ readable.closed⟩
  have among : tok.kind ∈ tokens.map (·.kind) := same ▸ mem_map_of_mem member
  obtain ⟨twin,member,kind⟩ := mem_map.mp among
  exact kind ▸ readable.spelled twin member

/-- The kind of an element of a replacement list; a parameter stands for no token. -/
def BodyToken.kind (t : BodyToken) : TokenKind :=
  match t.part with
  | .token kind => kind
  | .param _ | .stringize _ => .placemarker

/-- Two neighbours of a replacement list: a parenthesis that closes, a comma and a second pasting are
pasted to nothing. -/
def Joins (earlier later : BodyToken) : Prop :=
  earlier.kind = .paste → later.kind ∉ [.punct .rparen, .punct .comma, .paste]
  deriving Decidable

/-- A replacement list that closes every parenthesis it opens, whatever its arguments are. -/
structure Macro.Sealed (m : Macro) : Prop where
  spelled : ∀ t ∈ m.body, t.kind.isSpelled ∨ t.kind = .paste ∨ t.kind = .placemarker
  closed : Closed (m.body.map (·.kind))
  joins : m.body.IsChain Joins

instance (m : Macro) : Decidable m.Sealed :=
  decidable_of_iff ((∀ t ∈ m.body, t.kind.isSpelled ∨ t.kind = .paste ∨ t.kind = .placemarker) ∧
      Closed (m.body.map (·.kind)) ∧ m.body.IsChain Joins)
    ⟨fun parts => ⟨parts.1,parts.2.1,parts.2.2⟩,fun parts => ⟨parts.spelled,parts.closed,parts.joins⟩⟩

namespace Expand

/-- What stands in place of a parameter. -/
structure Filling (arg : List TokenKind) : Prop where
  known : ∀ kind ∈ arg, kind.isSpelled ∨ kind = .placemarker
  closed : Closed arg

/-- The tokens made of a part of a replacement list, both latest first. -/
inductive Made : List BodyToken → List TokenKind → Prop where
  | nil : Made [] []
  | token {t before out kind} (part : t.part = .token kind) (made : Made before out) : Made (t :: before) (kind :: out)
  | put {t before out} (arg : List TokenKind) (part : t.kind = .placemarker) (filling : Filling arg)
    (pasted : ∀ last, before.head? = some last → last.kind = .paste →
      arg ≠ [] ∧ arg.head? ≠ some (.punct .rparen)) (made : Made before out) : Made (t :: before) (arg.reverse ++ out)
  /-- The comma before an argument that takes all the rest stays, and nothing is pasted to it. -/
  | kept {t hashes comma before out} (arg : List TokenKind) (part : t.kind = .placemarker) (filling : Filling arg)
    (paste : hashes.kind = .paste) (comma_ : comma.kind = .punct .comma) (made : Made before out) :
      Made (t :: hashes :: comma :: before) (arg.reverse ++ .punct .comma :: out)
  /-- It goes when nothing follows it. -/
  | dropped {t hashes comma before out} (part : t.kind = .placemarker) (paste : hashes.kind = .paste)
    (comma_ : comma.kind = .punct .comma) (made : Made before out) : Made (t :: hashes :: comma :: before) out

theorem kind_of_token {t : BodyToken} (part : t.part = .token kind) : t.kind = kind := by
  rw [BodyToken.kind,part]

theorem Filling.ne_paste (filling : Filling arg) (member : kind ∈ arg) : kind ≠ .paste := by
  rintro rfl
  rcases filling.known _ member with spelled | placemarker
  · cases spelled
  · cases placemarker

theorem Filling.head_ne (filling : Filling arg) (nonempty : arg ≠ []) : (arg.reverse ++ out).head? ≠ some .paste := by
  have last : arg.reverse ≠ [] := by simpa using nonempty
  rw [head?_append_of_ne_nil _ last,head?_reverse]
  exact fun paste => filling.ne_paste (mem_of_getLast? paste) rfl

theorem Made.waiting (made : Made before out)
    (joins : before.IsChain fun later earlier => Joins earlier later) (paste : out.head? = some .paste) :
    ∃ last, before.head? = some last ∧ last.kind = .paste := by
  induction made with
  | nil => cases paste
  | token part made _ => exact ⟨_,rfl,(kind_of_token part).trans (Option.some.inj paste)⟩
  | put arg part filling pasted made ih =>
    by_cases nonempty : arg = []
    · subst nonempty
      obtain ⟨last,head,kind⟩ := ih joins.tail paste
      exact absurd rfl (pasted last head kind).1
    · exact absurd paste (filling.head_ne nonempty)
  | kept arg part filling hashes comma_ made _ =>
    by_cases nonempty : arg = []
    · subst nonempty
      cases paste
    · exact absurd paste (filling.head_ne nonempty)
  | @dropped t hashes comma before out part waiting comma_ made ih =>
    have behind := joins.tail.tail
    obtain ⟨last,head,kind⟩ := ih behind.tail paste
    obtain ⟨rest,rfl⟩ := head?_eq_some_iff.mp head
    have joined : Joins last comma := (isChain_cons_cons.mp behind).1
    exact absurd (joined kind) (by simp [comma_])

/-- What was made opens no more than what was read. -/
theorem Made.opened_le (made : Made before out) (n : Nat) :
    opened n out.reverse ≤ opened n (before.map (·.kind)).reverse := by
  induction made with
  | nil => exact le_refl n
  | @token t before out kind part made ih =>
    simp only [map_cons,reverse_cons,opened_append,kind_of_token part]
    exact opened_mono ih _
  | put arg part filling pasted made ih =>
    simp only [map_cons,reverse_cons,reverse_append,reverse_reverse,opened_append,part]
    exact le_trans (filling.closed.opened_le _) ih
  | kept arg part filling paste comma_ made ih =>
    simp only [map_cons,reverse_cons,reverse_append,reverse_reverse,opened_append,part,paste,
      comma_]
    exact le_trans (filling.closed.opened_le _) ih
  | dropped part paste comma_ made ih =>
    simp only [map_cons,reverse_cons,opened_append,part,paste,comma_]
    exact ih

theorem Made.known (made : Made before out)
    (spelled : ∀ t ∈ before, t.kind.isSpelled ∨ t.kind = .paste ∨ t.kind = .placemarker) :
    ∀ kind ∈ out, kind.isSpelled ∨ kind = .paste ∨ kind = .placemarker := by
  have filled {arg : List TokenKind} (filling : Filling arg) :
      ∀ kind ∈ arg.reverse, kind.isSpelled ∨ kind = .paste ∨ kind = .placemarker :=
    fun kind member => (filling.known kind (mem_reverse.mp member)).imp_right .inr
  induction made with
  | nil => simp
  | token part made ih =>
    rw [forall_mem_cons] at spelled ⊢
    exact ⟨kind_of_token part ▸ spelled.1,ih spelled.2⟩
  | put arg part filling pasted made ih =>
    exact forall_mem_append.mpr ⟨filled filling,ih (forall_mem_cons.mp spelled).2⟩
  | kept arg part filling paste comma_ made ih =>
    have rest := (forall_mem_cons.mp (forall_mem_cons.mp (forall_mem_cons.mp spelled).2).2).2
    exact forall_mem_append.mpr ⟨filled filling,forall_mem_cons.mpr ⟨.inl rfl,ih rest⟩⟩
  | dropped part paste comma_ made ih =>
    exact ih (forall_mem_cons.mp (forall_mem_cons.mp (forall_mem_cons.mp spelled).2).2).2

/-- Of two neighbours, a pasting comes before no parenthesis that closes and before no pasting. -/
def Apart (earlier later : TokenKind) : Prop := earlier = .paste → later ≠ .punct .rparen ∧ later ≠ .paste

theorem Filling.apart (filling : Filling arg) : arg.reverse.IsChain fun later earlier => Apart earlier later := by
  refine (pairwise_of_forall_mem_list fun later _ earlier member paste => ?_).isChain
  exact absurd paste (filling.ne_paste (mem_reverse.mp member))

theorem Made.apart (made : Made before out) (joins : before.IsChain fun later earlier => Joins earlier later) :
    out.IsChain fun later earlier => Apart earlier later := by
  induction made with
  | nil => exact .nil
  | @token t before out kind part made ih =>
    refine isChain_cons.mpr ⟨fun last head paste => ?_,ih joins.tail⟩
    obtain ⟨hashes,first,kind_⟩ := made.waiting joins.tail (by rwa [← paste])
    have joined : Joins hashes t := (isChain_cons.mp joins).1 hashes first
    have other := joined kind_
    rw [kind_of_token part] at other
    simp only [mem_cons,not_or] at other
    exact ⟨other.1,other.2.2.1⟩
  | put arg part filling pasted made ih =>
    refine List.IsChain.append filling.apart (ih joins.tail) fun later last earlier head paste => ?_
    rw [getLast?_reverse] at last
    obtain ⟨hashes,first,kind⟩ := made.waiting joins.tail (by rwa [← paste])
    refine ⟨?_,filling.ne_paste (mem_of_mem_head? last)⟩
    rintro rfl
    exact (pasted hashes first kind).2 last
  | kept arg part filling paste comma_ made ih =>
    refine List.IsChain.append filling.apart (isChain_cons.mpr ⟨fun _ _ _ => by decide,ih joins.tail.tail.tail⟩) ?_
    rintro later last earlier ⟨⟩ ⟨⟩
  | dropped part paste comma_ made ih => exact ih joins.tail.tail.tail

/-- A list of which pasting can make tokens to be read again. -/
structure Pastable (kinds : List TokenKind) : Prop where
  closed : Closed kinds
  known : ∀ kind ∈ kinds, kind.isSpelled ∨ kind = .paste ∨ kind = .placemarker
  apart : kinds.IsChain Apart

theorem Made.pastable {m : Macro} (made : Made m.body.reverse out) (closing : m.Sealed) : Pastable out.reverse := by
  have joins : m.body.reverse.IsChain fun later earlier => Joins earlier later :=
    isChain_reverse.mpr closing.joins
  refine ⟨?_,fun kind member => ?_,isChain_reverse.mpr (made.apart joins)⟩
  · have less := made.opened_le 0
    rw [← map_reverse,reverse_reverse] at less
    exact Nat.le_zero.mp (less.trans closing.closed.le)
  · exact made.known (fun t member => closing.spelled t (mem_reverse.mp member)) kind (mem_reverse.mp member)

end Expand

/-- Only messages and the counter change. -/
def Beside (pp pp' : Preprocessor) : Prop := ∃ diagnostics counter, pp' = { pp with diagnostics, counter }

namespace Beside

theorem refl (pp : Preprocessor) : Beside pp pp := ⟨pp.diagnostics,pp.counter,rfl⟩

theorem trans (first : Beside pp pp') (second : Beside pp' pp'') : Beside pp pp'' := by
  obtain ⟨_,_,rfl⟩ := first
  obtain ⟨diagnostics,counter,rfl⟩ := second
  exact ⟨diagnostics,counter,rfl⟩

end Beside

namespace Expand

@[simp] theorem inPlace_kinds (space : Bool) (arg : List Token) :
    (inPlace space arg).map (·.kind) = arg.map (·.kind) := by
  cases arg <;> rfl

theorem isPaste_iff : isPaste t = true ↔ t.kind = .paste := by
  unfold isPaste BodyToken.kind
  cases t.part <;> simp

theorem Made.paste_comma
    (made : Made (hashes :: comma :: before) out) (paste : hashes.kind = .paste) (comma_ : comma.kind = .punct .comma) :
    ∃ rest, out = .paste :: .punct .comma :: rest ∧ Made before rest := by
  cases made with
  | token part made =>
    cases (kind_of_token part).symm.trans paste
    cases made with
    | token part made =>
      cases (kind_of_token part).symm.trans comma_
      exact ⟨_,rfl,made⟩
    | put _ placemarker | kept _ placemarker | dropped placemarker => cases placemarker.symm.trans comma_
  | put _ placemarker | kept _ placemarker | dropped placemarker => cases placemarker.symm.trans paste

theorem filling_readable (readable : Readable arg) : Filling (arg.map (·.kind)) := by
  refine ⟨fun kind member => ?_,readable.closed⟩
  obtain ⟨tok,among,rfl⟩ := mem_map.mp member
  exact .inl (readable.spelled tok among)

theorem filling_single (known : kind.isSpelled ∨ kind = .placemarker) (other : ∀ p, kind ≠ .punct p) : Filling [kind] :=
  ⟨by simpa using known,nest_other (other _) (other _) 0⟩

theorem Made.pasted (call : Token) (joined : Bool)
    (made : Made before (out.map (·.kind))) (part : t.kind = .placemarker) (argument : Argument arg)
    (comma : joined = true → ∃ hashes comma rest, before = hashes :: comma :: rest ∧ hashes.kind = .paste ∧
      comma.kind = .punct .comma) :
    Made (t :: before) ((if joined then
        if arg.isEmpty then out.drop 2 else (inPlace t.space arg).reverse ++ out.drop 1
      else if arg.isEmpty then Expand.made call .placemarker false :: out
      else (inPlace t.space arg).reverse ++ out).map (·.kind)) := by
  have kinds out : ((inPlace t.space arg).reverse ++ out).map (·.kind) =
      (arg.map (·.kind)).reverse ++ out.map (·.kind) := by
    rw [map_append,map_reverse,inPlace_kinds]
  cases joined with
  | true =>
    obtain ⟨hashes,comma,before,rfl,paste,comma_⟩ := comma rfl
    obtain ⟨rest,same,made⟩ := made.paste_comma paste comma_
    rw [if_pos rfl]
    split
    · rw [map_drop,same]
      exact .dropped part paste comma_ made
    · rw [kinds,map_drop,same]
      exact .kept _ part (filling_readable argument.readable) paste comma_ made
  | false =>
    rw [if_neg Bool.false_ne_true]
    split
    · exact .put [.placemarker] part (filling_single (.inr rfl) (by simp)) (by simp) made
    next nonempty =>
      rw [kinds]
      refine .put _ part (filling_readable argument.readable) (fun _ _ _ => ⟨?_,argument.paired.head_ne⟩) made
      simpa using nonempty

/-- An argument that can be expanded where a call stands. -/
def Expands (host : Host) (expandArg : Nat → List Token → PreM (List Token)) (pp : Preprocessor) (arg : List Token) :
    Prop :=
  ∀ pp', Beside pp pp' → Settles host (expandArg · arg) pp' fun out pp'' => Readable out ∧ Beside pp' pp''

theorem arguments_settles
    (before : List BodyToken) (out : List Token) (argument : ∀ n : Nat, Argument ((args[n]?).getD []))
    (expands : ∀ n : Nat, Expands host expandArg pp ((args[n]?).getD [])) (made : Made before (out.map (·.kind))) :
    Settles host (fun depth => arguments (expandArg depth) m args call before out rest) pp fun result pp' =>
      Made (rest.reverse ++ before) (result.reverse.map (·.kind)) ∧ Beside pp pp' := by
  induction rest generalizing before out pp with
  | nil =>
    refine .of_ok (fun _ _ => rfl) ⟨?_,.refl pp⟩
    simpa using made
  | cons t rest ih =>
    simp only [reverse_cons,append_assoc]
    cases part : t.part with
    | token kind =>
      refine (ih _ (Expand.made call kind t.space :: out) expands (.token part made)).congr fun _ _ => ?_
      rw [arguments,part]
    | stringize n =>
      have placemarker : t.kind = .placemarker := by rw [BodyToken.kind,part]
      have text : Filling [.string (stringify ((args[n]?).getD []))] := filling_single (.inl rfl) (by simp)
      refine (ih _ (Expand.made call (.string (stringify ((args[n]?).getD []))) t.space :: out) expands
        (.put _ placemarker text (by simp) made)).congr fun _ _ => ?_
      rw [arguments,part]
    | param n =>
      have placemarker : t.kind = .placemarker := by rw [BodyToken.kind,part]
      by_cases pasted : ((before.head?.map isPaste).getD false || (rest.head?.map isPaste).getD false) = true
      · let joined := (before.head?.map isPaste).getD false && (m.variadic && n + 1 == m.arity) &&
          (before[1]?.map (·.part)) == some (.token (.punct .comma))
        have comma : joined = true → ∃ hashes comma rest, before = hashes :: comma :: rest ∧ hashes.kind = .paste ∧
            comma.kind = .punct .comma := by
          intro holds
          simp only [joined,Bool.and_eq_true,beq_iff_eq] at holds
          obtain ⟨⟨after,_⟩,comma⟩ := holds
          match before, after, comma with
          | hashes :: comma :: rest, after, part =>
            exact ⟨hashes,comma,rest,rfl,isPaste_iff.mp after,kind_of_token (Option.some.inj part)⟩
        refine (ih (t :: before) _ expands (made.pasted call joined placemarker (argument n) comma)).congr fun _ _ => ?_
        rw [arguments,part]
        simp only [if_pos pasted]
        rfl
      · have apart : ∀ last, before.head? = some last → last.kind ≠ .paste := by
          intro last head paste
          simp [head,isPaste_iff.mpr paste] at pasted
        have put expanded pp' (done : Readable expanded ∧ Beside pp pp') :
            Settles host (fun depth => arguments (expandArg depth) m args call (t :: before)
              ((inPlace t.space expanded).reverse ++ out) rest) pp' fun result pp'' =>
                Made (rest.reverse ++ t :: before) (result.reverse.map (·.kind)) ∧ Beside pp pp'' := by
          have filled : Made (t :: before) (((inPlace t.space expanded).reverse ++ out).map (·.kind)) := by
            rw [map_append,map_reverse,inPlace_kinds]
            exact .put _ placemarker (filling_readable done.1) (fun last head paste => absurd paste (apart last head)) made
          refine (ih _ _ (fun n pp'' beside => expands n pp'' (done.2.trans beside)) filled).mono ?_
          exact fun result pp'' after => ⟨after.1,done.2.trans after.2⟩
        refine (Settles.bind (expands n pp (.refl pp)) put).congr fun _ _ => ?_
        rw [arguments,part]
        simp only [if_neg pasted]

def Pasted (tokens : List Token) : Prop := ∀ tok ∈ tokens, tok.kind.isSpelled ∨ tok.kind = .placemarker

theorem report_beside (complaint : Complaint) : Settles host (fun _ => PreM.report complaint) pp fun _ pp' =>
    Beside pp pp' :=
  .of_ok (fun _ _ => rfl) ⟨_,pp.counter,rfl⟩

/-- A pasting opens no more than its two halves, if the second one closes nothing. -/
theorem paste_settles (known : Pasted [left,right]) (opening : right.kind ≠ .punct .rparen) :
    Settles host (fun _ => paste left right) pp fun made pp' => (Pasted made ∧
      ∀ n, opened n (made.map (·.kind)) ≤ opened n [left.kind,right.kind]) ∧ Beside pp pp' := by
  have first := known left (by simp)
  have second := known right (by simp)
  by_cases empty : left.kind = .placemarker
  · refine .of_ok (a := [right]) (fun _ _ => ?_) ⟨⟨by simpa [Pasted] using second,fun n => ?_⟩,.refl pp⟩
    · simp [paste,empty]
    · simp [empty,nest]
  by_cases none : right.kind = .placemarker
  · refine .of_ok (a := [left]) (fun _ _ => ?_) ⟨⟨by simpa [Pasted] using first,fun n => ?_⟩,.refl pp⟩
    · simp [paste,empty,none]
    · simp [none,nest]
  unfold paste
  simp only [beq_eq_false_iff_ne.mpr empty,beq_eq_false_iff_ne.mpr none,Bool.false_eq_true,if_false]
  split
  next tok found =>
    obtain ⟨spelled,lparen,rparen⟩ := Lexer.tokenize_pasted (first.resolve_right empty) (second.resolve_right none) found
    have same n : tok.kind.nest n = left.kind.nest n := by
      by_cases opens : left.kind = .punct .lparen
      · rw [opens,lparen.mpr opens]
      by_cases closes : left.kind = .punct .rparen
      · rw [closes,rparen.mpr closes]
      rw [nest_other opens closes,nest_other (mt lparen.mp opens) (mt rparen.mp closes)]
    refine .of_ok (fun _ _ => rfl) ⟨⟨?_,fun n => ?_⟩,.refl pp⟩
    · simpa [Pasted] using Or.inl spelled
    · simp only [map_cons,opened_cons,same]
      exact le_nest opening _
  next =>
    refine .bind (report_beside _) fun _ pp' beside => .of_ok (fun _ _ => rfl) ⟨⟨known,fun n => ?_⟩,beside⟩
    exact le_refl _

/-- A list in which pasting has come to a place; what is done stands latest first. -/
structure Pasting (done rest : List Token) : Prop where
  known : Pasted done
  others : ∀ tok ∈ rest, tok.kind.isSpelled ∨ tok.kind = .paste ∨ tok.kind = .placemarker
  apart : (rest.map (·.kind)).IsChain Apart
  closed : Closed (done.reverse.map (·.kind) ++ rest.map (·.kind))

namespace Pasting

variable {done rest made : List Token} {next : Token}

theorem take (pasting : Pasting done (tok :: rest)) (other : tok.kind ≠ .paste) : Pasting (tok :: done) rest := by
  have others := forall_mem_cons.mp pasting.others
  refine ⟨forall_mem_cons.mpr ⟨?_,pasting.known⟩,others.2,pasting.apart.tail,by simpa using pasting.closed⟩
  rcases others.1 with spelled | paste | placemarker
  · exact .inl spelled
  · exact absurd paste other
  · exact .inr placemarker

theorem last (pasting : Pasting done [tok]) (call : Token) :
    Pasting done [tok,Expand.made call .placemarker false] := by
  refine ⟨pasting.known,?_,?_,?_⟩
  · simpa [Expand.made] using pasting.others
  · simp [Expand.made,Apart]
  · simpa [Closed,Expand.made,nest] using pasting.closed

theorem halves (pasting : Pasting done (tok :: next :: rest)) (call : Token) (paste : tok.kind = .paste) :
    Pasted [done.headD (Expand.made call .placemarker false),next] ∧ next.kind ≠ .punct .rparen := by
  have joined : Apart tok.kind next.kind := (isChain_cons_cons.mp pasting.apart).1
  refine ⟨?_,(joined paste).1⟩
  have first : Pasted [done.headD (Expand.made call .placemarker false)] := by
    cases found : done with
    | nil => simp [Pasted,Expand.made]
    | cons left _ => simpa [Pasted] using pasting.known left (by simp [found])
  have second : Pasted [next] := by
    have others := pasting.others next (by simp)
    simpa [Pasted,(joined paste).2] using others
  simpa [Pasted] using And.intro (first _ (by simp)) (second next (by simp))

theorem join (pasting : Pasting done (tok :: next :: rest)) (paste : tok.kind = .paste) (known : Pasted made)
    (less : ∀ n, opened n (made.map (·.kind)) ≤
      opened n [(done.headD (Expand.made call .placemarker false)).kind,next.kind]) :
    Pasting (made.reverse ++ done.drop 1) rest := by
  refine ⟨fun tok member => ?_,fun tok member => pasting.others tok (by simp [member]),pasting.apart.tail.tail,?_⟩
  · rcases mem_append.mp member with new | old
    · exact known tok (mem_reverse.mp new)
    · exact pasting.known tok (mem_of_mem_drop old)
  · have before : opened 0 (done.reverse.map (·.kind)) =
        (done.headD (Expand.made call .placemarker false)).kind.nest (opened 0 ((done.drop 1).reverse.map (·.kind))) := by
      cases done with
      | nil => rfl
      | cons tok done => simp
    have closed := pasting.closed
    simp only [Closed,map_cons,opened_append,paste,before] at closed
    simp only [Closed,reverse_append,reverse_reverse,map_append,opened_append]
    exact Nat.le_zero.mp (Nat.le_trans (opened_mono (less _) _) closed.le)

theorem finished (pasting : Pasting done []) : Pasted done.reverse ∧ Closed (done.reverse.map (·.kind)) :=
  ⟨fun tok member => pasting.known tok (mem_reverse.mp member),by simpa using pasting.closed⟩

end Pasting

theorem pasteAll_settles (call : Token) (done rest : List Token) (pasting : Pasting done rest) :
    Settles host (fun _ => pasteAll call done rest) pp fun result pp' =>
      (Pasted result ∧ Closed (result.map (·.kind))) ∧ Beside pp pp' := by
  induction done, rest using pasteAll.induct call generalizing pp with
  | case1 done => exact .of_ok (fun _ _ => rfl) ⟨pasting.finished,.refl pp⟩
  | case2 done tok paste =>
    have waits := pasting.last call
    obtain ⟨known,opening⟩ := waits.halves call (eq_of_beq paste)
    simp only [pasteAll,if_pos paste]
    exact .bind (paste_settles known opening) fun made pp' after => .of_ok (fun _ _ => rfl)
      ⟨(waits.join (eq_of_beq paste) after.1.1 after.1.2).finished,after.2⟩
  | case3 done tok other =>
    simp only [pasteAll,if_neg other]
    exact .of_ok (fun _ _ => rfl) ⟨(pasting.take fun paste => other (beq_iff_eq.mpr paste)).finished,.refl pp⟩
  | case4 done tok next rest paste ih =>
    obtain ⟨known,opening⟩ := pasting.halves call (eq_of_beq paste)
    simp only [pasteAll,if_pos paste]
    refine .bind (paste_settles known opening) fun made pp' after => ?_
    exact (ih made (pasting.join (eq_of_beq paste) after.1.1 after.1.2)).mono fun _ _ done =>
      ⟨done.1,after.2.trans done.2⟩
  | case5 done tok next rest other ih =>
    simp only [pasteAll,if_neg other]
    exact ih (pasting.take fun paste => other (beq_iff_eq.mpr paste))

theorem opened_filter (tokens : List Token) (n : Nat) :
    opened n ((tokens.filter (·.kind != .placemarker)).map (·.kind)) = opened n (tokens.map (·.kind)) := by
  induction tokens generalizing n with
  | nil => rfl
  | cons tok rest ih =>
    by_cases empty : tok.kind = .placemarker
    · simp [empty,nest,ih]
    · simp [empty,ih]

theorem Pasted.readable (pasted : Pasted tokens) (closed : Closed (tokens.map (·.kind))) :
    Readable (tokens.filter (·.kind != .placemarker)) := by
  refine ⟨fun tok member => ?_,(opened_filter tokens 0).trans closed⟩
  obtain ⟨among,other⟩ := mem_filter.mp member
  exact (pasted tok among).resolve_right (by simpa using other)

/-- The tokens that replace a call can be read again. -/
theorem substitute_settles (call : Token) (closing : m.Sealed) (argument : ∀ n : Nat, Argument ((args[n]?).getD []))
    (expands : ∀ n : Nat, Expands host expandArg pp ((args[n]?).getD [])) :
    Settles host (fun depth => substitute (expandArg depth) m args call) pp fun tokens pp' =>
      Readable tokens ∧ Beside pp pp' := by
  refine .bind (arguments_settles [] [] argument expands .nil) fun out pp' filled => ?_
  have pastable : Pastable (out.map (·.kind)) := by
    have made : Made m.body.reverse (out.map (·.kind)).reverse := by simpa using filled.1
    simpa using made.pastable closing
  have pasting : Pasting [] out :=
    ⟨by simp [Pasted],fun tok member => pastable.known _ (mem_map_of_mem member),pastable.apart,pastable.closed⟩
  refine .bind (pasteAll_settles call [] out pasting) fun pasted pp'' after => ?_
  have readable := after.1.1.readable after.1.2
  have beside := filled.2.trans after.2
  split
  next => exact .of_ok (fun _ _ => rfl) ⟨⟨by simp,rfl⟩,beside⟩
  next first rest found =>
    rw [found] at readable
    exact .of_ok (fun _ _ => rfl) ⟨readable.congr (by simp),beside⟩

end Expand
end OnePass
