import OnePass.Preprocess.Directive
import OnePass.Proofs.ExpansionInput

/-! # Macro expansion comes to an end

With sealed macros every step of expansion makes the weight of the unread input smaller, and an argument
that is expanded on its own weighs less than its call. So reading comes to the end of the input or to an
error. -/
namespace OnePass.Expand

open Multiset TokenKind Token

variable {bound less : Multiset Nat}

section Steps

/-- In front of a barrier nothing else is touched, and what is given and left closes as before. -/
structure Advance (pp : Preprocessor) (out : List TokenKind) (pp' : Preprocessor) : Prop where
  barred : Barred pp'
  within : Within pp pp'
  closed : ∀ before, Closed (before ++ stream pp) → Closed (before ++ out ++ stream pp')

theorem Advance.trans (first : Advance pp out pp') (second : Advance pp' more pp'') : Advance pp (out ++ more) pp'' :=
  ⟨second.barred,first.within.trans second.within,fun before closed => by
    simpa using second.closed (before ++ out) (first.closed before closed)⟩

structure Gives (ready : List Source → Prop) (left : List Source → Nat) (pp : Preprocessor) (tok : Token)
    (pp' : Preprocessor) : Prop where
  orderly : Orderly ready pp'
  weight : tok.isEof = true ∨ tok.kind.isSpelled = true ∧ (weight left pp').IsDershowitzMannaLT (weight left pp)
  advance : Barred pp → Advance pp [tok.kind] pp' ∧ (tok.isEof = true → stream pp' = [])

structure Replaces (ready : List Source → Prop) (left : List Source → Nat) (pp pp' : Preprocessor) : Prop where
  orderly : Orderly ready pp'
  weight : (weight left pp').IsDershowitzMannaLT (weight left pp)
  advance : Barred pp → Advance pp [] pp'

def Stepped (ready : List Source → Prop) (left : List Source → Nat) (pp : Preprocessor) :
    Option Token → Preprocessor → Prop
  | some tok, pp' => Gives ready left pp tok pp'
  | none, pp' => Replaces ready left pp pp'

theorem Raw.gives (raw : Raw ready left pp tok pp') (orderly : Orderly ready pp)
    (kind : marked.kind = tok.kind) : Gives ready left pp marked pp' := by
  have eof : marked.isEof = tok.isEof := by rw [isEof,kind]; rfl
  refine ⟨(raw.orderly orderly).1,?_,fun barred => ?_⟩
  · rw [eof,kind]
    rcases raw.weight orderly with ⟨eof,_⟩ | ⟨spelled,taken⟩
    · exact .inl eof
    · exact .inr ⟨spelled,lighter_of_taken taken⟩
  · obtain ⟨barred',within,ended,next⟩ := raw.stream orderly barred
    rw [eof,kind]
    refine ⟨⟨barred',within,fun before closed => ?_⟩,fun eof => (ended eof).2⟩
    rcases (raw.orderly orderly).2 with eof | spelled
    · obtain ⟨paired,none⟩ := ended eof
      have kind : tok.kind = .eof := eq_of_beq eof
      simpa [Closed,paired _,none,kind,nest] using closed
    · rw [next spelled] at closed
      simpa using closed

structure Call (ready : List Source → Prop) (left : List Source → Nat) (pp : Preprocessor) (name : String)
    (args : List (List Token)) (pp' : Preprocessor) : Prop where
  orderly : Orderly ready pp'
  pushback : pp'.pushback = none
  visible : isHidden pp' name = false
  argument : ∀ n : Nat, Argument ((args[n]?).getD [])
  weight : ∀ n : Nat, weight left pp' + .replicate ((args[n]?).getD []).length (free pp'.macros pp'.frames) +
    {free pp'.macros pp'.frames} ≤ weight left pp
  stream : Barred pp → Barred pp' ∧ Within pp pp' ∧ ∃ read, stream pp = read ++ stream pp' ∧ Paired read

theorem Raw.call (raw : Raw ready left pp tok pp') (orderly : Orderly ready pp)
    (kind : tok.kind = .ident name) (visible : isHidden pp' name = false) : Call ready left pp name [] pp' := by
  have spelled : tok.kind.isSpelled = true :=
    (raw.orderly orderly).2.resolve_left (by simp [isEof,kind])
  refine ⟨(raw.orderly orderly).1,raw.pushback,visible,fun n => by simpa using argument_nil,fun n => ?_,
    fun barred => ?_⟩
  · rcases raw.weight orderly with ⟨eof,_⟩ | ⟨_,taken⟩
    · simp [isEof,kind] at eof
    · simpa using taken
  · obtain ⟨barred',within,_,next⟩ := raw.stream orderly barred
    refine ⟨barred',within,[tok.kind],by simp [next spelled],fun n => ?_⟩
    simp [kind,nest]

theorem replace_settles (call : Call ready left pp name args pp')
    (found : pp'.macros.find? name = some m) (expands : ∀ n : Nat, Expands host expandArg pp' ((args[n]?).getD [])) :
    Settles host (fun depth => do
      let tokens ← substitute (expandArg depth) m args tok
      pushFrame { tokens, hides := some name }
      return none) pp' (Stepped ready left pp) := by
  refine .bind (substitute_settles tok (call.orderly.macros name m found) call.argument expands) ?_
  rintro tokens _ ⟨readable,diagnostics,counter,rfl⟩
  refine .of_ok (fun _ _ => rfl) ⟨?_,?_,fun barred => ?_⟩
  · exact { call.orderly with
      spelled := List.forall_mem_cons.mpr ⟨readable.spelled,call.orderly.spelled⟩
      closed := List.forall_mem_cons.mpr ⟨.inr readable.closed,call.orderly.closed⟩ }
  · have parts : weight left { pp' with
        frames := { tokens, hides := some name } :: pp'.frames, diagnostics, counter } =
        weight left pp' + .replicate tokens.length (free pp'.macros ({ tokens, hides := some name } :: pp'.frames)) := by
      simp [weight,call.pushback,load,add_comm]
    have taken : weight left pp' + {free pp'.macros pp'.frames} ≤ weight left pp := by
      refine le_trans ?_ (call.weight 0)
      gcongr
      exact le_add_right _ _
    exact parts ▸ lighter taken fun n member => eq_of_mem_replicate member ▸ free_hides found call.visible rfl
  · obtain ⟨barred',within,read,parts,paired⟩ := call.stream barred
    refine ⟨⟨?_,by simp [call.pushback]⟩,within.trans ⟨_,_,_,_,rfl⟩,fun before closed => ?_⟩
    · obtain ⟨frame,member,barrier⟩ := barred'.barrier
      exact ⟨frame,List.mem_cons_of_mem _ member,barrier⟩
    · rw [parts,← List.append_assoc] at closed
      have replaced := closed.replace fun n => (readable.closed.opened_le n).trans (paired n).ge
      simpa [stream,unread,call.pushback] using replaced

theorem call_of_gathered (first : Raw ready left pp tok pp') (second : Raw ready left pp' after start)
    (gathered : Gathered ready left start size 0 pp'') (orderly : Orderly ready pp) (kind : tok.kind = .ident name)
    (lparen : after.kind = .punct .lparen) (visible : isHidden pp' name = false)
    (arguments : ∀ arg ∈ args, Argument arg ∧ arg.length ≤ size) : Call ready left pp name args pp'' := by
  have orderly' := (first.orderly orderly).1
  have same : free pp''.macros pp''.frames = free start.macros start.frames := by
    rw [gathered.macros,free_congr gathered.hides]
  refine ⟨gathered.orderly,gathered.pushback,?_,fun n => ?_,fun n => ?_,fun barred => ?_⟩
  · rw [isHidden_eq,gathered.hides,← isHidden_eq]
    exact second.visible visible
  · cases found : args[n]? with
    | none => exact argument_nil
    | some arg => exact (arguments arg (List.mem_of_getElem? found)).1
  · have short : ((args[n]?).getD []).length ≤ size := by
      cases found : args[n]? with
      | none => exact Nat.zero_le _
      | some arg => exact (arguments arg (List.mem_of_getElem? found)).2
    have opening : weight left start + {free start.macros start.frames} ≤ weight left pp' :=
      ((second.weight orderly').resolve_left fun eof => by simp [isEof,lparen] at eof).2
    have named : weight left pp' ≤ weight left pp := by
      refine le_trans (le_add_right _ _)
        ((first.weight orderly).resolve_left fun eof => by simp [isEof,kind] at eof).2
    calc weight left pp'' + .replicate ((args[n]?).getD []).length (free pp''.macros pp''.frames) +
          {free pp''.macros pp''.frames}
        ≤ weight left pp'' + .replicate size (free pp''.macros pp''.frames) + {free pp''.macros pp''.frames} := by
          gcongr
      _ ≤ weight left start + {free start.macros start.frames} := by
          rw [← same]
          gcongr
          exact gathered.weight
      _ ≤ weight left pp := opening.trans named
  · obtain ⟨barred',within,_,name⟩ := first.stream orderly barred
    obtain ⟨barred'',within',_,paren⟩ := second.stream orderly' barred'
    obtain ⟨barred,within'',read,parts,level⟩ := gathered.stream barred''
    refine ⟨barred,within.trans (within'.trans within''),tok.kind :: after.kind :: read,?_,fun n => ?_⟩
    · rw [name ((first.orderly orderly).2.resolve_left (by simp [isEof,kind])),paren (by rw [lparen]; rfl),parts]
      rfl
    · simpa [kind,lparen,nest] using level n

theorem gives_pushedBack (first : Raw ready left pp tok pp')
    (second : Raw ready left pp' after pp'') (orderly : Orderly ready pp) (kind : tok.kind = .ident name) :
    Gives ready left pp tok { pp'' with pushback := some after } := by
  have orderly' := (first.orderly orderly).1
  have spelled : tok.kind.isSpelled = true := (first.orderly orderly).2.resolve_left (by simp [isEof,kind])
  have behind := second.orderly orderly'
  refine ⟨{ behind.1 with pushback := by simpa using behind.2 },.inr ⟨spelled,?_⟩,fun barred => ?_⟩
  · have taken := ((first.weight orderly).resolve_left fun eof => by simp [isEof,kind] at eof).2
    have back : weight left { pp'' with pushback := some after } ≤ weight left pp' := by
      rcases second.weight orderly' with ⟨eof,less⟩ | ⟨known,less⟩
      · simpa [weight,second.pushback,eof] using less
      · simpa [weight,second.pushback,isEof_of_isSpelled known,add_comm] using less
    exact lighter_of_taken (le_trans (by gcongr) taken)
  · obtain ⟨barred',within,_,next⟩ := first.stream orderly barred
    obtain ⟨barred'',within',ended,later⟩ := second.stream orderly' barred'
    have rest : stream pp'' = unread pp''.frames := by simp [stream,second.pushback]
    refine ⟨⟨⟨barred''.barrier,?_⟩,within.trans (within'.trans ⟨_,_,_,_,rfl⟩),fun before closed => ?_⟩,?_⟩
    · rintro _ ⟨⟩ eof
      exact rest ▸ (ended eof).2
    · rw [next spelled] at closed
      rcases behind.2 with eof | known
      · obtain ⟨paired,none⟩ := ended eof
        have kind : after.kind = .eof := eq_of_beq eof
        have empty : unread pp''.frames = [] := rest ▸ none
        rw [Closed,opened_append,opened_cons,paired] at closed
        simpa [stream,Closed,empty,kind,nest] using closed
      · rw [later known,rest] at closed
        simpa [stream] using closed
    · simp [isEof,kind]

theorem number_isSpelled (n : Nat) : (number (toString n)).isSpelled = true := by
  rw [Nat.toString_eq_ofList_toDigits]
  cases digits : Nat.toDigits 10 n with
  | nil => exact absurd digits Nat.toDigits_ne_nil
  | cons c rest =>
    have digit : c.isDigit := Nat.isDigit_of_mem_toDigits (by decide) (by decide) (digits ▸ List.mem_cons_self)
    refine Utf8.ofString_head Ascii.isPlain_of_high (fun small => Ascii.isPlain_of_isNamePart ?_) rest
    have code : (UInt8.ofNat c.toNat).toNat = c.toNat := Utf8.toNat_ofNat_of_lt (by omega)
    simp only [Char.isDigit,Bool.and_eq_true,decide_eq_true_eq] at digit
    simp only [Ascii.isNamePart,Ascii.isDigit,Bool.or_eq_true,Bool.and_eq_true,decide_eq_true_eq,
      UInt8.le_iff_toNat_le,code]
    exact .inr ⟨digit.1,digit.2⟩

theorem dynamic?_cases (host : Host) (name : String) (call : Token) (pp : Preprocessor) :
    dynamic? host name call pp = (none,pp) ∨ ∃ value counter, dynamic? host name call pp =
      (some value,{ pp with counter }) ∧ value.kind.isSpelled = true ∧ ∀ n, value.kind.nest n = n := by
  have number (n : Nat) m : (number (toString n)).nest m = m := rfl
  unfold dynamic?
  split
  · exact .inr ⟨_,pp.counter,rfl,number_isSpelled _,number _⟩
  · exact .inr ⟨_,pp.counter,rfl,rfl,fun _ => rfl⟩
  · exact .inr ⟨_,pp.counter,rfl,rfl,fun _ => rfl⟩
  · exact .inr ⟨_,pp.counter,rfl,rfl,fun _ => rfl⟩
  · exact .inr ⟨_,pp.counter + 1,rfl,number_isSpelled _,number _⟩
  · exact .inl rfl

theorem dynamic_settles (name : String) (call : Token) :
    Settles host (fun _ => do modifyGet (dynamic? (← read) name call)) pp fun value? pp' =>
      value? = none ∧ pp' = pp ∨ ∃ value counter, value? = some value ∧ pp' = { pp with counter } ∧
        value.kind.isSpelled = true ∧ ∀ n, value.kind.nest n = n := by
  have run fuel : (do modifyGet (dynamic? (← read) name call) : PreM (Option Token)) { host with fuel } pp =
      .ok (dynamic? host name call pp).1 (dynamic? host name call pp).2 := rfl
  refine .of_ok (fun _ fuel => run fuel) ?_
  rcases dynamic?_cases host name call pp with same | ⟨value,counter,same,known⟩
  · rw [same]
    exact .inl ⟨rfl,rfl⟩
  · rw [same]
    exact .inr ⟨value,counter,rfl,rfl,known⟩

theorem gives_value (raw : Raw ready left pp tok pp') (orderly : Orderly ready pp)
    (kind : tok.kind = .ident name) (spelled : value.kind.isSpelled = true) (stays : ∀ n, value.kind.nest n = n)
    (counter : Nat) : Gives ready left pp value { pp' with counter } := by
  have given := raw.gives orderly rfl
  refine ⟨{ given.orderly with },.inr ⟨spelled,?_⟩,fun barred => ?_⟩
  · exact (given.weight.resolve_left (by simp [isEof,kind])).2
  · obtain ⟨⟨barred',within,closed⟩,_⟩ := given.advance barred
    refine ⟨⟨{ barred' with },within.trans ⟨_,_,_,_,rfl⟩,fun before all => ?_⟩,?_⟩
    · refine (closed before all).replace fun n => ?_
      rw [opened_cons,stays,kind]
      exact Nat.le_refl n
    · simp [isEof_of_isSpelled spelled]

/-- Arguments that weigh less than a state can be expanded. -/
def ExpandsBelow (host : Host) (expandArg : Nat → List Token → PreM (List Token)) (ready : List Source → Prop)
    (left : List Source → Nat) (bound : Multiset Nat) : Prop :=
  ∀ (pp : Preprocessor) (arg : List Token), Orderly ready pp → Argument arg →
    (weight left pp + .replicate arg.length (free pp.macros pp.frames)).IsDershowitzMannaLT bound →
    Settles host (expandArg · arg) pp fun out pp' => Readable out ∧ Beside pp pp'

theorem Call.expands (call : Call ready left pp name args pp')
    (expands : ExpandsBelow host expandArg ready left (Expand.weight left pp)) (n : Nat) :
    Expands host expandArg pp' ((args[n]?).getD []) := by
  rintro _ ⟨diagnostics,counter,rfl⟩
  exact expands _ _ { call.orderly with } (call.argument n) (lighter_of_taken (call.weight n))

theorem step_settles (feeds : Feeds host source ready left) (orderly : Orderly ready pp)
    (expands : ExpandsBelow host expandArg ready left (weight left pp)) :
    Settles host (fun depth => step (rawFrom source) (expandArg depth)) pp (Stepped ready left pp) := by
  refine .bind (raw_settles feeds orderly.ready) fun tok pp' raw => ?_
  have given {marked : Token} same :
      Settles host (fun _ => (return some marked : PreM (Option Token))) pp' (Stepped ready left pp) :=
    .of_ok (fun _ _ => rfl) (raw.gives orderly same)
  split
  next name kind =>
    split
    next => exact given rfl
    next =>
      refine .get_bind ?_
      split
      next => exact given rfl
      next m found =>
        refine .get_bind ?_
        split
        next => exact given rfl
        next visible =>
          have visible : isHidden pp' name = false := by simpa using visible
          have object := raw.call orderly kind visible
          refine .read_bind (dynamic_settles name tok) fun value? s value => ?_
          obtain ⟨rfl,rfl⟩ | ⟨value,counter,rfl,rfl,spelled,stays⟩ := value
          · dsimp only
            split
            next => exact replace_settles object found (object.expands expands)
            next =>
              refine .bind (raw_settles feeds object.orderly.ready) fun after start second => ?_
              split
              next => exact .of_ok (fun _ _ => rfl) (gives_pushedBack raw second orderly kind)
              next paren =>
                have lparen : after.kind = .punct .lparen := by simpa [isPunct] using paren
                have inside := second.opening object.orderly object.pushback lparen
                refine .bind (readArguments_settles name m feeds (second.orderly object.orderly).1 second.pushback inside) ?_
                rintro args s ⟨size,gathered,arguments⟩
                have call := call_of_gathered raw second gathered orderly kind lparen visible arguments
                have same : s.macros.find? name = some m := by rwa [gathered.macros,second.macros]
                exact replace_settles call same (call.expands expands)
          · exact .of_ok (fun _ _ => rfl) (gives_value raw orderly kind spelled stays counter)
  next => exact given rfl

theorem Replaces.trans (first : Replaces ready left pp pp') (second : Replaces ready left pp' pp'') :
    Replaces ready left pp pp'' :=
  ⟨second.orderly,second.weight.trans first.weight,fun barred =>
    (first.advance barred).trans (second.advance (first.advance barred).barred)⟩

theorem Replaces.gives (first : Replaces ready left pp pp') (second : Gives ready left pp' tok pp'') :
    Gives ready left pp tok pp'' := by
  refine ⟨second.orderly,second.weight.imp_right fun ⟨spelled,less⟩ => ⟨spelled,less.trans first.weight⟩,fun barred => ?_⟩
  obtain ⟨advance,ended⟩ := second.advance (first.advance barred).barred
  exact ⟨(first.advance barred).trans advance,ended⟩

theorem ExpandsBelow.mono (expands : ExpandsBelow host expandArg ready left bound)
    (below : less.IsDershowitzMannaLT bound) : ExpandsBelow host expandArg ready left less :=
  fun pp arg orderly argument lighter => expands pp arg orderly argument (lighter.trans below)

theorem nextFrom_settles (feeds : Feeds host source ready left) (orderly : Orderly ready pp)
    (expands : ExpandsBelow host expandArg ready left (weight left pp)) :
    Settles host (fun depth => nextFrom (rawFrom source) (expandArg depth)) pp (Gives ready left pp) := by
  refine Settles.iterate wellFounded_isDershowitzMannaLT (fun _ s => s = pp ∨ Replaces ready left pp s)
    (fun _ s => weight left s) ?_ (.inl rfl)
  rintro ⟨⟩ s reached
  have stepped : Settles host (fun depth => step (rawFrom source) (expandArg depth)) s (Stepped ready left s) := by
    rcases reached with rfl | replaced
    · exact step_settles feeds orderly expands
    · exact step_settles feeds replaced.orderly (expands.mono replaced.weight)
  refine .bind stepped fun out s' result => ?_
  cases out with
  | some tok =>
    refine .of_ok (fun _ _ => rfl) ?_
    rcases reached with rfl | replaced
    · exact result
    · exact replaced.gives result
  | none =>
    refine .of_ok (fun _ _ => rfl) ⟨.inr ?_,result.weight⟩
    rcases reached with rfl | replaced
    · exact result
    · exact replaced.trans result

end Steps

def Expanded (tokens : List Token) (pp : Preprocessor) (out : List Token) (pp' : Preprocessor) : Prop :=
  (∀ tok ∈ out, tok.kind.isSpelled = true) ∧
    (Closed (tokens.map (·.kind)) → Closed (out.map (·.kind))) ∧ Beside pp pp'

section Lists

def entered (tokens : List Token) (pp : Preprocessor) : Preprocessor :=
  { pp with pushback := none, frames := { tokens, barrier := true } :: pp.frames }

theorem entered_orderly (orderly : Orderly ready pp)
    (spelled : ∀ tok ∈ tokens, tok.kind.isSpelled = true) : Orderly ready (entered tokens pp) :=
  { orderly with
    spelled := List.forall_mem_cons.mpr ⟨spelled,orderly.spelled⟩
    closed := List.forall_mem_cons.mpr ⟨.inl rfl,orderly.closed⟩
    pushback := by simp [entered] }

theorem entered_weight (left : List Source → Nat) (tokens : List Token) (pp : Preprocessor) :
    weight left (entered tokens pp) ≤ weight left pp + .replicate tokens.length (free pp.macros pp.frames) := by
  have same : free pp.macros ({ tokens, barrier := true } :: pp.frames) = free pp.macros pp.frames :=
    free_barrier pp.frames rfl
  simp only [weight,entered,load,same,Option.any_none,Bool.false_eq_true,if_false,zero_add]
  rw [add_comm]
  gcongr
  exact le_add_left _ _

theorem entered_barred (tokens : List Token) (pp : Preprocessor) : Barred (entered tokens pp) :=
  ⟨⟨_,List.mem_cons_self,rfl⟩,by simp [entered]⟩

theorem lighter_or_same (le : less ≤ bound) : less = bound ∨ less.IsDershowitzMannaLT bound := by
  obtain ⟨others,rfl⟩ := Multiset.le_iff_exists_add.mp le
  by_cases none : others = 0
  · exact .inl (by simp [none])
  · exact .inr ⟨less,0,others,none,by simp,rfl,by simp⟩

/-- A list comes to its end when every argument that weighs less does. -/
theorem drained_settles (expands : ExpandsBelow host expandArg ready left bound) (orderly : Orderly ready pp)
    (spelled : ∀ tok ∈ tokens, tok.kind.isSpelled = true)
    (weighs : weight left pp + .replicate tokens.length (free pp.macros pp.frames) = bound) :
    Settles host (fun depth => do
      iterate (fun out => do
        let tok ← nextFrom (rawFrom nothing) (expandArg depth)
        return if tok.isEof then .inr out.reverse else .inl (tok :: out)) (← read).fuel []) (entered tokens pp)
      fun out s => (∀ tok ∈ out, tok.kind.isSpelled = true) ∧
        (Closed (tokens.map (·.kind)) → Closed (out.map (·.kind))) ∧ Within (entered tokens pp) s := by
  refine Settles.iterate wellFounded_isDershowitzMannaLT (fun out s => Orderly ready s ∧
    (weight left s = bound ∨ (weight left s).IsDershowitzMannaLT bound) ∧ Barred s ∧ Within (entered tokens pp) s ∧
    (∀ tok ∈ out, tok.kind.isSpelled = true) ∧
    (Closed (tokens.map (·.kind)) → Closed (out.reverse.map (·.kind) ++ stream s))) (fun _ s => weight left s) ?_ ?_
  · rintro out s ⟨orderly,below,barred,within,known,closed⟩
    have below' : ExpandsBelow host expandArg ready left (weight left s) := by
      rcases below with same | less
      · exact same ▸ expands
      · exact expands.mono less
    refine .bind (nextFrom_settles (nothing_feeds host ready left) orderly below') fun tok s' given => .of_ok (fun _ _ => rfl) ?_
    obtain ⟨advance,ended⟩ := given.advance barred
    have within' := within.trans advance.within
    have closed' := fun all => advance.closed _ (closed all)
    rcases given.weight with eof | ⟨spelled,less⟩
    · have kind : tok.kind = .eof := eq_of_beq eof
      simp only [eof]
      refine ⟨by simpa using known,fun all => ?_,within'⟩
      simpa [Closed,ended eof,kind,nest] using closed' all
    · simp only [isEof_of_isSpelled spelled]
      refine ⟨⟨given.orderly,.inr ?_,advance.barred,within',List.forall_mem_cons.mpr ⟨spelled,known⟩,fun all => ?_⟩,less⟩
      · exact below.elim (fun same => same ▸ less) less.trans
      · simpa using closed' all
  · refine ⟨entered_orderly orderly spelled,lighter_or_same (weighs ▸ entered_weight left tokens pp),
      entered_barred tokens pp,.refl _,by simp,fun closed => ?_⟩
    simpa [stream,unread,entered] using closed

theorem listTo_settles (left : List Source → Nat) (tokens : List Token) (orderly : Orderly ready pp)
    (spelled : ∀ tok ∈ tokens, tok.kind.isSpelled = true) :
    Settles host (fun depth => listTo depth tokens) pp (Expanded tokens pp) := by
  suffices ∀ (bound : Multiset Nat) pp tokens, Orderly ready pp →
      (∀ tok ∈ tokens, tok.kind.isSpelled = true) →
      weight left pp + .replicate tokens.length (free pp.macros pp.frames) = bound →
      Settles host (fun depth => listTo depth tokens) pp (Expanded tokens pp) from
    this _ pp tokens orderly spelled rfl
  have ends : WellFounded fun less bound : Multiset Nat => less.IsDershowitzMannaLT bound :=
    wellFounded_isDershowitzMannaLT
  intro bound
  induction bound using ends.induction with
  | h bound ih =>
    intro pp tokens orderly spelled weighs
    have expands : ExpandsBelow host listTo ready left bound := by
      intro pp arg orderly argument less
      refine (ih _ less pp arg orderly argument.spelled rfl).mono fun out pp' expanded => ?_
      exact ⟨⟨expanded.1,expanded.2.1 argument.paired.closed⟩,expanded.2.2⟩
    have drained := drained_settles expands orderly spelled weighs
    refine Settles.deeper ?_ fun _ => rfl
    refine .get_bind (.finishing ?_)
    refine (drained.mono ?_).congr fun _ _ => rfl
    rintro out _ ⟨known,closed,frames,pushback,diagnostics,counter,rfl⟩
    exact ⟨known,closed,diagnostics,counter,rfl⟩

end Lists
end OnePass.Expand
