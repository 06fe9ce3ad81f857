import OnePass.Session
import OnePass.Proofs.Expansion

/-! # Reading to the end of the input

The files hold finitely many tokens, so with sealed macros the expanded input is read to its end or to an
error. A replacement list that leaves a parenthesis open can be read again inside its own expansion, and
then there may be no end. -/
namespace OnePass.Expand

open Preprocessor Lexer Printer
open List hiding after
open PreM

variable {pp : Preprocessor}

/-- Reading one token. -/
def Advances (src later : Source) : Prop := ∃ tok, nextToken false src = (.ok tok,later)

/-- None of the tokens that are read from here on begins a directive. -/
def Undirected (src : Source) : Prop := ∀ here tok later, Relation.ReflTransGen Advances src here →
  nextToken false here = (.ok tok,later) → (tok.isPunct .hash && tok.lineStart) = false

/-- Files without directives. -/
def Plain (files : List Source) : Prop := ∀ src ∈ files, src.follows = none ∧ Undirected src

def unreadLength (files : List Source) : Nat := (files.map (·.unread.length)).sum

section Files

theorem Advances.reads (step : Advances src later) : src.Reads later := by
  obtain ⟨tok,found⟩ := step
  have reads := nextToken_reads false src
  rwa [found] at reads

theorem Plain.next (plain : Plain (src :: rest)) (found : nextToken false src = (.ok tok,later)) :
    Plain (later :: rest) := by
  obtain ⟨⟨alone,undirected⟩,others⟩ := forall_mem_cons.mp plain
  have step : Advances src later := ⟨tok,found⟩
  exact forall_mem_cons.mpr ⟨⟨step.reads.follows.trans alone,fun here tok' later' path =>
    undirected here tok' later' (.head step path)⟩,others⟩

theorem undirected_of_absent (absent : 0x23 ∉ src.unread) : Undirected src := by
  intro here tok later path found
  have without : 0x23 ∉ here.unread := by
    clear found
    induction path with
    | refl => exact absent
    | tail _ step ih => exact fun hash => ih (step.reads.unread.mem hash)
  rw [Bool.and_eq_false_iff,Token.isPunct,beq_eq_false_iff_ne]
  refine .inl fun isHash => ?_
  rcases nextToken_ok found with eof | ⟨_,newline⟩ | ⟨_,_,hash⟩
  · cases eof.symm.trans isHash
  · cases newline
  · exact without (hash isHash)

theorem lex_run (current : pp.current? = some src)
    (found : nextToken newlines src = (result,later)) (host : Host) :
    PreM.lex newlines host pp = match result with
      | .ok tok => .ok tok { pp with files := later :: pp.files.drop 1 }
      | .error fault =>
        PreM.failAt fault.line ⟨.lexical,fault.fault.text⟩ host { pp with files := later :: pp.files.drop 1 } := by
  simp only [PreM.lex,run_bind,run_get,current,found]
  cases result <;> rfl

theorem lex_settles (files : pp.files = src :: rest) (plain : Plain pp.files) :
    Settles host (fun _ => lex false) pp fun tok pp' => ∃ later, pp' = { pp with files := later :: rest } ∧
      Plain (later :: rest) ∧ later.unread.length ≤ src.unread.length ∧
      (tok.isPunct .hash && tok.lineStart) = false ∧
      (tok.isEof = true ∨ tok.kind.isSpelled = true ∧ later.unread.length < src.unread.length) := by
  rw [files] at plain
  obtain ⟨alone,undirected⟩ := plain src mem_cons_self
  have current : pp.current? = some src := by simp [current?,files,alone]
  have reads := nextToken_reads false src
  rcases found : nextToken false src with ⟨result,later⟩
  rw [found] at reads
  cases result with
  | error fault => exact .of_failed fun _ _ => lex_run current found _
  | ok tok =>
    refine .of_ok (fun _ _ => lex_run current found _) ⟨later,?_,plain.next found,reads.unread.length_le,
      undirected src tok later .refl found,?_⟩
    · rw [files,drop_one,tail_cons]
    · rcases nextToken_ok found with eof | ⟨_,newline⟩ | ⟨spelled,less,_⟩
      · exact .inl (by rw [Token.isEof,eof]; rfl)
      · cases newline
      · exact .inr ⟨spelled,less⟩

structure SameTokens (pp pp' : Preprocessor) : Prop where
  frames : pp'.frames = pp.frames
  pushback : pp'.pushback = pp.pushback
  macros : pp'.macros = pp.macros

theorem SameTokens.trans (early : SameTokens first second) (late : SameTokens second third) : SameTokens first third :=
  ⟨late.frames.trans early.frames,late.pushback.trans early.pushback,late.macros.trans early.macros⟩

theorem popFile_eq (files : pp.files = src :: rest) :
    pp.popFile = { pp with files := rest, fileSwitches := pp.fileSwitches + 1 } := by
  simp only [popFile,files]

theorem endFile_settles (files : pp.files = src :: rest) :
    Settles host (fun _ => endFile) pp fun more pp' => SameTokens pp pp' ∧
      pp'.files = if more then rest else pp.files := by
  have leaves : ∀ closed, SameTokens pp closed → closed.files = pp.files →
      Settles host (fun _ => do
        if pp.files.length > 1 then
          modify popFile
          return true
        return false) closed fun more pp' => SameTokens pp pp' ∧ pp'.files = if more then rest else pp.files := by
    intro closed same current
    by_cases more : pp.files.length > 1
    · simp only [more]
      refine .of_ok (fun _ _ => rfl) ?_
      rw [popFile_eq (current.trans files)]
      exact ⟨⟨same.frames,same.pushback,same.macros⟩,rfl⟩
    · simp only [more]
      exact .of_ok (fun _ _ => rfl) ⟨same,current⟩
  refine .get_bind ?_
  by_cases missing : pp.conditionals.length > pp.fileDepth
  · simp only [missing]
    exact (leaves _ (by exact ⟨rfl,rfl,rfl⟩) (by rfl)).congr fun _ _ => rfl
  · simp only [missing]
    exact leaves pp ⟨rfl,rfl,rfl⟩ rfl

theorem Plain.below (plain : Plain (src :: rest)) : Plain rest := (forall_mem_cons.mp plain).2

/-- The files come to an end: each token takes characters away, and each end takes a file away. -/
theorem fromFiles_feeds (host : Host) : Feeds host fromFiles Plain unreadLength := by
  intro pp plain
  refine Settles.iterate Nat.lt_wfRel.wf
    (fun _ pp' => SameTokens pp pp' ∧ Plain pp'.files ∧ unreadLength pp'.files ≤ unreadLength pp.files)
    (fun _ pp' => pp'.files.length) ?_ ⟨⟨rfl,rfl,rfl⟩,plain,Nat.le_refl _⟩
  rintro ⟨⟩ here ⟨same,plain,fewer⟩
  refine .get_bind ?_
  rcases files : here.files with _ | ⟨src,rest⟩
  · exact .of_ok (fun _ _ => rfl) ⟨same.frames,same.pushback,same.macros,plain,.inl ⟨rfl,fewer⟩⟩
  · refine (lex_settles files plain).bind ?_
    rintro tok _ ⟨later,rfl,plain,less,noHash,kind⟩
    have same : SameTokens pp { here with files := later :: rest } := same.trans ⟨rfl,rfl,rfl⟩
    have less : unreadLength (later :: rest) ≤ unreadLength here.files := by
      simpa only [unreadLength,files,map_cons,sum_cons,Nat.add_le_add_iff_right] using less
    rcases kind with eof | ⟨spelled,shorter⟩
    · simp only [noHash,eof]
      refine (endFile_settles rfl).bind ?_
      rintro more closed ⟨kept,left⟩
      cases more with
      | true =>
        refine .of_ok (fun _ _ => rfl) ⟨⟨same.trans kept,?_,?_⟩,?_⟩
        · exact left ▸ plain.below
        · have := Nat.le_add_left (unreadLength rest) later.unread.length
          rw [left]
          exact this.trans (less.trans fewer)
        · rw [left]
          exact Nat.lt_succ_self _
      | false =>
        have same := same.trans kept
        refine .of_ok (fun _ _ => rfl) ⟨same.frames,same.pushback,same.macros,?_,.inl ⟨eof,?_⟩⟩
        · exact left ▸ plain
        · rw [left]
          exact less.trans fewer
    · simp only [noHash,isEof_of_isSpelled spelled]
      refine .of_ok (fun _ _ => rfl) ⟨same.frames,same.pushback,same.macros,plain,.inr ⟨spelled,?_⟩⟩
      refine Nat.lt_of_lt_of_le ?_ fewer
      simpa only [unreadLength,files,map_cons,sum_cons,Nat.add_lt_add_iff_right] using shorter

end Files

theorem list_expands (left : List Source → Nat) (bound : Multiset Nat) :
    ExpandsBelow host (fun _ => list) ready left bound := by
  intro pp arg orderly argument _
  refine (listTo_settles left arg orderly argument.spelled).atFuel.mono fun out pp' expanded => ?_
  exact ⟨⟨expanded.1,expanded.2.1 argument.paired.closed⟩,expanded.2.2⟩

theorem next_settles (orderly : Orderly Plain pp) :
    Settles host (fun _ => next) pp (Gives Plain unreadLength pp) :=
  nextFrom_settles (fromFiles_feeds host) orderly (list_expands _ _)

theorem print_settles (orderly : Orderly Plain pp) :
    Settles host (fun _ => print) pp fun _ pp' => Orderly Plain pp' := by
  refine Settles.iterate Multiset.wellFounded_isDershowitzMannaLT (fun _ s => Orderly Plain s)
    (fun _ s => weight unreadLength s) ?_ orderly
  intro previous s orderly
  refine (next_settles orderly).bind fun tok s' gives => ?_
  by_cases eof : tok.isEof = true
  · simp only [eof]
    cases previous with
    | none | some last => exact .of_ok (fun _ _ => rfl) { gives.orderly with }
  · simp only [eof]
    have less := (gives.weight.resolve_left eof).2
    cases previous with
    | none | some last => exact .of_ok (fun _ _ => rfl) ⟨{ gives.orderly with },less⟩

/-- With enough fuel there is one and the same end, an answer or an error that is reported. -/
def Terminates (host : Host) (x : PreM α) (pp : Preprocessor) : Prop :=
  ∃ bound result, (∀ fuel ≥ bound, x { host with fuel } pp = result) ∧ Ends (fun _ _ => True) result

theorem terminates_of_settles
    (settles : Settles host (fun _ => x) pp post) : Terminates host x pp := by
  obtain ⟨bound,result,same,ends⟩ := settles.mono fun _ _ _ => trivial
  exact ⟨bound,result,fun fuel enough => same bound (Nat.le_refl _) fuel enough,ends⟩

/-- If every replacement list closes the parentheses that it opens, then any list of tokens is expanded
and any input without directives is read and expanded to its end, or to an error. -/
theorem expansion_ends (host : Host) (pp : Preprocessor) (orderly : Orderly Plain pp) :
    (∀ tokens : List Token, (∀ tok ∈ tokens, tok.kind.isSpelled) → Terminates host (list tokens) pp) ∧
      Terminates host next pp ∧ Terminates host print pp :=
  ⟨fun tokens spelled => terminates_of_settles (listTo_settles unreadLength tokens orderly spelled).atFuel,
    terminates_of_settles (next_settles orderly),terminates_of_settles (print_settles orderly)⟩

def lone (kind : TokenKind) : Token := { kind, line := 1 }

def identity : Macro := { params := some ["x"], body := [⟨.param 0,false⟩] }

def nested : List Token := [lone (.punct .lparen),lone (.ident "g"),lone (.punct .rparen)]

/-- A macro that begins a call of the first one with its own name in parentheses, and leaves it open. -/
def reopening : Macro :=
  { body := (lone (.ident "f") :: lone (.punct .lparen) :: nested).map fun tok => ⟨.token tok.kind,false⟩ }

def closing : Macro := { reopening with body := reopening.body ++ [⟨.token (.punct .rparen),false⟩] }

theorem macros_sealed {macros : MacroTable} (all : ∀ entry ∈ macros.current, entry.2.Sealed) (name : String) (m : Macro)
    (found : macros.find? name = some m) : m.Sealed := by
  obtain ⟨before,after,parts,_⟩ := lookup_eq_some_iff.mp found
  exact all (name,m) (by simp [parts])

/-- A file in which a macro is used that expands to a call with its own name. -/
def guarded : Preprocessor :=
  { macros := (MacroTable.initial.define "f" identity).define "g" closing
    files := [Source.ofBytes "<string>" (Bytes.ofString "g )\n")] }

theorem guarded_orderly : Orderly Plain guarded where
  macros := macros_sealed (by decide +kernel)
  spelled := by simp [guarded]
  closed := by simp [guarded]
  pushback := by simp [guarded]
  ready := by
    have plain : ∀ src ∈ guarded.files, src.follows = none ∧ 0x23 ∉ src.unread := by decide +kernel
    exact fun src member => ⟨(plain src member).1,undirected_of_absent (plain src member).2⟩

theorem expansion_ends_guarded : Orderly Plain guarded ∧ Terminates { fuel := 0 } print guarded :=
  ⟨guarded_orderly,(expansion_ends { fuel := 0 } guarded guarded_orderly).2.2⟩

/-! ## Expansion without end -/

section Runaway

/-- Either a result of this kind comes out or nothing does, whatever the fuel is. -/
def Yields (host : Host) (x : PreM α) (pp : Preprocessor) (post : α → Preprocessor → Prop) : Prop :=
  (∃ a pp', x host pp = .ok a pp' ∧ post a pp') ∨ ∃ pp', x host pp = .error .exhausted pp'

namespace Yields

theorem bind (mid : α → Preprocessor → Prop) {post : β → Preprocessor → Prop}
    (first : Yields host x pp mid) (later : ∀ a pp', mid a pp' → Yields host (f a) pp' post) :
    Yields host (x >>= f) pp post := by
  rcases first with ⟨a,pp',run,holds⟩ | ⟨pp',run⟩
  · have same : (x >>= f) host pp = f a host pp' := by rw [run_bind,run]
    rcases later a pp' holds with ⟨b,pp'',rest,after⟩ | ⟨pp'',rest⟩
    · exact .inl ⟨b,pp'',same.trans rest,after⟩
    · exact .inr ⟨pp'',same.trans rest⟩
  · exact .inr ⟨pp',by rw [run_bind,run]⟩

theorem never {f : α → PreM β} {post : β → Preprocessor → Prop} (lost : Yields host x pp fun _ _ => False) :
    Yields host (x >>= f) pp post :=
  bind _ lost fun _ _ impossible => impossible.elim

theorem congr (yields : Yields host y start post)
    (same : x host pp = y host start) : Yields host x pp post := by
  rwa [Yields,same]

theorem round {step : α → PreM (α ⊕ β)} {post : β → Preprocessor → Prop} (count : Nat)
    (turn : Yields host (step a) pp fun next pp' => match next with
      | .inl b => ∀ count, Yields host (iterate step count b) pp' post
      | .inr b => post b pp') :
    Yields host (iterate step count a) pp post := by
  cases count with
  | zero => exact .inr ⟨pp,rfl⟩
  | succ count =>
    refine bind _ turn fun next pp' holds => ?_
    cases next with
    | inl b => exact holds count
    | inr b => exact .inl ⟨b,pp',rfl,holds⟩

theorem finishing
    (yields : Yields host x pp fun a pp' => post a (change pp')) : Yields host (PreM.finishing x change) pp post := by
  rcases yields with ⟨a,pp',run,holds⟩ | ⟨pp',run⟩
  · exact .inl ⟨a,change pp',by rw [PreM.finishing,run],holds⟩
  · exact .inr ⟨change pp',by rw [PreM.finishing,run]⟩

end Yields
def reading (frames : List Frame) (pp : Preprocessor) : Preprocessor := { pp with pushback := none, frames }

structure Recurs (macros : MacroTable) : Prop where
  identity : macros.find? "f" = some identity
  reopening : macros.find? "g" = some reopening

/-- A name that is read and stands for a macro. -/
structure Calls (host : Host) (raw : PreM Token) (pp : Preprocessor) (name : String) (m : Macro) (tok : Token)
    (pp' : Preprocessor) : Prop where
  taken : raw host pp = .ok tok pp'
  kind : tok.kind = .ident name
  fresh : tok.noExpand = false
  found : pp'.macros.find? name = some m
  visible : isHidden pp' name = false
  static : dynamic? host name tok pp' = (none,pp')

namespace Calls

theorem static_run (calls : Calls host raw pp name m tok pp') :
    (modifyGet (dynamic? host name tok) : PreM (Option Token)) host pp' = .ok none pp' := by
  change EStateM.Result.ok (dynamic? host name tok pp').1 (dynamic? host name tok pp').2 = _
  rw [calls.static]

theorem object (calls : Calls host raw pp name m tok pp') (params : m.params = none) :
    step raw expandArg host pp = (do
      let tokens ← substitute expandArg m [] tok
      pushFrame { tokens, hides := some name }
      return none : PreM (Option Token)) host pp' := by
  simp only [step,run_bind,run_get,run_read,calls.taken,calls.kind,calls.fresh,calls.found,calls.visible,
    calls.static_run,params,Bool.false_eq_true,↓reduceIte]

theorem function (calls : Calls host raw pp name m tok pp') (params : m.params = some names)
    (opening : raw host pp' = .ok after pp'') (lparen : after.isPunct .lparen = true) :
    step raw expandArg host pp = (do
      let args ← readArguments raw name m
      let tokens ← substitute expandArg m args tok
      pushFrame { tokens, hides := some name }
      return none : PreM (Option Token)) host pp'' := by
  simp only [step,run_bind,run_get,run_read,calls.taken,calls.kind,calls.fresh,calls.found,calls.visible,
    calls.static_run,params,opening,lparen,Bool.not_true,Bool.false_eq_true,↓reduceIte]

end Calls

section Round

/-- A macro's name in front of what is read is a call. -/
theorem calls_lone (frame : Frame) (below : List Frame)
    (found : pp.macros.find? name = some m) (visible : ∀ other ∈ frame :: below, other.hides ≠ some name)
    (static : ∀ pp', dynamic? host name (lone (.ident name)) pp' = (none,pp')) :
    Calls host (rawFrom source) (reading ({ frame with tokens := lone (.ident name) :: frame.tokens } :: below) pp)
      name m (lone (.ident name)) (reading (frame :: below) pp) where
  taken := rfl
  kind := rfl
  fresh := rfl
  found := found
  visible := by simpa [isHidden,reading] using visible
  static := static _

theorem step_reopening (recurs : Recurs pp.macros) (visible : ∀ frame ∈ below, frame.hides = none) (host : Host) :
    step (rawFrom source) expandArg host (reading ({ tokens := lone (.ident "g") :: rest, barrier } :: below) pp) =
      .ok none (reading ({ tokens := lone (.ident "f") :: lone (.punct .lparen) :: nested, hides := some "g" } ::
        { tokens := rest, barrier } :: below) pp) :=
  (calls_lone { tokens := rest, barrier } below recurs.reopening
    (by simpa using fun frame member => by simp [visible frame member]) fun _ => rfl).object rfl

theorem readArguments_reopening : Yields host (readArguments (rawFrom source) "f" identity)
    (reading ({ tokens := nested, hides := some "g" } ::
      { tokens := lone (.punct .rparen) :: rest, barrier } :: below) pp) fun args pp' =>
      args = [nested] ∧ pp' = reading ({ tokens := rest, barrier } :: below) pp := by
  refine .bind (fun args pp' => args = [nested] ∧ pp' = reading ({ tokens := rest, barrier } :: below) pp) ?_ ?_
  · refine .round _ (.inl ⟨_,_,rfl,fun count => ?_⟩)
    refine .round _ (.inl ⟨_,_,rfl,fun count => ?_⟩)
    refine .round _ (.inl ⟨_,_,rfl,fun count => ?_⟩)
    exact .round _ (.inl ⟨_,_,rfl,rfl,rfl⟩)
  · rintro _ _ ⟨rfl,rfl⟩
    exact .inl ⟨_,_,rfl,rfl,rfl⟩

theorem step_identity (recurs : Recurs pp.macros) (visible : ∀ frame ∈ below, frame.hides = none)
    (lost : Yields host (expandArg nested) (reading ({ tokens := rest, barrier } :: below) pp) fun _ _ => False) :
    Yields host (step (rawFrom source) expandArg) (reading
      ({ tokens := lone (.ident "f") :: lone (.punct .lparen) :: nested, hides := some "g" } ::
        { tokens := lone (.punct .rparen) :: rest, barrier } :: below) pp) fun _ _ => False := by
  have filled : Yields host (substitute expandArg identity [nested] (lone (.ident "f")))
      (reading ({ tokens := rest, barrier } :: below) pp) fun _ _ => False :=
    .never (.never lost)
  refine .congr (.bind _ readArguments_reopening ?_)
    ((calls_lone { tokens := lone (.punct .lparen) :: nested, hides := some "g" }
      ({ tokens := lone (.punct .rparen) :: rest, barrier } :: below) recurs.identity
      (by simpa using fun frame member => by simp [visible frame member]) fun _ => rfl).function rfl rfl rfl)
  rintro _ _ ⟨rfl,rfl⟩
  exact .never filled

theorem nextFrom_reopening (recurs : Recurs pp.macros) (visible : ∀ frame ∈ below, frame.hides = none)
    (lost : Yields host (expandArg nested) (reading ({ tokens := rest, barrier } :: below) pp) fun _ _ => False) :
    Yields host (nextFrom (rawFrom source) expandArg) (reading
      ({ tokens := lone (.ident "g") :: lone (.punct .rparen) :: rest, barrier } :: below) pp) fun _ _ => False := by
  refine .round _ (.bind (fun out pp' => out = none ∧ pp' = _)
    (.inl ⟨none,_,step_reopening recurs visible host,rfl,rfl⟩) ?_)
  rintro _ _ ⟨rfl,rfl⟩
  refine .inl ⟨.inl (),_,rfl,fun count => .round _ ?_⟩
  exact .never (step_identity recurs visible lost)

end Round

/-- A list that is read again as a whole inside its own expansion. -/
theorem listTo_nested (depth : Nat) (recurs : Recurs pp.macros) (visible : ∀ frame ∈ pp.frames, frame.hides = none) :
    Yields host (listTo depth nested) pp fun _ _ => False := by
  induction depth generalizing pp with
  | zero => exact .inr ⟨pp,rfl⟩
  | succ depth ih =>
    have listed : Yields host (iterate (fun out => do
        let tok ← nextFrom (rawFrom nothing) (listTo depth)
        return if tok.isEof then .inr out.reverse else .inl (tok :: out)) host.fuel [])
        (entered nested pp) fun _ _ => False := by
      refine .round _ (.bind (fun tok pp' => tok = lone (.punct .lparen) ∧ pp' = reading
        ({ tokens := nested.drop 1, barrier := true } :: pp.frames) pp) ?_ ?_)
      · exact .round _ (.inl ⟨_,_,rfl,rfl,rfl⟩)
      · rintro _ _ ⟨rfl,rfl⟩
        refine .inl ⟨_,_,rfl,fun count => .round _ ?_⟩
        exact .never (nextFrom_reopening recurs visible (ih recurs (by simpa [reading] using visible)))
    exact .congr (.finishing listed) rfl

/-- The two macros beside the ones that are always there, and the input that they are used on. -/
def runaway : Preprocessor :=
  { macros := (MacroTable.initial.define "f" identity).define "g" reopening
    frames := [{ tokens := [lone (.ident "g"),lone (.punct .rparen)] }] }

theorem print_runaway (host : Host) : Yields host print runaway fun _ _ => False := by
  have recurs : Recurs runaway.macros := ⟨rfl,rfl⟩
  refine .round _ (.never (nextFrom_reopening recurs (by simp) ?_))
  exact listTo_nested _ recurs (by simp [reading])

/-- The definitions `f(x) x` and `g f((g)` are accepted, and then `g )` is expanded without end. Where such
a macro does come to an end, it may be expanded inside its own expansion. -/
theorem unsealed_never_ends : succeeds (· == runaway.macros) ((do
      Directive.defineText "f(x)" (some "x")
      Directive.defineText "g" (some "f((g)")
      return (← get).macros : PreM MacroTable) { fuel := 100 } {}) = true ∧
    (∀ host, ¬Terminates host print runaway) ∧
    succeeds (· == Bytes.ofString "((g)\n") ((do
      Session.setOutputType .preprocess
      Session.compileText "#define f(x) x\n#define g(x) f((g x)\ng(()) )\n"
      modifyGet Session.takePrinted : SessionM Bytes) { fuel := 1000, base := 0x400000 } {}) = true := by
  refine ⟨by decide +kernel,?_,by decide +kernel⟩
  rintro host ⟨bound,result,same,ends⟩
  have run := same bound (Nat.le_refl bound)
  rcases print_runaway { host with fuel := bound } with ⟨_,_,_,impossible⟩ | ⟨pp',lost⟩
  · exact impossible
  · rw [← run,lost] at ends
    exact ends

end Runaway
end OnePass.Expand
