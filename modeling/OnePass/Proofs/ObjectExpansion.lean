import OnePass.Proofs.ExpansionEnds

/-! # Expansion of macros without parameters

The frames that are being read, also those read to their end, hide their macros. Where no macro has parameters this
is what the recursive definition of expansion says: a name is replaced by the expansion of its replacement list, in
which it is hidden. -/
namespace OnePass.Expand

open List MacroTable
open MacroTable (define dynamicNames initial)

variable {hidden : List String}

/-! ## The recursive definition -/

def kindOf? : BodyPart → Option TokenKind
  | .token kind => some kind
  | _ => none

def replacement (m : Macro) : List TokenKind := m.body.filterMap fun t => kindOf? t.part

/-- The macro that a token calls, unless it is hidden. -/
def called? (macros : MacroTable) (hidden : List String) : TokenKind → Option (String × Macro)
  | .ident name => if name ∈ hidden then none else (macros.find? name).map (name, ·)
  | _ => none

def unhidden (macros : MacroTable) (hidden : List String) : List (String × Macro) :=
  macros.current.filter fun entry => entry.1 ∉ hidden

theorem called?_eq_some (calls : called? macros hidden kind = some (name,m)) :
    kind = .ident name ∧ name ∉ hidden ∧ macros.find? name = some m := by
  unfold called? at calls
  split at calls
  next =>
    split at calls
    next => cases calls
    next shown =>
      obtain ⟨_,found,same⟩ := Option.map_eq_some_iff.mp calls
      cases same
      exact ⟨rfl,shown,found⟩
  next => cases calls

theorem unhidden_lt (calls : called? macros hidden kind = some (name,m)) :
    (unhidden macros (name :: hidden)).length < (unhidden macros hidden).length := by
  obtain ⟨-,shown,found⟩ := called?_eq_some calls
  have member : (name,m) ∈ macros.current := by
    obtain ⟨before,after,parts,-⟩ := lookup_eq_some_iff.mp found
    simp [parts]
  have fewer : unhidden macros (name :: hidden) = (unhidden macros hidden).filter (·.1 != name) := by
    simp only [unhidden,filter_filter]
    congr 1
    funext entry
    by_cases here : entry.1 = name <;> simp [here]
  rw [fewer]
  exact length_filter_lt_length_iff_exists.mpr ⟨(name,m),mem_filter.mpr ⟨member,by simpa using shown⟩,by simp⟩

/-- The expansion of tokens, while some macros are hidden. -/
def expansion (macros : MacroTable) (hidden : List String) : List TokenKind → List TokenKind
  | [] => []
  | kind :: rest =>
    match _calls : called? macros hidden kind with
    | none => kind :: expansion macros hidden rest
    | some (name, m) => expansion macros (name :: hidden) (replacement m) ++ expansion macros hidden rest
termination_by kinds => ((unhidden macros hidden).length, kinds.length)
decreasing_by
  · exact Prod.Lex.right _ (Nat.lt_succ_self _)
  · exact Prod.Lex.left _ _ (unhidden_lt _calls)
  · exact Prod.Lex.right _ (Nat.lt_succ_self _)

/-- A token that may stand in a text or in a replacement list: it is no end, no pasting and no dynamic macro. -/
def Ordinary (kind : TokenKind) : Prop :=
  kind ∉ [.eof, .paste, .placemarker] ∧ ∀ name ∈ dynamicNames, kind ≠ .ident name

def IsObject (m : Macro) : Prop :=
  m.params = none ∧ ∀ t ∈ m.body, ∃ kind, t.part = .token kind ∧ Ordinary kind

/-- All macros but the dynamic ones have no parameters, and their replacement lists paste nothing. -/
def ObjectLike (macros : MacroTable) : Prop :=
  ∀ name m, name ∉ dynamicNames → macros.find? name = some m → IsObject m

/-! ## Replacement lists -/

section Substitution

def written (call : Token) (body : List BodyToken) : List Token :=
  body.filterMap fun t => (kindOf? t.part).map (made call · t.space)

theorem written_kinds (call : Token) (m : Macro) : (written call m.body).map Token.kind = replacement m := by
  rw [written,map_filterMap]
  congr 1
  funext t
  cases kindOf? t.part <;> rfl

theorem written_fresh (call : Token) (body : List BodyToken) : ∀ tok ∈ written call body, tok.noExpand = false := by
  intro tok member
  obtain ⟨t,-,same⟩ := mem_filterMap.mp member
  obtain ⟨kind,-,rfl⟩ := Option.map_eq_some_iff.mp same
  rfl

theorem arguments_object (args : List (List Token)) (before : List BodyToken) (out : List Token)
    (plain : ∀ t ∈ body, ∃ kind, t.part = .token kind ∧ Ordinary kind) :
    arguments expandArg m args call before out body host pp = .ok (out.reverse ++ written call body) pp := by
  induction body generalizing before out with
  | nil =>
    rw [written,filterMap_nil,append_nil]
    rfl
  | cons t rest ih =>
    obtain ⟨⟨kind,part,-⟩,plain⟩ := forall_mem_cons.mp plain
    rw [arguments]
    simpa [written,part,kindOf?] using ih (t :: before) (made call kind t.space :: out) plain

theorem pasteAll_none (done : List Token) (free : ∀ tok ∈ tokens, tok.kind ≠ .paste) :
    pasteAll call done tokens host pp = .ok (done.reverse ++ tokens) pp := by
  induction tokens generalizing done with
  | nil =>
    rw [append_nil]
    rfl
  | cons tok rest ih =>
    obtain ⟨here,free⟩ := forall_mem_cons.mp free
    cases rest with
    | nil => simp [pasteAll,here]
    | cons next rest => simpa [pasteAll,here] using ih (tok :: done) free

theorem replacement_ordinary (object : IsObject m) : ∀ kind ∈ replacement m, Ordinary kind := by
  intro kind member
  obtain ⟨t,there,same⟩ := mem_filterMap.mp member
  obtain ⟨kind',part,ordinary⟩ := object.2 t there
  rw [part] at same
  cases same
  exact ordinary

/-- The call of a macro without parameters is replaced by its replacement list. -/
theorem substitute_object (object : IsObject m) (call : Token) :
    ∃ tokens, (∀ expandArg host pp, substitute expandArg m [] call host pp = .ok tokens pp) ∧
      tokens.map Token.kind = replacement m ∧ ∀ tok ∈ tokens, tok.noExpand = false := by
  have ordinary : ∀ tok ∈ written call m.body, Ordinary tok.kind := fun tok member =>
    replacement_ordinary object _ (written_kinds call m ▸ mem_map_of_mem member)
  have free : ∀ tok ∈ written call m.body, tok.kind ≠ .paste := fun tok member paste =>
    (ordinary tok member).1 (by simp [paste])
  have all : (written call m.body).filter (·.kind != .placemarker) = written call m.body :=
    filter_eq_self.mpr fun tok member => bne_iff_ne.mpr fun mark => (ordinary tok member).1 (by simp [mark])
  have kinds := written_kinds call m
  have fresh := written_fresh call m.body
  simp only [substitute,run_bind,arguments_object [] [] [] object.2,reverse_nil,nil_append,
    pasteAll_none [] free,all]
  cases parts : written call m.body with
  | nil =>
    rw [parts] at kinds
    exact ⟨[],fun _ _ _ => rfl,kinds,by simp⟩
  | cons first rest =>
    rw [parts] at kinds fresh
    obtain ⟨here,fresh⟩ := forall_mem_cons.mp fresh
    refine ⟨_ :: rest.map _,fun _ _ _ => rfl,by simpa [Function.comp_def] using kinds,?_⟩
    refine forall_mem_cons.mpr ⟨here,fun tok member => ?_⟩
    obtain ⟨old,there,rfl⟩ := mem_map.mp member
    exact fresh old there

end Substitution

/-! ## Reading frames -/

/-- A frame that was read to its end and is dropped before the next token. -/
def Finished (frame : Frame) : Prop := frame.tokens = [] ∧ frame.barrier = false

theorem dropFinished_append (finished : ∀ frame ∈ above, Finished frame) :
    dropFinished (above ++ frames) = dropFinished frames := by
  induction above with
  | nil => rfl
  | cons frame above ih =>
    obtain ⟨⟨empty,open_⟩,finished⟩ := forall_mem_cons.mp finished
    rw [cons_append,dropFinished,empty,open_]
    exact ih finished

/-- A state that reads a frame: what stands above it is finished. -/
structure Reading (macros : MacroTable) (frame : Frame) (below : List Frame) (pp : Preprocessor) : Prop where
  macros : pp.macros = macros
  pushback : pp.pushback = none
  frames : ∃ above, pp.frames = above ++ frame :: below ∧ ∀ frame ∈ above, Finished frame

/-- What one step does, whatever bounds there are and however arguments would be expanded. -/
def StepsTo (pp : Preprocessor) (result : Option Token) (pp' : Preprocessor) : Prop :=
  ∀ expandArg host, step (rawFrom nothing) expandArg host pp = .ok result pp'

/-- So many steps give tokens of these kinds. -/
inductive Emits : Nat → Preprocessor → List TokenKind → Preprocessor → Prop where
  | done (pp : Preprocessor) : Emits 0 pp [] pp
  | replaced {n pp pp' out last} (first : StepsTo pp none pp') (rest : Emits n pp' out last) : Emits (n + 1) pp out last
  | given {n pp pp' out last} {tok : Token} (first : StepsTo pp (some tok) pp') (more : tok.isEof = false)
    (rest : Emits n pp' out last) : Emits (n + 1) pp (tok.kind :: out) last

theorem Emits.append (first : Emits n pp out mid)
    (second : Emits k mid more last) : Emits (n + k) pp (out ++ more) last := by
  induction first with
  | done => simpa using second
  | replaced step _ ih => exact (Nat.succ_add _ _).symm ▸ .replaced step (ih second)
  | given step goes _ ih => exact (Nat.succ_add _ _).symm ▸ .given step goes (ih second)

theorem raw_reading (reading : Reading macros frame below pp) (parts : frame.tokens = tok :: tokens) (host : Host) :
    rawFrom nothing host pp = .ok tok { pp with frames := { frame with tokens } :: below } := by
  obtain ⟨-,pushback,above,frames,finished⟩ := reading
  have top : dropFinished pp.frames = frame :: below := by
    rw [frames,dropFinished_append finished,dropFinished,if_neg (by simp [parts])]
  simp only [rawFrom_run,pushback,top,parts]

theorem isHidden_iff (pushed : pp.frames = frames) : isHidden pp name = true ↔ name ∈ frames.filterMap (·.hides) := by
  rw [isHidden,pushed,any_eq_true,mem_filterMap]
  exact exists_congr fun frame => and_congr_right fun _ => beq_iff_eq

section Step

variable (reading : Reading macros frame below pp) (parts : frame.tokens = tok :: tokens) (fresh : tok.noExpand = false)

include reading parts fresh

theorem step_given (quiet : called? macros ((frame :: below).filterMap (·.hides)) tok.kind = none) :
    ∃ given, StepsTo pp (some given) { pp with frames := { frame with tokens } :: below } ∧ given.kind = tok.kind := by
  have raw := raw_reading reading parts
  have got host pp : (get : PreM Preprocessor) host pp = .ok pp pp := rfl
  cases kind : tok.kind with
  | ident name =>
    rw [kind,called?,← reading.macros] at quiet
    cases found : pp.macros.find? name with
    | none =>
      refine ⟨tok,fun expandArg host => ?_,kind⟩
      simp only [step,run_bind,raw,kind,fresh,got,found,Bool.false_eq_true,↓reduceIte]
      rfl
    | some m =>
      have covered : isHidden { pp with frames := { frame with tokens } :: below } name = true := by
        refine (isHidden_iff rfl).mpr (Decidable.byContradiction fun shown => ?_)
        rw [if_neg (show name ∉ (frame :: below).filterMap (·.hides) from shown),found] at quiet
        cases quiet
      refine ⟨{ tok with noExpand := true },fun expandArg host => ?_,kind⟩
      simp only [step,run_bind,raw,kind,fresh,got,found,covered,Bool.false_eq_true,↓reduceIte]
      rfl
  | _ =>
    refine ⟨tok,fun expandArg host => ?_,kind⟩
    simp only [step,run_bind,raw,kind]
    rfl

theorem step_replaced (objects : ObjectLike macros) (ordinary : Ordinary tok.kind)
    (calls : called? macros ((frame :: below).filterMap (·.hides)) tok.kind = some (name,m)) :
    ∃ body, StepsTo pp none { pp with frames := ⟨body,some name,false⟩ :: { frame with tokens } :: below } ∧
      body.map Token.kind = replacement m ∧ IsObject m ∧ ∀ tok ∈ body, tok.noExpand = false := by
  obtain ⟨kind,shown,found⟩ := called?_eq_some calls
  have static : name ∉ dynamicNames := fun member => ordinary.2 name member kind
  have object := objects name m static found
  obtain ⟨body,run,kinds,fresh'⟩ := substitute_object object tok
  refine ⟨body,fun expandArg host => ?_,kinds,object,fresh'⟩
  have calls : Calls host (rawFrom nothing) pp name m tok { pp with frames := { frame with tokens } :: below } :=
    { taken := raw_reading reading parts host
      kind, fresh
      found := by rw [← found,← reading.macros]
      visible := Bool.eq_false_iff.mpr fun covered => shown (by simpa using (isHidden_iff rfl).mp covered)
      static := by
        simp only [dynamicNames,mem_cons,not_or] at static
        simp [dynamic?,static] }
  rw [calls.object object.1,run_bind,run]
  rfl

end Step

/-- Reading a frame to its end gives the expansion of its tokens, with the macros of the frames that are left hidden. -/
theorem emits_expansion (objects : ObjectLike macros) (hidden : List String) (kinds : List TokenKind) :
    ∀ frame below pp, Reading macros frame below pp → frame.tokens.map Token.kind = kinds →
      (∀ tok ∈ frame.tokens, Ordinary tok.kind ∧ tok.noExpand = false) → (frame :: below).filterMap (·.hides) = hidden →
      ∃ n last, Emits n pp (expansion macros hidden kinds) last ∧ Reading macros { frame with tokens := [] } below last := by
  induction hidden, kinds using expansion.induct macros with
  | case1 hidden =>
    rintro ⟨tokens,hides,barrier⟩ below pp reading same - -
    cases map_eq_nil_iff.mp same
    rw [expansion]
    exact ⟨0,pp,.done pp,reading⟩
  | case2 hidden kind rest quiet ih =>
    rintro frame below pp reading same plain rfl
    obtain ⟨tok,tokens,parts,rfl,rfl⟩ := map_eq_cons_iff.mp same
    rw [parts] at plain
    obtain ⟨⟨ordinary,fresh⟩,plain⟩ := forall_mem_cons.mp plain
    obtain ⟨given,step,kind⟩ := step_given reading parts fresh quiet
    obtain ⟨n,last,emits,behind⟩ := ih { frame with tokens } below { pp with frames := { frame with tokens } :: below }
      ⟨reading.macros,reading.pushback,[],rfl,by simp⟩ rfl plain rfl
    have more : given.isEof = false := by
      rw [Token.isEof,kind]
      exact beq_false_of_ne fun eof => ordinary.1 (by simp [eof])
    rw [expansion,quiet,← kind]
    exact ⟨n + 1,last,.given step more emits,behind⟩
  | case3 hidden kind rest name m calls ih ih' =>
    rintro frame below pp reading same plain rfl
    obtain ⟨tok,tokens,parts,rfl,rfl⟩ := map_eq_cons_iff.mp same
    rw [parts] at plain
    obtain ⟨⟨ordinary,fresh⟩,plain⟩ := forall_mem_cons.mp plain
    obtain ⟨body,step,kinds,object,fresh'⟩ := step_replaced reading parts fresh objects ordinary calls
    -- the replacement list is read to its end with the name hidden, then the rest of the frame
    obtain ⟨n,mid,first,inner⟩ := ih ⟨body,some name,false⟩ ({ frame with tokens } :: below)
      { pp with frames := ⟨body,some name,false⟩ :: { frame with tokens } :: below }
      ⟨reading.macros,reading.pushback,[],rfl,by simp⟩ kinds
      (fun tok member => ⟨replacement_ordinary object _ (kinds ▸ mem_map_of_mem member),fresh' tok member⟩) rfl
    obtain ⟨macros',pushback,above,frames,finished⟩ := inner
    obtain ⟨k,last,second,behind⟩ := ih' { frame with tokens } below mid
      ⟨macros',pushback,above ++ [⟨[],some name,false⟩],by simpa using frames,
        forall_mem_append.mpr ⟨finished,by simp [Finished]⟩⟩ rfl plain rfl
    rw [expansion,calls]
    exact ⟨n + k + 1,last,.replaced step (first.append second),behind⟩

/-! ## Whole lists -/

/-- A token that a number of steps reaches. -/
def reach (depth rounds : Nat) : PreM Token :=
  iterate (fun () => do
    match ← step (rawFrom nothing) (listTo depth) with
    | some tok => return .inr tok
    | none => return .inl ()) rounds ()

def collectFrom (depth count : Nat) (read : List Token) : PreM (List Token) :=
  iterate (fun out => do
    let tok ← nextFrom (rawFrom nothing) (listTo depth)
    return if tok.isEof then .inr out.reverse else .inl (tok :: out)) count read

/-- Reach a token, and collect it and the following ones unless it is the end. -/
def gather (depth rounds count : Nat) (read : List Token) : PreM (List Token) := do
  let tok ← reach depth rounds
  if tok.isEof then return read.reverse else collectFrom depth count (tok :: read)

theorem collectFrom_eq_gather (depth count : Nat) (read : List Token) (host : Host) (pp : Preprocessor) :
    collectFrom depth (count + 1) read host pp = gather depth host.fuel count read host pp := by
  have next : nextFrom (rawFrom nothing) (listTo depth) host pp = reach depth host.fuel host pp := rfl
  simp only [collectFrom,gather,iterate_run,run_bind,next]
  cases reach depth host.fuel host pp with
  | error e t => rfl
  | ok tok t =>
    by_cases eof : tok.isEof = true <;> simp [eof]

theorem Emits.gathered (emits : Emits n pp out last) (ends : StepsTo last (some eof) final) (isEof : eof.isEof = true) :
    ∃ tokens, tokens.map Token.kind = out ∧ ∀ depth host, n < host.fuel → ∀ rounds > n, ∀ count ≥ n, ∀ read,
      gather depth rounds count read host pp = .ok (read.reverse ++ tokens) final := by
  induction emits with
  | done pp =>
    refine ⟨[],rfl,fun depth host _ rounds some count _ read => ?_⟩
    obtain ⟨rounds,rfl⟩ := Nat.exists_eq_succ_of_ne_zero (Nat.ne_of_gt some)
    simp [gather,reach,run_bind,iterate_run,ends _ host,isEof]
  | @replaced n pp pp' out last first rest ih =>
    obtain ⟨tokens,kinds,run⟩ := ih ends
    refine ⟨tokens,kinds,fun depth host fuel rounds some count left read => ?_⟩
    obtain ⟨rounds,rfl⟩ := Nat.exists_eq_succ_of_ne_zero (Nat.ne_of_gt (Nat.zero_lt_of_lt some))
    have goes := run depth host (by omega) rounds (by omega) count (by omega) read
    simp only [gather,reach,run_bind,iterate_run,first _ host]
    exact goes
  | @given n pp pp' out last tok first more rest ih =>
    obtain ⟨tokens,kinds,run⟩ := ih ends
    refine ⟨tok :: tokens,by rw [map_cons,kinds],fun depth host fuel rounds some count left read => ?_⟩
    obtain ⟨rounds,rfl⟩ := Nat.exists_eq_succ_of_ne_zero (Nat.ne_of_gt (Nat.zero_lt_of_lt some))
    obtain ⟨count,rfl⟩ := Nat.exists_eq_succ_of_ne_zero (Nat.ne_of_gt (Nat.zero_lt_of_lt left))
    have goes := run depth host (by omega) host.fuel (by omega) count (by omega) (tok :: read)
    rw [← collectFrom_eq_gather] at goes
    simpa [gather,reach,run_bind,iterate_run,first _ host,more] using goes

/-- A list of ordinary tokens is expanded as the recursive definition says, from some bound on whatever the bound is. -/
theorem object_like_expansion (host : Host) (pp : Preprocessor) (tokens : List Token) (objects : ObjectLike pp.macros)
    (plain : ∀ tok ∈ tokens, Ordinary tok.kind ∧ tok.noExpand = false) (empty : pp.frames = []) :
    ∃ bound out pp', (∀ fuel ≥ bound, list tokens { host with fuel } pp = .ok out pp') ∧
      out.map Token.kind = expansion pp.macros [] (tokens.map Token.kind) := by
  have reading : Reading pp.macros ⟨tokens,none,true⟩ [] { pp with pushback := none, frames := [⟨tokens,none,true⟩] } :=
    ⟨rfl,rfl,[],rfl,by simp⟩
  obtain ⟨n,last,emits,macros,pushback,above,frames,finished⟩ :=
    emits_expansion objects [] _ _ [] _ reading rfl plain rfl
  have ends : StepsTo last (some (Token.eof last.line)) { last with frames := [⟨[],none,true⟩] } := by
    intro expandArg host
    have top : dropFinished last.frames = [⟨[],none,true⟩] := by
      rw [frames,dropFinished_append finished]
      rfl
    simp only [step,run_bind,rawFrom_run,pushback,top]
    rfl
  obtain ⟨out,kinds,run⟩ := emits.gathered ends rfl
  refine ⟨n + 1,out,{ last with frames := pp.frames, pushback := pp.pushback },fun fuel enough => ?_,kinds⟩
  obtain ⟨depth,rfl⟩ := Nat.exists_eq_succ_of_ne_zero (Nat.ne_of_gt (Nat.zero_lt_of_lt enough))
  have goes := (collectFrom_eq_gather depth depth [] { host with fuel := depth + 1 } _).trans
    (run depth { host with fuel := depth + 1 } (by simp; omega) (depth + 1) (by omega) depth (by omega) [])
  have opened : list tokens { host with fuel := depth + 1 } pp =
      PreM.finishing (collectFrom depth (depth + 1) []) (fun after =>
        { after with frames := pp.frames, pushback := pp.pushback }) { host with fuel := depth + 1 }
        { pp with pushback := none, frames := ⟨tokens,none,true⟩ :: pp.frames } := rfl
  rw [opened,empty,PreM.finishing,goes]
  rfl

/-- Two macros that name each other. -/
def crossed : MacroTable :=
  (initial.define "A" { body := [⟨.token (.ident "B"),false⟩,⟨.token (.ident "x"),true⟩] }).define "B"
    { body := [⟨.token (.ident "A"),false⟩,⟨.token (.ident "y"),true⟩] }

theorem crossed_objectLike : ObjectLike crossed := by
  intro name m static found
  obtain ⟨before,after,parts,-⟩ := lookup_eq_some_iff.mp found
  have member : (name,m) ∈ crossed.current := by simp [parts]
  have all : ∀ entry ∈ crossed.current, entry.1 ∉ dynamicNames → IsObject entry.2 := by
    simp [crossed,define,MacroTable.bind,initial,dynamicNames,IsObject,Ordinary]
  exact all _ member static

theorem object_like_expansion_crossed : ∃ bound out pp',
    (∀ fuel ≥ bound, list [lone (.ident "A"),lone (.ident "B")] { fuel } { macros := crossed } = .ok out pp') ∧
      out.map Token.kind = [.ident "A",.ident "y",.ident "x",.ident "B",.ident "x",.ident "y"] := by
  have expanded : expansion crossed [] [.ident "A",.ident "B"] =
      [.ident "A",.ident "y",.ident "x",.ident "B",.ident "x",.ident "y"] := by
    simp [expansion,called?,replacement,kindOf?,crossed,MacroTable.find?,define,MacroTable.bind,
      initial,dynamicNames,List.lookup_cons]
  rw [← expanded]
  exact object_like_expansion { fuel := 0 } { macros := crossed } [lone (.ident "A"),lone (.ident "B")] crossed_objectLike
    (by simp [lone,Ordinary,dynamicNames]) rfl

end OnePass.Expand
