import Mathlib.Data.Multiset.DershowitzManna
import OnePass.Proofs.Substitution

/-! # What is left to expand

A token can be expanded into as many levels as there are definitions that the frames on its way do not
hide. The levels of all unread tokens together are the weight of a state. Reading takes a token away; a
call puts tokens of fewer levels in place of one. -/
namespace OnePass.Expand

open List Expand
open TokenKind (nest nest_other)

/-- How many definitions the frames do not hide. -/
def free (macros : MacroTable) (frames : List Frame) : Nat :=
  (macros.current.filter fun entry => !frames.any fun frame => frame.hides == some entry.1).length

def load (macros : MacroTable) (left : Nat) : List Frame → Multiset Nat
  | [] => .replicate left (free macros [])
  | frame :: frames => .replicate frame.tokens.length (free macros (frame :: frames)) + load macros left frames

/-- The levels of everything unread. `left` bounds how many tokens the files still hold. -/
def weight (left : List Source → Nat) (pp : Preprocessor) : Multiset Nat :=
  (if pp.pushback.any (!·.isEof) then {free pp.macros pp.frames} else 0) + load pp.macros (left pp.files) pp.frames

theorem free_congr (same : frames.map (·.hides) = others.map (·.hides)) : free macros frames = free macros others := by
  have any name : frames.any (fun frame => frame.hides == some name) =
      others.any fun frame => frame.hides == some name := by
    have mapped (frames : List Frame) : frames.any (fun frame => frame.hides == some name) =
        (frames.map (·.hides)).any (· == some name) := by rw [any_map]; rfl
    rw [mapped,mapped,same]
  simp only [free,any]

theorem free_barrier (frames : List Frame) (none : frame.hides = none) :
    free macros (frame :: frames) = free macros frames := by
  simp [free,none]

theorem free_hides
    (found : macros.find? name = some m) (visible : (frames.any fun frame => frame.hides == some name) = false)
    (hides : frame.hides = some name) : free macros (frame :: frames) < free macros frames := by
  have member : (name,m) ∈ macros.current := by
    obtain ⟨before,after,parts,_⟩ := lookup_eq_some_iff.mp found
    simp [parts]
  have split : (macros.current.filter fun entry => !(frame :: frames).any fun frame => frame.hides == some entry.1) =
      (macros.current.filter fun entry => !frames.any fun frame => frame.hides == some entry.1).filter
        fun entry => !(some name == some entry.1) := by
    rw [filter_filter]
    refine filter_congr fun entry _ => ?_
    rw [any_cons,hides,Bool.not_or]
  rw [free,split]
  exact length_filter_lt_length_iff_exists.mpr ⟨(name,m),mem_filter.mpr ⟨member,by simp [visible]⟩,by simp⟩

theorem lighter {rest new all : Multiset Nat} (taken : rest + {level} ≤ all)
    (fewer : ∀ n ∈ new, n < level) : (rest + new).IsDershowitzMannaLT all := by
  obtain ⟨others,rfl⟩ := Multiset.le_iff_exists_add.mp taken
  refine ⟨rest,new,{level} + others,by simp,rfl,add_assoc _ _ _,fun n member => ⟨level,by simp,fewer n member⟩⟩

theorem lighter_of_taken {rest all : Multiset Nat} (taken : rest + {level} ≤ all) :
    rest.IsDershowitzMannaLT all := by
  simpa using lighter taken fun n (none : n ∈ 0) => absurd none (Multiset.notMem_zero n)

/-- A token of the files; `left` bounds how many they still hold. -/
structure ReadOn (ready : List Source → Prop) (left : List Source → Nat) (pp : Preprocessor) (tok : Token)
    (pp' : Preprocessor) : Prop where
  frames : pp'.frames = pp.frames
  pushback : pp'.pushback = pp.pushback
  macros : pp'.macros = pp.macros
  ready : ready pp'.files
  left : tok.isEof = true ∧ left pp'.files ≤ left pp.files ∨ tok.kind.isSpelled = true ∧ left pp'.files < left pp.files

def Feeds (host : Host) (source : PreM Token) (ready : List Source → Prop) (left : List Source → Nat) : Prop :=
  ∀ pp : Preprocessor, ready pp.files → Settles host (fun _ => source) pp (ReadOn ready left pp)

theorem nothing_feeds (host : Host) (ready : List Source → Prop) (left : List Source → Nat) :
    Feeds host nothing ready left :=
  fun _ open_ => .of_ok (fun _ _ => rfl) ⟨rfl,rfl,rfl,open_,.inl ⟨rfl,Nat.le_refl _⟩⟩

inductive Raw (ready : List Source → Prop) (left : List Source → Nat) (pp : Preprocessor) :
    Token → Preprocessor → Prop where
  | pushed {tok} (pushback : pp.pushback = some tok) : Raw ready left pp tok { pp with pushback := none }
  | frame {tok tokens frame frames} (pushback : pp.pushback = none) (top : dropFinished pp.frames = frame :: frames)
    (next : frame.tokens = tok :: tokens) :
      Raw ready left pp tok { pp with frames := { frame with tokens } :: frames }
  | barrier {frame frames} (pushback : pp.pushback = none) (top : dropFinished pp.frames = frame :: frames)
    (none : frame.tokens = []) : Raw ready left pp (Token.eof pp.line) { pp with frames := frame :: frames }
  | source {tok pp'} (pushback : pp.pushback = none) (top : dropFinished pp.frames = [])
    (read : ReadOn ready left { pp with frames := [] } tok pp') : Raw ready left pp tok pp'

variable {tok : Token} {depth : Nat}

theorem rawFrom_run (source : PreM Token) (host : Host) (pp : Preprocessor) :
    rawFrom source host pp = match pp.pushback with
      | some tok => .ok tok { pp with pushback := none }
      | none => match dropFinished pp.frames with
        | [] => source host { pp with frames := [] }
        | frame :: frames => match frame.tokens with
          | [] => .ok (Token.eof pp.line) { pp with frames := frame :: frames }
          | tok :: tokens => .ok tok { pp with frames := { frame with tokens } :: frames } := by
  simp only [rawFrom,run_bind,run_get]
  cases pp.pushback with
  | some tok => rfl
  | none =>
    cases dropFinished pp.frames with
    | nil => rfl
    | cons frame frames =>
      obtain ⟨tokens,hides,barrier⟩ := frame
      cases tokens <;> rfl

theorem raw_settles (feeds : Feeds host source ready left) (open_ : ready pp.files) :
    Settles host (fun _ => rawFrom source) pp (Raw ready left pp) := by
  cases pushback : pp.pushback with
  | some tok =>
    refine .of_ok (fun _ _ => ?_) (.pushed pushback)
    simp only [rawFrom_run,pushback]
  | none =>
    cases top : dropFinished pp.frames with
    | nil =>
      have settles := feeds { pp with frames := [] } open_
      refine (settles.mono fun _ _ read => Raw.source pushback top read).congr fun _ _ => ?_
      simp only [rawFrom_run,pushback,top]
    | cons frame frames =>
      cases next : frame.tokens with
      | nil =>
        refine .of_ok (fun _ _ => ?_) (.barrier pushback top next)
        simp only [rawFrom_run,pushback,top,next]
      | cons tok tokens =>
        refine .of_ok (fun _ _ => ?_) (.frame pushback top next)
        simp only [rawFrom_run,pushback,top,next]

/-- A state whose macros are sealed and whose frames close what they open. -/
structure Orderly (ready : List Source → Prop) (pp : Preprocessor) : Prop where
  macros : ∀ name m, pp.macros.find? name = some m → m.Sealed
  spelled : ∀ frame ∈ pp.frames, ∀ tok ∈ frame.tokens, tok.kind.isSpelled = true
  closed : ∀ frame ∈ pp.frames, frame.barrier = true ∨ Closed (frame.tokens.map (·.kind))
  pushback : ∀ tok, pp.pushback = some tok → tok.isEof = true ∨ tok.kind.isSpelled = true
  ready : ready pp.files

theorem dropFinished_suffix (frames : List Frame) : dropFinished frames <:+ frames := by
  induction frames with
  | nil => exact suffix_rfl
  | cons frame frames ih =>
    rw [dropFinished]
    split
    · exact ih.trans (suffix_cons _ _)
    · exact suffix_rfl

theorem load_dropFinished (macros : MacroTable) (left : Nat) (frames : List Frame) :
    load macros left (dropFinished frames) = load macros left frames := by
  induction frames with
  | nil => rfl
  | cons frame frames ih =>
    rw [dropFinished]
    split
    next done =>
      have none : frame.tokens = [] := by simp_all
      simp [load,none,ih]
    next => rfl

theorem isEof_of_isSpelled (spelled : tok.kind.isSpelled = true) : tok.isEof = false := by
  cases kind : tok.kind <;> simp_all [Token.isEof,TokenKind.isSpelled]

theorem isHidden_eq (pp : Preprocessor) (name : String) :
    isHidden pp name = (pp.frames.map (·.hides)).any (· == some name) := by
  rw [any_map]
  rfl

/-- The frame being read closes what a call has open, or its end is the end of the input. -/
def Inside (frames : List Frame) (depth : Nat) : Prop :=
  ∀ frame, frames.head? = some frame → frame.barrier = true ∨ opened (depth + 1) (frame.tokens.map (·.kind)) = 0

theorem Inside.dropFinished (inside : Inside frames depth) : dropFinished frames = frames := by
  cases frames with
  | nil => rfl
  | cons frame frames =>
    rw [Expand.dropFinished,if_neg]
    intro done
    simp only [Bool.and_eq_true,List.isEmpty_iff,Bool.not_eq_true'] at done
    rcases inside frame rfl with barrier | closed
    · exact absurd barrier (by simp [done.2])
    · simp [done.1] at closed

/-- What can be read of the frames before the end of the input. -/
def unread : List Frame → List TokenKind
  | [] => []
  | frame :: frames => frame.tokens.map (·.kind) ++ if frame.barrier then [] else unread frames

def stream (pp : Preprocessor) : List TokenKind := pp.pushback.toList.map (·.kind) ++ unread pp.frames

structure Barred (pp : Preprocessor) : Prop where
  barrier : ∃ frame ∈ pp.frames, frame.barrier = true
  ended : ∀ tok, pp.pushback = some tok → tok.isEof = true → unread pp.frames = []

/-- Nothing outside the frames changes but messages and the counter. -/
def Within (pp pp' : Preprocessor) : Prop :=
  ∃ frames pushback diagnostics counter, pp' = { pp with frames, pushback, diagnostics, counter }

theorem unread_dropFinished (frames : List Frame) : unread (dropFinished frames) = unread frames := by
  induction frames with
  | nil => rfl
  | cons frame frames ih =>
    rw [dropFinished]
    split
    next done =>
      simp only [Bool.and_eq_true,List.isEmpty_iff,Bool.not_eq_true'] at done
      simp [unread,done,ih]
    next => rfl

theorem barrier_dropFinished (barrier : ∃ frame ∈ frames, frame.barrier = true) :
    ∃ frame ∈ dropFinished frames, frame.barrier = true := by
  induction frames with
  | nil => simp at barrier
  | cons frame frames ih =>
    rw [dropFinished]
    split
    next done =>
      simp only [Bool.and_eq_true,Bool.not_eq_true'] at done
      exact ih (by simpa [done] using barrier)
    next => exact barrier

theorem barrier_of_dropFinished (top : dropFinished frames = frame :: rest)
    (none : frame.tokens = []) : frame.barrier = true := by
  induction frames with
  | nil => cases top
  | cons first frames ih =>
    rw [dropFinished] at top
    split at top
    next => exact ih top
    next kept =>
      cases top
      simpa [none] using kept

namespace Raw

variable (raw : Raw ready left pp tok pp')

include raw

theorem pushback : pp'.pushback = none := by
  cases raw with
  | pushed => rfl
  | frame pushback | barrier pushback => exact pushback
  | source pushback _ read => exact read.pushback.trans pushback

theorem macros : pp'.macros = pp.macros := by
  cases raw with
  | source _ _ read => exact read.macros
  | _ => rfl

theorem orderly (orderly : Orderly ready pp) : Orderly ready pp' ∧ (tok.isEof = true ∨ tok.kind.isSpelled = true) := by
  have suffix := dropFinished_suffix pp.frames
  cases raw with
  | pushed pushback => exact ⟨{ orderly with pushback := by simp },orderly.pushback tok pushback⟩
  | @frame _ tokens frame frames pushback top next =>
    rw [top] at suffix
    have spelled := orderly.spelled frame (suffix.mem (by simp))
    have closed := orderly.closed frame (suffix.mem (by simp))
    rw [next,forall_mem_cons] at spelled
    rw [next] at closed
    refine ⟨{ orderly with spelled := ?_, closed := ?_ },.inr spelled.1⟩
    · exact forall_mem_cons.mpr ⟨spelled.2,fun f member => orderly.spelled f (suffix.mem (by simp [member]))⟩
    · refine forall_mem_cons.mpr ⟨closed.imp_right ?_,fun f member => orderly.closed f (suffix.mem (by simp [member]))⟩
      exact fun closed => Closed.suffix (show Closed ([tok.kind] ++ tokens.map (·.kind)) from closed)
  | barrier pushback top none =>
    rw [top] at suffix
    exact ⟨{ orderly with
      spelled := fun f member => orderly.spelled f (suffix.mem member)
      closed := fun f member => orderly.closed f (suffix.mem member) },.inl rfl⟩
  | source pushback top read =>
    refine ⟨⟨?_,?_,?_,?_,read.ready⟩,read.left.imp And.left And.left⟩
    · rw [read.macros]
      exact orderly.macros
    · simp [read.frames]
    · simp [read.frames]
    · simp [read.pushback,pushback]

theorem weight (orderly : Orderly ready pp) :
    tok.isEof = true ∧ weight left pp' ≤ weight left pp ∨
    tok.kind.isSpelled = true ∧ weight left pp' + {free pp'.macros pp'.frames} ≤ weight left pp := by
  have known := (raw.orderly orderly).2
  cases raw with
  | pushed pushback =>
    refine known.imp (fun eof => ⟨eof,?_⟩) fun spelled => ⟨spelled,?_⟩
    · simp [weight]
    · simp [weight,pushback,isEof_of_isSpelled spelled,add_comm]
  | @frame _ tokens frame frames pushback top next =>
    have spelled : tok.kind.isSpelled = true :=
      orderly.spelled frame ((dropFinished_suffix pp.frames).mem (by simp [top])) tok (by simp [next])
    refine .inr ⟨spelled,le_of_eq ?_⟩
    have same : free pp.macros ({ frame with tokens } :: frames) = free pp.macros (frame :: frames) := rfl
    simp only [weight,pushback,Option.any_none,Bool.false_eq_true,if_false,zero_add]
    rw [← load_dropFinished _ _ pp.frames,top,load,load,next,length_cons,same,Multiset.replicate_succ,
      ← Multiset.singleton_add,add_comm,add_assoc]
  | barrier pushback top none =>
    refine .inl ⟨rfl,le_of_eq ?_⟩
    simp only [weight,pushback,Option.any_none,Bool.false_eq_true,if_false]
    rw [← top,load_dropFinished]
  | source pushback top read =>
    have before : Expand.weight left pp = .replicate (left pp.files) (free pp.macros []) := by
      simp only [Expand.weight,pushback,Option.any_none,Bool.false_eq_true,if_false,zero_add]
      rw [← load_dropFinished,top,load]
    have after : Expand.weight left pp' = .replicate (left pp'.files) (free pp.macros []) := by
      simp only [Expand.weight,read.pushback,pushback,read.frames,read.macros,Option.any_none,Bool.false_eq_true,
        if_false,zero_add,load]
    rw [before,after,read.macros,read.frames]
    refine read.left.imp (fun ⟨eof,most⟩ => ⟨eof,?_⟩) fun ⟨spelled,less⟩ => ⟨spelled,?_⟩
    · exact (Multiset.replicate_le_replicate _).mpr most
    · rw [add_comm]
      exact (Multiset.replicate_le_replicate _).mpr less

theorem hides : pp'.frames.map (·.hides) <:+ pp.frames.map (·.hides) := by
  have suffix := (dropFinished_suffix pp.frames).map (·.hides)
  cases raw with
  | pushed => exact suffix_rfl
  | frame _ top | barrier _ top => simpa [top] using suffix
  | source _ _ read => simp [read.frames]

theorem visible (visible : isHidden pp name = false) : isHidden pp' name = false := by
  rw [isHidden_eq,any_eq_false] at visible ⊢
  exact fun hidden member => visible hidden (raw.hides.mem member)

theorem inside (inside : Inside pp.frames depth) (empty : pp.pushback = none) :
    pp'.frames.map (·.hides) = pp.frames.map (·.hides) ∧
      ∀ d, d + 1 = tok.kind.nest (depth + 1) → Inside pp'.frames d := by
  have all := inside.dropFinished
  cases raw with
  | pushed pushback => cases empty.symm.trans pushback
  | @frame _ tokens frame frames _ top next =>
    have parts : pp.frames = frame :: frames := all.symm.trans top
    refine ⟨by simp [parts],fun d same => ?_⟩
    rintro _ ⟨⟩
    have first := inside frame (by simp [parts])
    rwa [next,map_cons,opened_cons,← same] at first
  | @barrier frame frames _ top none =>
    have parts : pp.frames = frame :: frames := all.symm.trans top
    refine ⟨by simp [parts],fun d same => ?_⟩
    cases same
    exact parts ▸ inside
  | source _ top read =>
    have parts : pp.frames = [] := all.symm.trans top
    refine ⟨by simp [parts,read.frames],fun d _ => ?_⟩
    simp [Inside,read.frames]

theorem opening (orderly : Orderly ready pp) (empty : pp.pushback = none) (lparen : tok.kind = .punct .lparen) :
    Inside pp'.frames 0 := by
  cases raw with
  | pushed pushback => cases empty.symm.trans pushback
  | @frame _ tokens frame frames _ top next =>
    rintro _ ⟨⟩
    have closed := orderly.closed frame ((dropFinished_suffix pp.frames).mem (by simp [top]))
    rwa [next,map_cons,lparen] at closed
  | barrier => cases lparen
  | source _ _ read => simp [Inside,read.frames]

theorem stream (orderly : Orderly ready pp) (barred : Barred pp) :
    Barred pp' ∧ Within pp pp' ∧ (tok.isEof = true → Paired (stream pp) ∧ stream pp' = []) ∧
      (tok.kind.isSpelled = true → stream pp = tok.kind :: stream pp') := by
  have rest := unread_dropFinished pp.frames
  have barrier := barrier_dropFinished barred.barrier
  cases raw with
  | pushed pushback =>
    refine ⟨⟨barred.barrier,by simp⟩,⟨_,_,_,_,rfl⟩,fun eof => ?_,fun _ => ?_⟩
    · have none := barred.ended tok pushback eof
      have kind : tok.kind = .eof := eq_of_beq eof
      exact ⟨fun n => by simp [stream,pushback,none,kind,nest],none⟩
    · simp [stream,pushback]
  | @frame _ tokens frame frames pushback top next =>
    rw [top] at rest barrier
    refine ⟨⟨by simpa using barrier,by simp [pushback]⟩,⟨_,_,_,_,rfl⟩,fun eof => ?_,fun _ => ?_⟩
    · have spelled := orderly.spelled frame ((dropFinished_suffix pp.frames).mem (by simp [top])) tok (by simp [next])
      rw [isEof_of_isSpelled spelled] at eof
      cases eof
    · simp [stream,pushback,← rest,unread,next]
  | @barrier frame frames pushback top none =>
    have last := barrier_of_dropFinished top none
    refine ⟨⟨⟨frame,by simp,last⟩,by simp [pushback]⟩,⟨_,_,_,_,rfl⟩,fun _ => ?_,fun spelled => ?_⟩
    · rw [top] at rest
      refine ⟨fun n => ?_,by simp [stream,pushback,unread,none,last]⟩
      simp [stream,pushback,← rest,unread,none,last]
    · cases spelled
  | source _ top =>
    rw [top] at barrier
    simp at barrier

end Raw

/-- Arguments whose tokens are spelled and whose parentheses belong together, as far as they are read. -/
structure Collected.Sound (c : Collected) : Prop where
  spelled : ∀ tok ∈ c.current, tok.kind.isSpelled = true
  current : ∀ n, opened n (c.current.reverse.map (·.kind)) = n + c.depth
  args : ∀ arg ∈ c.args, Argument arg

def Collected.size (c : Collected) : Nat := (c.current :: c.args).flatten.length

namespace Collected

variable {c : Collected}

theorem Sound.keep (sound : c.Sound) (spelled : tok.kind.isSpelled = true)
    (nests : ∀ n, tok.kind.nest (n + c.depth) = n + depth) : ({ c with current := tok :: c.current, depth } : Collected).Sound := by
  refine ⟨forall_mem_cons.mpr ⟨spelled,sound.spelled⟩,fun n => ?_,sound.args⟩
  simp only [reverse_cons,map_append,opened_append,sound.current]
  exact nests n

theorem Sound.argument (sound : c.Sound) (outside : c.depth = 0) : Argument c.current.reverse :=
  ⟨fun tok member => sound.spelled tok (mem_reverse.mp member),fun n => by rw [sound.current,outside]; rfl⟩

theorem size_keep (c : Collected) (tok : Token) (depth : Nat) :
    ({ c with current := tok :: c.current, depth } : Collected).size = c.size + 1 := by
  simp [size]

theorem length_le_size (member : arg ∈ c.current :: c.args) : arg.length ≤ c.size :=
  (sublist_flatten_of_mem member).length_le

end Collected

def Collected.Takes (c : Collected) (tok : Token) : Collected ⊕ List (List Token) → Prop
  | .inl next => next.Sound ∧ next.depth + 1 = tok.kind.nest (c.depth + 1) ∧ next.size ≤ c.size + 1
  | .inr args => (tok.kind = .punct .rparen ∧ c.depth = 0) ∧ ∀ arg ∈ args, Argument arg ∧ arg.length ≤ c.size

theorem collect_takes (m : Macro) {c : Collected} (sound : c.Sound)
    (spelled : tok.kind.isSpelled = true) : c.Takes tok (collect m c tok) := by
  have keep {depth : Nat} (nests : ∀ n, tok.kind.nest (n + c.depth) = n + depth)
      (same : depth + 1 = tok.kind.nest (c.depth + 1)) :
      c.Takes tok (.inl { c with current := tok :: c.current, depth }) :=
    And.intro (sound.keep spelled nests) (And.intro same (c.size_keep tok depth).le)
  unfold collect
  split
  next kind => exact keep (by simp [kind,nest,Nat.add_assoc]) (by simp [kind,nest])
  next kind =>
    split_ifs with outside
    · have depth := eq_of_beq outside
      refine ⟨⟨kind,depth⟩,fun arg member => ?_⟩
      rcases mem_cons.mp (mem_reverse.mp member) with rfl | earlier
      · exact ⟨sound.argument depth,by simpa using c.length_le_size (mem_cons_self ..)⟩
      · exact ⟨sound.args arg earlier,c.length_le_size (mem_cons_of_mem _ earlier)⟩
    · have depth : c.depth ≠ 0 := fun zero => outside (beq_iff_eq.mpr zero)
      exact keep (fun n => by simp only [kind,nest]; omega) (by simp only [kind,nest]; omega)
  next kind =>
    have stays n : tok.kind.nest n = n := nest_other (by simp [kind]) (by simp [kind]) n
    split_ifs with cut
    · have depth : c.depth = 0 := by simp_all
      refine ⟨⟨by simp,by simp [depth],forall_mem_cons.mpr ⟨sound.argument depth,sound.args⟩⟩,(stays _).symm,?_⟩
      simp [Collected.size]
    · exact keep (fun n => stays _) (stays _).symm
  next noOpening noClosing _ =>
    have stays n : tok.kind.nest n = n := nest_other noOpening noClosing n
    exact keep (fun n => stays _) (stays _).symm

/-- Tokens of a call that are read; `level` of its parentheses are open. -/
structure Gathered (ready : List Source → Prop) (left : List Source → Nat) (start : Preprocessor) (size level : Nat)
    (pp : Preprocessor) : Prop where
  orderly : Orderly ready pp
  pushback : pp.pushback = none
  macros : pp.macros = start.macros
  hides : pp.frames.map (·.hides) = start.frames.map (·.hides)
  weight : weight left pp + .replicate size (free pp.macros pp.frames) ≤ weight left start
  stream : Barred start → Barred pp ∧ Within start pp ∧
    ∃ read, stream start = read ++ stream pp ∧ ∀ n, opened (n + 1) read = n + level

section Calls

theorem Within.refl (pp : Preprocessor) : Within pp pp := ⟨_,_,_,_,rfl⟩

theorem Within.trans (first : Within pp pp') (second : Within pp' pp'') : Within pp pp'' := by
  obtain ⟨_,_,_,_,rfl⟩ := first
  obtain ⟨frames,pushback,diagnostics,counter,rfl⟩ := second
  exact ⟨frames,pushback,diagnostics,counter,rfl⟩

theorem gathered_start (orderly : Orderly ready start) (empty : start.pushback = none) :
    Gathered ready left start 0 1 start :=
  ⟨orderly,empty,rfl,rfl,by simp,fun barred => ⟨barred,.refl start,[],rfl,fun _ => rfl⟩⟩

theorem Gathered.read (gathered : Gathered ready left start size (depth + 1) pp) (inside : Inside pp.frames depth)
    (raw : Raw ready left pp tok pp') (spelled : tok.kind.isSpelled = true) :
    Gathered ready left start (size + 1) (tok.kind.nest (depth + 1)) pp' := by
  have hides := (raw.inside inside gathered.pushback).1
  have same : free pp'.macros pp'.frames = free pp.macros pp.frames := by rw [raw.macros,free_congr hides]
  refine ⟨(raw.orderly gathered.orderly).1,raw.pushback,raw.macros.trans gathered.macros,hides.trans gathered.hides,?_,
    fun barred => ?_⟩
  · rcases raw.weight gathered.orderly with ⟨eof,_⟩ | ⟨_,taken⟩
    · rw [isEof_of_isSpelled spelled] at eof
      cases eof
    · rw [same] at taken ⊢
      calc Expand.weight left pp' + .replicate (size + 1) (free pp.macros pp.frames)
          = Expand.weight left pp' + {free pp.macros pp.frames} + .replicate size (free pp.macros pp.frames) := by
            rw [Multiset.replicate_succ,← Multiset.singleton_add,add_assoc]
        _ ≤ Expand.weight left pp + .replicate size (free pp.macros pp.frames) := by gcongr
        _ ≤ Expand.weight left start := gathered.weight
  · obtain ⟨barred,within,read,parts,level⟩ := gathered.stream barred
    obtain ⟨barred',within',_,next⟩ := raw.stream gathered.orderly barred
    refine ⟨barred',within.trans within',read ++ [tok.kind],by simp [parts,next spelled],fun n => ?_⟩
    rw [opened_append,level]
    exact tok.kind.nest_add n (Nat.succ_pos depth)

theorem fitArguments_ok (fits : fitArguments m args = .ok fitted) : ∀ arg ∈ fitted, arg = [] ∨ arg ∈ args := by
  unfold fitArguments at fits
  dsimp only at fits
  split_ifs at fits <;> cases fits <;> simp_all [or_comm]

theorem fit_settles (name : String) (m : Macro) (args : List (List Token)) :
    Settles host (fun _ => match fitArguments m args with
      | .ok args => return args
      | .error tooMany => PreM.fail (ExpandFault.argumentCount name tooMany).complaint) pp fun fitted pp' =>
        pp' = pp ∧ ∀ arg ∈ fitted, arg = [] ∨ arg ∈ args := by
  cases fits : fitArguments m args with
  | ok fitted => exact .of_ok (fun _ _ => rfl) ⟨rfl,fitArguments_ok fits⟩
  | error tooMany => exact .fail _

/-- The arguments of a call lie in the frame that its parenthesis is in. -/
theorem readArguments_settles (name : String) (m : Macro) (feeds : Feeds host source ready left)
    (orderly : Orderly ready start) (empty : start.pushback = none) (inside : Inside start.frames 0) :
    Settles host (fun _ => readArguments (rawFrom source) name m) start fun args pp => ∃ size,
      Gathered ready left start size 0 pp ∧ ∀ arg ∈ args, Argument arg ∧ arg.length ≤ size := by
  have collected : Settles host (fun _ => do
      iterate (fun c => do
        let tok ← rawFrom source
        if tok.isEof then PreM.fail (ExpandFault.openArguments name).complaint
        return collect m c tok) (← read).fuel {}) start fun args pp => ∃ size,
      Gathered ready left start size 0 pp ∧ ∀ arg ∈ args, Argument arg ∧ arg.length ≤ size := by
    refine Settles.iterate Multiset.wellFounded_isDershowitzMannaLT
      (fun c pp => c.Sound ∧ Inside pp.frames c.depth ∧ ∃ size, c.size ≤ size ∧
        Gathered ready left start size (c.depth + 1) pp) (fun _ pp => weight left pp) ?_
      ⟨⟨by simp,fun _ => rfl,by simp⟩,inside,0,Nat.le_refl 0,gathered_start orderly empty⟩
    rintro c pp ⟨sound,inside,size,fits,gathered⟩
    refine .bind (raw_settles feeds gathered.orderly.ready) fun tok pp' raw => ?_
    rcases raw.weight gathered.orderly with ⟨eof,_⟩ | ⟨spelled,taken⟩
    · simp only [eof]
      exact .fail_bind _ _
    · simp only [isEof_of_isSpelled spelled]
      have takes := collect_takes m sound spelled
      have read := gathered.read inside raw spelled
      refine .of_ok (fun _ _ => rfl) ?_
      cases next : collect m c tok with
      | inl next =>
        rw [next] at takes
        obtain ⟨sound,level,grows⟩ := takes
        refine ⟨⟨sound,(raw.inside inside gathered.pushback).2 _ level,size + 1,by omega,level ▸ read⟩,?_⟩
        exact lighter_of_taken taken
      | inr args =>
        rw [next] at takes
        obtain ⟨⟨closes,outside⟩,arguments⟩ := takes
        rw [closes,outside] at read
        refine ⟨size + 1,read,fun arg member => ⟨(arguments arg member).1,?_⟩⟩
        have := (arguments arg member).2
        omega
  refine .read_bind collected fun args pp ⟨size,gathered,arguments⟩ => ?_
  refine (fit_settles name m args).mono ?_
  rintro fitted pp' ⟨rfl,among⟩
  refine ⟨size,gathered,fun arg member => ?_⟩
  rcases among arg member with rfl | member
  · exact ⟨argument_nil,Nat.zero_le _⟩
  · exact arguments arg member

end Calls
end OnePass.Expand
