import OnePass.Compile.Call
import OnePass.Proofs.Arena
import OnePass.Proofs.Effect
import OnePass.Proofs.Section

/-! # The frame of a function

The locals and the slots of a function lie below each other under its frame pointer, and the frame that its end asks
for holds them all. -/
namespace OnePass.Compile

/-- Bytes of a frame, from an offset to the frame pointer on. -/
structure Piece where
  offset : Int32
  size : Nat
  align : Nat

/-- One piece ends before the other begins. -/
def Piece.Below (p q : Piece) : Prop := p.offset.toInt + p.size ≤ q.offset.toInt

/-- The piece is under the frame pointer, no deeper than `depth`, and its offset is aligned. -/
structure Piece.Lies (depth : Int) (p : Piece) : Prop where
  top : p.offset.toInt + p.size ≤ 0
  bottom : -depth ≤ p.offset.toInt
  aligned : (p.align : Int) ∣ p.offset.toInt

/-- The pieces lie below each other in the used part of the frame. -/
structure Laid (pieces : List Piece) (used : Nat) : Prop where
  apart : pieces.Pairwise Piece.Below
  lie : ∀ p ∈ pieces, p.Lies used
  room : used + 16 ≤ 2 ^ 31

/-- What a function does between two states, with the pieces that it was given, latest first. It asks for slots as
long as the frame has room. -/
inductive Takes (env : Env) (s : Compiler) : List Piece → Compiler → Prop where
  | start : Takes env s [] s
  | other {t u : Compiler} (before : Takes env s pieces t) (same : u.frameUsed = t.frameUsed) : Takes env s pieces u
  | local_ (before : Takes env s pieces t) (run : allocLocal size align env t = .ok offset u) :
    Takes env s (⟨offset,size.toNat,max align.toNat 1⟩ :: pieces) u
  | refused (before : Takes env s pieces t) (run : allocLocal size align env t = .error e u) : Takes env s pieces u
  | slot (before : Takes env s pieces t) (run : allocSlot env t = .ok offset u) (room : u.frameUsed + 8 < 2 ^ 31) :
    Takes env s (⟨offset,8,8⟩ :: pieces) u

theorem Laid.take {size align : Nat} (laid : Laid pieces used) (enough : used + size ≤ deep) (aligned : align ∣ deep)
    (room : deep + 16 ≤ 2 ^ 31) : Laid (⟨frameOffset deep,size,align⟩ :: pieces) deep := by
  have place : (frameOffset deep).toInt = -deep := Int32.toInt_ofInt_of_le (by omega) (by omega)
  refine ⟨List.pairwise_cons.mpr ⟨fun q member => ?_,laid.apart⟩,List.forall_mem_cons.mpr ⟨?_,fun q member => ?_⟩,room⟩
  · have := (laid.lie q member).bottom
    simp only [Piece.Below,place]
    omega
  · constructor <;> simp only [place]
    · omega
    · exact le_rfl
    · exact Int.dvd_neg.mpr (Int.natCast_dvd_natCast.mpr aligned)
  · have lies := laid.lie q member
    exact { lies with bottom := by have := lies.bottom; omega }

variable {env : Env} {s t : Compiler} {size align : UInt64} {offset : Int32} {pieces : List Piece}

theorem allocLocal_laid (laid : Laid pieces s.frameUsed) (run : allocLocal size align env s = .ok offset t) :
    Laid (⟨offset,size.toNat,max align.toNat 1⟩ :: pieces) t.frameUsed := by
  have positive : 0 < max align.toNat 1 := by omega
  have reached := Nat.lt_div_mul_add positive (a := s.frameUsed + size.toNat + (max align.toNat 1 - 1))
  simp only [allocLocal,run_bind,run_get] at run
  split at run
  next => cases run
  next fits =>
    cases run
    simp only [maxFrame,Nat.not_lt] at fits
    exact laid.take (by omega) (Nat.dvd_mul_left ..) (by omega)

theorem allocLocal_refused (run : allocLocal size align env s = .error e t) : t.frameUsed = s.frameUsed := by
  simp only [allocLocal,run_bind,run_get] at run
  split at run <;> cases run
  rfl

theorem allocSlot_laid (laid : Laid pieces s.frameUsed) (run : allocSlot env s = .ok offset t)
    (room : t.frameUsed + 8 < 2 ^ 31) : Laid (⟨offset,8,8⟩ :: pieces) t.frameUsed := by
  cases run
  replace room : min ((s.frameUsed + 15) / 8 * 8) 0x80000000 + 8 < 2 ^ 31 := room
  exact laid.take (by omega) (by omega) (by omega)

theorem Takes.laid (takes : Takes env s pieces t) (fresh : s.frameUsed = 0) : Laid pieces t.frameUsed := by
  induction takes with
  | start => exact ⟨.nil,by simp,by omega⟩
  | other _ same ih => rwa [same]
  | local_ _ run ih => exact allocLocal_laid ih run
  | refused _ run ih => rwa [allocLocal_refused run]
  | slot _ run room ih => exact allocSlot_laid ih run room

/-! ## The field of the frame -/

/-- Code is made, and the four bytes from `hole` on are among it. -/
structure Open (hole : Nat) (s : Compiler) : Prop where
  code : s.noCode = false
  inside : hole + 4 ≤ (s.arena.get s.text).contents.size

theorem Open.update {f : Elf.Section → Elf.Section} (opened : Open hole s)
    (longer : ∀ sec, sec.contents.size ≤ (f sec).contents.size) :
    Open hole { s with arena := s.arena.update s.text f } :=
  ⟨opened.code,opened.inside.trans (Elf.Arena.get_update_rel (r := fun a b => a.contents.size ≤ b.contents.size)
    (fun _ => le_rfl) (longer _) s.text)⟩

theorem fill_frameUsed (s : Compiler) (hole : Nat) (v : Int32) : (s.fill hole v).frameUsed = s.frameUsed := by
  unfold Compiler.fill
  split <;> rfl

theorem Open.fill (opened : Open hole s) (other : Nat) (v : Int32) : Open hole (s.fill other v) := by
  rw [Compiler.fill,if_neg (by simp [opened.code])]
  exact opened.update fun sec => by simp [Elf.Section.contents,Elf.Section.patch]

/-- What has been filled in is what stands there. -/
theorem Open.filled (opened : Open hole s) (v : Int32) :
    BytesAt ((s.fill hole v).arena.get (s.fill hole v).text).contents hole (Bytes.ofInt32 v) := by
  have inside := opened.inside
  rw [Elf.Section.contents,Array.size_extract] at inside
  have bound : s.text < s.arena.sections.size := by
    by_contra outside
    simp [Elf.Arena.get_outside (Nat.le_of_not_lt outside)] at inside
  have width : (Bytes.ofInt32 v).length = 4 := Bytes.length_ofUInt32 _
  rw [Compiler.fill,if_neg (by simp [opened.code]),Elf.Arena.get_update_same bound]
  intro i lane
  rw [Elf.Section.getElem?_contents,if_pos (by rw [Elf.Section.size_patch]; omega),Elf.Section.patch,
    overwrite_lane _ _ _ _ (by omega) lane]

theorem emit_frameUsed (s : Compiler) (instr : X86.Instr) : (s.emit instr).frameUsed = s.frameUsed := by
  unfold Compiler.emit
  split <;> rfl

theorem Open.emit {instr : X86.Instr} (opened : Open hole s) (plain : instr.encode.fixup = none) :
    Open hole (s.emit instr) := by
  rw [Compiler.emit_plain opened.code plain]
  refine opened.update fun sec => ?_
  simp only [Elf.Section.contents,Elf.Section.append,Elf.Section.resize,Elf.Section.reserveTo,Elf.Section.realloc,
    Elf.Section.patch]
  split <;> simp

theorem patchAll_frameUsed (env : Env) (target : Nat) (holes : List Nat) (s : Compiler) :
    ∃ t, patchAll target holes env s = .ok ⟨⟩ t ∧ t.frameUsed = s.frameUsed ∧ ∀ hole, Open hole s → Open hole t := by
  induction holes generalizing s with
  | nil => exact ⟨s,rfl,rfl,fun _ => id⟩
  | cons hole rest ih =>
    obtain ⟨t,run,same,kept⟩ := ih (s.fill hole (X86.jumpDistance hole target))
    exact ⟨t,run,same.trans (fill_frameUsed ..),fun other opened => kept other (opened.fill _ _)⟩

theorem prologue_frameUsed (run : prologue env s = .ok hole t) : t.frameUsed = 0 := by
  cases code : s.noCode with
  | true =>
    simp only [prologue,emitHole,run_bind,run_modify,run_get,code,if_true,run_pure] at run
    cases run
    rfl
  | false =>
    simp only [prologue,emitHole,run_bind,run_modify,run_get,code] at run
    cases run
    exact emit_frameUsed _ _

theorem epilogue_fills (hole : Nat) (returns : List Nat) (isMain : Bool) (env : Env) (s : Compiler) :
    ∃ t, epilogue hole returns isMain env s = .ok ⟨⟩ t ∧ (Open hole s →
      BytesAt (t.arena.get t.text).contents hole (Bytes.ofInt32 (Int32.ofNat ((s.frameUsed + 15) / 16 * 16)))) := by
  have finish (begun : Compiler) (kept : begun.frameUsed = s.frameUsed) (opened : Open hole s → Open hole begun) :
      ∃ t, (do
        patchHere returns
        emit .epilogue
        modify fun s => s.fill hole (Int32.ofNat ((s.frameUsed + 15) / 16 * 16)) : CompileM Unit) env begun =
          .ok ⟨⟩ t ∧ (Open hole s →
        BytesAt (t.arena.get t.text).contents hole (Bytes.ofInt32 (Int32.ofNat ((s.frameUsed + 15) / 16 * 16)))) := by
    obtain ⟨t,run,same,further⟩ := patchAll_frameUsed env begun.position returns begun
    refine ⟨(t.emit .epilogue).fill hole (Int32.ofNat ((s.frameUsed + 15) / 16 * 16)),?_,fun first =>
      ((further hole (opened first)).emit rfl).filled _⟩
    simp only [patchHere,position,run_bind,emit,run_modify,run_get,run_pure,run,emit_frameUsed,same,kept]
  cases isMain with
  | false => exact finish s rfl id
  | true => exact finish _ (emit_frameUsed s .clearEax) (·.emit rfl)

/-- From the start of a function on, no two pieces of its frame overlap. They are below the frame pointer, aligned and
inside the frame whose size the end of the function writes into the prologue, and a local that is refused takes
nothing. -/
theorem frame_pieces_apart (start : prologue env s₀ = .ok hole s) (takes : Takes env s pieces t) :
    pieces.Pairwise Piece.Below ∧
    (∃ frame : Int32, (∀ p ∈ pieces, p.Lies frame.toInt) ∧
      ∀ returns isMain, ∃ u, epilogue hole returns isMain env t = .ok ⟨⟩ u ∧
        (Open hole t → BytesAt (u.arena.get u.text).contents hole (Bytes.ofInt32 frame))) ∧
    ∀ size align u e v, allocLocal size align env u = .error e v → v.frameUsed = u.frameUsed := by
  have laid := takes.laid (prologue_frameUsed start)
  have room := laid.room
  have frame : (Int32.ofNat ((t.frameUsed + 15) / 16 * 16)).toInt = ((t.frameUsed + 15) / 16 * 16 : Nat) :=
    Int32.toInt_ofNat_of_lt (by omega)
  refine ⟨laid.apart,⟨_,fun p member => ?_,fun returns isMain => epilogue_fills hole returns isMain env t⟩,
    fun _ _ _ _ _ => allocLocal_refused⟩
  have lies := laid.lie p member
  exact { lies with bottom := by have := lies.bottom; omega }

def unbegun : Compiler := { pre := {}, arena := Elf.Arena.initial, text := Elf.Arena.initial.text }

def idle : Env := { host := { fuel := 0 }, settings := {}, solve _ := throw .exhausted }

def twoPieces : List Piece := [⟨-16,8,8⟩,⟨-4,3,4⟩]

/-- A local of three bytes, one that is refused, and a slot. -/
theorem frame_pieces_apart_two : ∃ s t, prologue idle unbegun = .ok 7 s ∧ Takes idle s twoPieces t ∧
    ∃ frame : Int32, (∀ p ∈ twoPieces, p.Lies frame.toInt) ∧
      ∃ u, epilogue 7 [] true idle t = .ok ⟨⟩ u ∧ BytesAt (u.arena.get u.text).contents 7 (Bytes.ofInt32 frame) := by
  have begun : prologue idle unbegun = .ok 7 (unbegun.emit .prologue) := rfl
  have first : Takes idle (unbegun.emit .prologue) [⟨-4,3,4⟩] { unbegun.emit .prologue with frameUsed := 4 } :=
    .local_ .start (show allocLocal 3 4 idle _ = _ from rfl)
  have second := first.refused (show allocLocal 0x40000000 1 idle _ = _ from rfl)
  have takes := second.slot (show allocSlot idle _ = .ok (-16) _ from rfl) (by decide)
  obtain ⟨-,⟨frame,lie,fills⟩,-⟩ := frame_pieces_apart begun takes
  obtain ⟨u,run,holds⟩ := fills [] true
  exact ⟨_,_,begun,takes,frame,lie,u,run,holds ⟨rfl,by decide +kernel⟩⟩

end OnePass.Compile
