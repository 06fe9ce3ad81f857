import OnePass.Compile.State
import OnePass.X86.Encoding

/-! # Emitting code

Instructions go to the end of the current text section. Jumps are emitted with an empty distance that
is filled in once their target is known. -/
namespace OnePass

namespace Compiler

def position (s : Compiler) : Nat := (s.arena.get s.text).size

/-- The relocation for the field of an instruction that is emitted next. -/
def relocation (s : Compiler) (fixup : X86.Fixup) : Elf.Relocation :=
  { offset := UInt64.ofNat (s.position + fixup.offset), symbol := UInt32.ofNat fixup.symbol,
    type := fixup.type, addend := fixup.addend }

def emit (s : Compiler) (instr : X86.Instr) : Compiler :=
  if s.noCode then s
  else
    let e := instr.encode
    let arena := match e.fixup with
      | none => s.arena
      | some fixup => s.arena.putRelocation s.arena.symtab s.text (s.relocation fixup)
    { s with arena := arena.update s.text (·.append e.bytes) }

theorem emit_plain {s : Compiler} {instr : X86.Instr} (code : s.noCode = false) (plain : instr.encode.fixup = none) :
    s.emit instr = { s with arena := s.arena.update s.text (·.append instr.encode.bytes) } := by
  simp only [emit,code,Bool.false_eq_true,if_false,plain]

theorem emit_open {s : Compiler} {instr : X86.Instr} {fixup : X86.Fixup} (code : s.noCode = false)
    (opened : instr.encode.fixup = some fixup) : s.emit instr = { s with
      arena := (s.arena.putRelocation s.arena.symtab s.text (s.relocation fixup)).update s.text
        (·.append instr.encode.bytes) } := by
  simp only [emit,code,Bool.false_eq_true,if_false,opened]

theorem emit_quiet {s : Compiler} {instr : X86.Instr} (noCode : s.noCode = true) : s.emit instr = s := by
  simp only [emit,noCode,if_true]

def fill (s : Compiler) (hole : Nat) (value : Int32) : Compiler :=
  if s.noCode then s
  else { s with arena := s.arena.update s.text (·.patch hole (Bytes.ofInt32 value)) }

end Compiler

namespace Compile

open X86

def position : CompileM Nat := return (← get).position

def emit (instr : Instr) : CompileM Unit := modify (·.emit instr)

def emitHole (instr : Instr) : CompileM (Option Nat) := do
  if (← get).noCode then return none
  let start ← position
  emit instr
  return instr.hole?.map (start + ·)

def patchTo (target : Nat) (hole : Nat) : CompileM Unit :=
  modify (·.fill hole (jumpDistance hole target))

def patchAll (target : Nat) (holes : List Nat) : CompileM Unit := holes.forM (patchTo target)

def patchHere (holes : List Nat) : CompileM Unit := do patchAll (← position) holes

def jump : CompileM (Option Nat) := emitHole .jmp

def jumpIf (cond : Cond) : CompileM (Option Nat) := emitHole (.jcc cond)

def jumpTo (target : Nat) : CompileM Unit := do patchAll target (← jump).toList

/-! ## The machine stack -/

def pushRegister (reg : Reg) : CompileM Unit := do
  if (← get).noCode then return
  emit (.push reg)
  modify fun s => { s with stackDepth := s.stackDepth + 8 }

def popRegister (reg : Reg) : CompileM Unit := do
  if (← get).noCode then return
  emit (.pop reg)
  modify fun s => { s with stackDepth := s.stackDepth - 8 }

/-! ## The frame -/

def maxFrame : Nat := 0x40000000

def frameOffset (used : Nat) : Int32 := Int32.ofInt (-(used : Int))

def allocLocal (size align : UInt64) : CompileM Int32 := do
  let align := max align.toNat 1
  let used := ((← get).frameUsed + size.toNat + (align - 1)) / align * align
  if used > maxFrame then fail .frameTooLarge
  modify fun s => { s with frameUsed := used }
  return frameOffset used

def allocSlot : CompileM Int32 :=
  modifyGet fun s =>
    let used := min ((s.frameUsed + 15) / 8 * 8) 0x80000000
    (frameOffset used, { s with frameUsed := used })

end Compile
end OnePass
