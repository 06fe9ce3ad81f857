import OnePass.X86.Operand

/-! # Instructions

The instructions, and the few fixed sequences, that the compiler emits. Values live in `rax`; `rcx`
holds the right operand of an operator, `rdx` is lost in a division and `r11` holds addresses. -/
namespace OnePass.X86

inductive Instr where
  | load (dst : Reg) (mem : Mem) (width : Nat) (signed : Bool)
  | store (src : Reg) (mem : Mem) (width : Nat)
  | lea (dst : Reg) (mem : Mem)
  | movImm (dst : Reg) (value : Int64)
  /-- Nothing when both registers are the same. -/
  | mov (dst src : Reg)
  | push (reg : Reg)
  | pop (reg : Reg)
  | alu (op : Alu) (dst src : Reg)
  | aluImm (op : Alu) (imm : Int32)
  | imul (dst src : Reg)
  | imulImm (reg : Reg) (imm : Int32)
  /-- Divide `rax` by `rcx`, with the quotient in `rax` and the remainder in `rdx`. -/
  | div (signed : Bool)
  /-- Shift `rax` by `cl`. -/
  | shift (kind : Shift)
  | shiftImm (kind : Shift) (count : UInt8)
  | neg
  | not
  /-- Compare `rax` with zero. -/
  | test
  /-- Set `rax` to 1 or 0 as the condition holds. -/
  | setcc (cond : Cond)
  | extend (reg : Reg) (width : Nat) (signed : Bool)
  | jmp
  | jcc (cond : Cond)
  | call (symbol : Nat)
  | callR11
  /-- Functions with open argument lists read the number of vector arguments from `al`. -/
  | clearEax
  | subRsp (size : Int32)
  | addRsp (size : Int32)
  | prologue
  | epilogue
  /-- Copy `rcx` bytes from `[rsi]` to `[rdi]`. -/
  | repMovsb
  /-- Fill `rcx` bytes at `[rdi]` with `al`. -/
  | repStosb
  deriving DecidableEq, Repr

/-- Where the field stands that is filled in later: the distance of a jump, or the size of a frame. -/
def Instr.hole? : Instr → Option Nat
  | .jmp => some 1
  | .jcc _ => some 2
  | .prologue => some 7
  | _ => none

def jumpDistance (hole target : Nat) : Int32 :=
  Int32.ofInt ((target : Int) - ((hole : Int) + 4))

end OnePass.X86
