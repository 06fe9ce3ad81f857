/-! # Operands of x86-64 instructions -/
namespace OnePass.X86

inductive Reg where
  | rax
  | rcx
  | rdx
  | rbx
  | rsp
  | rbp
  | rsi
  | rdi
  | r8
  | r9
  | r10
  | r11
  deriving DecidableEq, Repr

/-- The number of a register in instructions: three bits in the operand and one in the REX byte. -/
def Reg.code : Reg → UInt8
  | .rax => 0
  | .rcx => 1
  | .rdx => 2
  | .rbx => 3
  | .rsp => 4
  | .rbp => 5
  | .rsi => 6
  | .rdi => 7
  | .r8 => 8
  | .r9 => 9
  | .r10 => 10
  | .r11 => 11

inductive Mem where
  | frame (offset : Int32)
  | stack (offset : Int32)
  | base (reg : Reg) (offset : Int32)
  | rip (symbol : Nat) (addend : Int64) (type : UInt32)
  deriving DecidableEq, Repr

/-- What a comparison has to say for a conditional jump; the names are those of the instructions. -/
inductive Cond where
  | b
  | ae
  | e
  | ne
  | be
  | a
  | l
  | ge
  | le
  | g
  deriving DecidableEq, Repr

namespace Cond

def code : Cond → UInt8
  | .b => 0x2
  | .ae => 0x3
  | .e => 0x4
  | .ne => 0x5
  | .be => 0x6
  | .a => 0x7
  | .l => 0xc
  | .ge => 0xd
  | .le => 0xe
  | .g => 0xf

def negate : Cond → Cond
  | .b => .ae
  | .ae => .b
  | .e => .ne
  | .ne => .e
  | .be => .a
  | .a => .be
  | .l => .ge
  | .ge => .l
  | .le => .g
  | .g => .le

end Cond

inductive Alu where
  | add
  | or
  | and
  | sub
  | xor
  | cmp
  deriving DecidableEq, Repr

def Alu.code : Alu → UInt8
  | .add => 0
  | .or => 1
  | .and => 4
  | .sub => 5
  | .xor => 6
  | .cmp => 7

inductive Shift where
  | shl
  | shr
  | sar
  deriving DecidableEq, Repr

def Shift.code : Shift → UInt8
  | .shl => 4
  | .shr => 5
  | .sar => 7

end OnePass.X86
