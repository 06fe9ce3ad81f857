import OnePass.Elf.Relocation
import OnePass.X86.Instr

/-! # Instruction encoding

An instruction is an optional REX byte, an opcode, a ModRM byte with its displacement, and an
immediate. A field that a symbol decides is left zero and described by a relocation. -/
namespace OnePass.X86

structure Fixup where
  offset : Nat
  type : UInt32
  symbol : Nat
  addend : Int64
  deriving DecidableEq, Repr

structure Encoded where
  bytes : Bytes
  fixup : Option Fixup := none
  deriving DecidableEq, Repr

namespace Encoded

def after (lead : Bytes) (e : Encoded) : Encoded where
  bytes := lead ++ e.bytes
  fixup := e.fixup.map fun f => { f with offset := lead.length + f.offset }

def followedBy (e : Encoded) (tail : Bytes) : Encoded := { e with bytes := e.bytes ++ tail }

end Encoded

def Reg.low (reg : Reg) : UInt8 := reg.code &&& 7

def Reg.isHigh (reg : Reg) : Bool := reg.code ≥ 8

namespace Encode

/-- The REX byte for a wide operation and two register numbers; left out when it says nothing, unless
it is forced. -/
def rex (wide : Bool) (reg base : UInt8) (force : Bool) : Bytes :=
  let w : UInt8 := if wide then 8 else 0
  let byte := w ||| (((reg >>> 3) &&& 1) <<< 2) ||| ((base >>> 3) &&& 1) ||| 0x40
  if byte != 0x40 || force then [byte] else []

/-- An operand in memory at a displacement from a base register. The displacement takes no byte when
it is 0, one when it fits and four otherwise; `rbp` always has one, and `rsp` needs a SIB byte. -/
def based (reg : UInt8) (base : Reg) (disp : Int32) : Bytes :=
  let sib : Bytes := if base.low == 4 then [0x24] else []
  let fields (mode : UInt8) : Bytes := (mode ||| ((reg &&& 7) <<< 3) ||| base.low) :: sib
  if disp == 0 && base.low != 5 then fields 0x00
  else if -128 ≤ disp && disp < 128 then fields 0x40 ++ [disp.toInt8.toUInt8]
  else fields 0x80 ++ Bytes.ofInt32 disp

/-- An instruction on a register and memory. Without a REX byte the numbers 4 to 7 name other byte
registers than the low bytes of `rsp` to `rdi`. -/
def memory (wide byteReg : Bool) (opcode : Bytes) (reg : Reg) (mem : Mem) : Encoded :=
  let r := reg.code
  let force := byteReg && 4 ≤ r && r < 8
  let onBase (base : Reg) (disp : Int32) : Encoded :=
    { bytes := rex wide r base.code force ++ opcode ++ based r base disp }
  match mem with
  | .frame offset => onBase .rbp offset
  | .stack offset => onBase .rsp offset
  | .base base offset => onBase base offset
  | .rip symbol addend type =>
    let lead := rex wide r 0 force ++ opcode ++ [((r &&& 7) <<< 3) ||| 0x05]
    { bytes := lead ++ Bytes.zeros 4
      fixup := some { offset := lead.length, type, symbol, addend := addend - 4 } }

def registers (wide : Bool) (opcode : Bytes) (reg rm : Reg) : Encoded :=
  { bytes := rex wide reg.code rm.code false ++ opcode ++ [(0xc0 : UInt8) ||| (reg.low <<< 3) ||| rm.low] }

def plain (bytes : Bytes) : Encoded := { bytes }

/-- The opcode of a load that extends to 64 bits, and whether it is a wide operation. -/
def loadOpcode (width : Nat) (signed : Bool) : Bool × Bytes :=
  match width, signed with
  | 1, true => (true, [0x0f, 0xbe])
  | 1, false => (false, [0x0f, 0xb6])
  | 2, true => (true, [0x0f, 0xbf])
  | 2, false => (false, [0x0f, 0xb7])
  | 4, true => (true, [0x63])
  | 4, false => (false, [0x8b])
  | _, _ => (true, [0x8b])

def load (dst : Reg) (mem : Mem) (width : Nat) (signed : Bool) : Encoded :=
  let (wide, opcode) := loadOpcode width signed
  memory wide false opcode dst mem

def store (src : Reg) (mem : Mem) (width : Nat) : Encoded :=
  match width with
  | 1 => memory false true [0x88] src mem
  | 2 => (memory false false [0x89] src mem).after [0x66]
  | 4 => memory false false [0x89] src mem
  | _ => memory true false [0x89] src mem

/-- A constant takes the shortest form that holds it: extended with its sign, extended with zeros,
or whole. -/
def movImm (dst : Reg) (value : Int64) : Encoded :=
  if value == value.toInt32.toInt64 then
    (registers true [0xc7] .rax dst).followedBy (Bytes.ofInt32 value.toInt32)
  else if value == value.toUInt64.toUInt32.toUInt64.toInt64 then
    plain (rex false 0 dst.code false ++ [0xb8 + dst.low] ++ Bytes.ofUInt32 value.toUInt64.toUInt32)
  else
    plain (rex true 0 dst.code false ++ [0xb8 + dst.low] ++ Bytes.ofInt64 value)

/-- Instructions that name a high register by one bit in front. -/
def short (opcode : UInt8) (reg : Reg) : Encoded :=
  plain ((if reg.isHigh then [0x41] else []) ++ [opcode + reg.low])

def extend (reg : Reg) (width : Nat) (signed : Bool) : Encoded :=
  match width, signed with
  | 1, true => registers true [0x0f, 0xbe] reg reg
  | 1, false => registers false [0x0f, 0xb6] reg reg
  | 2, true => registers true [0x0f, 0xbf] reg reg
  | 2, false => registers false [0x0f, 0xb7] reg reg
  | 4, true => registers true [0x63] reg reg
  | 4, false => registers false [0x89] reg reg
  | _, _ => plain []

end Encode

open Encode in
def Instr.encode : Instr → Encoded
  | .load dst mem width signed => Encode.load dst mem width signed
  | .store src mem width => Encode.store src mem width
  | .lea dst mem => memory true false [0x8d] dst mem
  | .movImm dst value => Encode.movImm dst value
  | .mov dst src => if dst = src then plain [] else registers true [0x89] src dst
  | .push reg => short 0x50 reg
  | .pop reg => short 0x58 reg
  | .alu op dst src => registers true [(op.code <<< 3) ||| 0x01] src dst
  | .aluImm op imm => plain (0x48 :: ((op.code <<< 3) ||| 0x05) :: Bytes.ofInt32 imm)
  | .imul dst src => registers true [0x0f, 0xaf] dst src
  | .imulImm reg imm => (registers true [0x69] reg reg).followedBy (Bytes.ofInt32 imm)
  | .div true => plain [0x48, 0x99, 0x48, 0xf7, 0xf9]
  | .div false => plain [0x31, 0xd2, 0x48, 0xf7, 0xf1]
  | .shift kind => plain [0x48, 0xd3, (kind.code <<< 3) ||| 0xc0]
  | .shiftImm kind count => plain [0x48, 0xc1, (kind.code <<< 3) ||| 0xc0, count]
  | .neg => plain [0x48, 0xf7, 0xd8]
  | .not => plain [0x48, 0xf7, 0xd0]
  | .test => plain [0x48, 0x85, 0xc0]
  | .setcc cond => plain [0x0f, 0x90 ||| cond.code, 0xc0, 0x0f, 0xb6, 0xc0]
  | .extend reg width signed => Encode.extend reg width signed
  | .jmp => plain ([0xe9] ++ Bytes.zeros 4)
  | .jcc cond => plain ([0x0f, 0x80 ||| cond.code] ++ Bytes.zeros 4)
  | .call symbol =>
    { bytes := [0xe8] ++ Bytes.zeros 4
      fixup := some { offset := 1, type := Elf.RelocType.plt32.code, symbol, addend := -4 } }
  | .callR11 => plain [0x41, 0xff, 0xd3]
  | .clearEax => plain [0x31, 0xc0]
  | .subRsp size => plain (if size == 0 then [] else [0x48, 0x81, 0xec] ++ Bytes.ofInt32 size)
  | .addRsp size => plain (if size == 0 then [] else [0x48, 0x81, 0xc4] ++ Bytes.ofInt32 size)
  | .prologue => plain ([0x55, 0x48, 0x89, 0xe5, 0x48, 0x81, 0xec] ++ Bytes.zeros 4)
  | .epilogue => plain [0xc9, 0xc3]
  | .repMovsb => plain [0xf3, 0xa4]
  | .repStosb => plain [0xf3, 0xaa]

end OnePass.X86
