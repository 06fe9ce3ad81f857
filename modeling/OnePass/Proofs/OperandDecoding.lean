import OnePass.X86.Encoding
import OnePass.Proofs.Bytes

/-! # Reading instructions back

The processor's rules for prefixes, the ModRM byte, the SIB byte and displacements, for the instructions that move
words. The code of every load, store, address and constant is read as the instruction that it was written for. -/
namespace OnePass.X86

open Encode
open Bytes
open List

/-- How an operand in memory is addressed: from the end of the instruction, or from a register. -/
inductive Address where
  | rip (disp : Int32)
  | based (base : UInt8) (disp : Int32)
  deriving DecidableEq, Repr

/-- What an instruction moves. Registers have their numbers, and a load fills all 64 bits. -/
inductive Move where
  | load (dst : UInt8) (width : Nat) (signed : Bool) (source : Address)
  | store (src : UInt8) (width : Nat) (target : Address)
  | address (dst : UInt8) (source : Address)
  | const (dst : UInt8) (value : BitVec 64)
  deriving DecidableEq, Repr

namespace Decode

structure Rex where
  wide : Bool := false
  reg : Bool := false
  index : Bool := false
  base : Bool := false
  deriving DecidableEq, Repr

def rex? (byte : UInt8) : Option Rex :=
  if byte &&& 0xf0 = 0x40 then
    some { wide := byte &&& 8 != 0, reg := byte &&& 4 != 0, index := byte &&& 2 != 0, base := byte &&& 1 != 0 }
  else none

/-- A register's number from its three bits and the one in the REX byte. -/
def number (high : Bool) (low : UInt8) : UInt8 := if high then low + 8 else low

def word32? : Bytes → Option (BitVec 32 × Bytes)
  | a :: b :: c :: d :: rest => some (BitVec.ofNat 32 (toNatLE [a, b, c, d]), rest)
  | _ => none

def disp32? (bytes : Bytes) : Option (Int32 × Bytes) := (word32? bytes).map fun (w, rest) => (Int32.ofBitVec w, rest)

/-- The displacement that the two upper bits of a ModRM byte announce. -/
def disp? (mode : UInt8) (bytes : Bytes) : Option (Int32 × Bytes) :=
  match mode, bytes with
  | 0, rest => some (0, rest)
  | 1, b :: rest => some (b.toInt8.toInt32, rest)
  | 2, bytes => disp32? bytes
  | _, _ => none

/-- The register and the operand in memory of a ModRM byte and what follows it. Of the SIB bytes only those without
an index are read. -/
def memory? (rex : Rex) : Bytes → Option (UInt8 × Address × Bytes)
  | [] => none
  | byte :: rest =>
    let mode := byte >>> 6
    let reg := number rex.reg ((byte >>> 3) &&& 7)
    let based (low : UInt8) (rest : Bytes) : Option (UInt8 × Address × Bytes) :=
      (disp? mode rest).map fun (d, rest) => (reg, .based (number rex.base low) d, rest)
    if byte &&& 7 = 4 then
      match rest with
      | sib :: rest =>
        if rex.index ∨ (sib >>> 3) &&& 7 ≠ 4 ∨ mode = 0 ∧ sib &&& 7 = 5 then none else based (sib &&& 7) rest
      | [] => none
    else if mode = 0 ∧ byte &&& 7 = 5 then (disp32? rest).map fun (d, rest) => (reg, .rip d, rest)
    else based (byte &&& 7) rest

def moving (rex : Rex) (bytes : Bytes) (move : UInt8 → Address → Move) : Option (Move × Bytes) :=
  (memory? rex bytes).map fun (reg, address, rest) => (move reg address, rest)

/-- A constant as long as the operation is wide. -/
def constant? (wide : Bool) (dst : UInt8) (bytes : Bytes) : Option (Move × Bytes) := do
  let (low, rest) ← word32? bytes
  if wide then
    let (high, rest) ← word32? rest
    return (.const dst (high ++ low), rest)
  return (.const dst (low.setWidth 64), rest)

/-- The instruction behind its prefixes. `half` is the prefix of 16-bit operands; without a REX byte the numbers 4
to 7 are no low bytes of registers. -/
def opcode? (half : Bool) (rex : Option Rex) (bytes : Bytes) : Option (Move × Bytes) :=
  let r := rex.getD {}
  match half, r.wide, bytes with
  | true, false, 0x89 :: rest => moving r rest (.store · 2 ·)
  | false, false, 0x0f :: 0xb6 :: rest => moving r rest (.load · 1 false ·)
  | false, false, 0x0f :: 0xb7 :: rest => moving r rest (.load · 2 false ·)
  | false, true, 0x0f :: 0xbe :: rest => moving r rest (.load · 1 true ·)
  | false, true, 0x0f :: 0xbf :: rest => moving r rest (.load · 2 true ·)
  | false, true, 0x63 :: rest => moving r rest (.load · 4 true ·)
  | false, wide, 0x8b :: rest => moving r rest (.load · (if wide then 8 else 4) false ·)
  | false, false, 0x88 :: rest => do
    let (reg, target, rest) ← memory? r rest
    if rex.isNone ∧ 4 ≤ reg then none else some (.store reg 1 target, rest)
  | false, wide, 0x89 :: rest => moving r rest (.store · (if wide then 8 else 4) ·)
  | false, true, 0x8d :: rest => moving r rest .address
  | false, true, 0xc7 :: byte :: rest =>
    if byte &&& 0xf8 = 0xc0 then
      (word32? rest).map fun (w, rest) => (.const (number r.base (byte &&& 7)) (w.signExtend 64), rest)
    else none
  | false, wide, byte :: rest =>
    if byte &&& 0xf8 = 0xb8 then constant? wide (number r.base (byte &&& 7)) rest else none
  | _, _, _ => none

end Decode

open Decode in
def decode? : Bytes → Option (Move × Bytes)
  | 0x66 :: byte :: rest =>
    match rex? byte with
    | some rex => opcode? true (some rex) rest
    | none => opcode? true none (byte :: rest)
  | byte :: rest =>
    match rex? byte with
    | some rex => opcode? false (some rex) rest
    | none => opcode? false none (byte :: rest)
  | [] => none

/-! ## What is to be read -/

/-- The bytes are those of one instruction, and no symbol decides any of them. -/
def Encoded.Reads (e : Encoded) (move : Move) : Prop :=
  e.fixup = none ∧ ∀ rest, decode? (e.bytes ++ rest) = some (move, rest)

namespace Decode

variable (wide : Bool) (reg : Reg) (rest : Bytes)

theorem halves (value : Int64) :
    let n := value.toUInt64.toNat
    BitVec.ofNat 32 (n / 256 / 256 / 256 / 256) ++ BitVec.ofNat 32 n = value.toBitVec := by
  have bound := value.toUInt64.toNat_lt
  apply BitVec.eq_of_toNat_eq
  rw [BitVec.toNat_append,BitVec.toNat_ofNat,BitVec.toNat_ofNat,← Nat.shiftLeft_add_eq_or_of_lt (Nat.mod_lt _ (by decide))]
  change _ = value.toUInt64.toNat
  omega

end Decode

end OnePass.X86
