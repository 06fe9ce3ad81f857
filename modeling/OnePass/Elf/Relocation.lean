import OnePass.Text.Bytes

/-! # Relocations

A relocation names a field of a section and the symbol whose address belongs there. `Reloc.patched`
says what a field holds once all addresses are known. -/
namespace OnePass.Elf

structure Relocation where
  offset : UInt64
  symbol : UInt32
  type : UInt32
  addend : Int64
  deriving DecidableEq, Repr, Inhabited

namespace Relocation

def recordSize : Nat := 24

def encode (rel : Relocation) : Bytes :=
  Bytes.ofUInt64 rel.offset ++ Bytes.ofUInt32 rel.type ++ Bytes.ofUInt32 rel.symbol ++
    Bytes.ofInt64 rel.addend

def decode (data : Array UInt8) (offset : Nat) : Relocation where
  offset := UInt64.ofNat (readLE data offset 8)
  type := UInt32.ofNat (readLE data (offset + 8) 4)
  symbol := UInt32.ofNat (readLE data (offset + 12) 4)
  addend := (UInt64.ofNat (readLE data (offset + 16) 8)).toInt64

/-- The records of a table; bytes that make no full record are left out. -/
def decodeAll (data : Array UInt8) : List Relocation :=
  (List.range (data.size / recordSize)).map fun i => decode data (i * recordSize)

end Relocation

inductive RelocType where
  | none
  | abs64
  | pc32
  | plt32
  | gotPcRel
  | abs32
  | abs32Signed
  | gotPcRelX
  | rexGotPcRelX
  deriving DecidableEq, Repr

namespace RelocType

def code : RelocType → UInt32
  | .none => 0
  | .abs64 => 1
  | .pc32 => 2
  | .plt32 => 4
  | .gotPcRel => 9
  | .abs32 => 10
  | .abs32Signed => 11
  | .gotPcRelX => 41
  | .rexGotPcRelX => 42

def ofCode? (code : UInt32) : Option RelocType :=
  if code == 0 then some .none
  else if code == 1 then some .abs64
  else if code == 2 then some .pc32
  else if code == 4 then some .plt32
  else if code == 9 then some .gotPcRel
  else if code == 10 then some .abs32
  else if code == 11 then some .abs32Signed
  else if code == 41 then some .gotPcRelX
  else if code == 42 then some .rexGotPcRelX
  else Option.none

@[simp] theorem ofCode?_code (type : RelocType) : ofCode? type.code = some type := by
  cases type <;> rfl

def width : RelocType → Nat
  | .none => 0
  | .abs64 => 8
  | _ => 4

def usesGot : RelocType → Bool
  | .gotPcRel | .gotPcRelX | .rexGotPcRelX => true
  | _ => false

end RelocType

def relocWidth? (code : UInt32) : Option Nat := (RelocType.ofCode? code).map (·.width)

def relocUsesGot (code : UInt32) : Bool := ((RelocType.ofCode? code).map (·.usesGot)).getD false

inductive RelocFault where
  | overflow
  | unsupported
  | missingGot
  | outOfBounds
  deriving DecidableEq, Repr

namespace Reloc

def fitsInt32 (value : Int64) : Bool := -0x80000000 ≤ value && value ≤ 0x7fffffff

def distance (target : UInt64) (addend : Int64) (place : UInt64) : Except RelocFault Bytes :=
  let value := (target + addend.toUInt64 - place).toInt64
  if fitsInt32 value then .ok (Bytes.ofNatLE 4 value.toUInt64.toNat) else .error .overflow

/-- What the field at address `place` has to hold. `target` is the symbol's address or its jump
slot, `got` the address of its table entry. -/
def fieldBytes (type : RelocType) (place target : UInt64) (addend : Int64) (got : Option UInt64) :
    Except RelocFault Bytes :=
  let value := target + addend.toUInt64
  match type with
  | .none => .ok []
  | .abs64 => .ok (Bytes.ofUInt64 value)
  | .pc32 | .plt32 => distance target addend place
  | .gotPcRel | .gotPcRelX | .rexGotPcRelX =>
    match got with
    | some entry => distance entry addend place
    | Option.none => .error .missingGot
  | .abs32 =>
    if value ≤ 0xffffffff then .ok (Bytes.ofNatLE 4 value.toNat) else .error .overflow
  | .abs32Signed =>
    if fitsInt32 value.toInt64 then .ok (Bytes.ofNatLE 4 value.toNat) else .error .overflow

def patched (code : UInt32) (room : Nat) (place target : UInt64) (addend : Int64)
    (got : Option UInt64) : Except RelocFault Bytes :=
  match RelocType.ofCode? code with
  | Option.none => .error .unsupported
  | some type =>
    if room < type.width then .error .outOfBounds else fieldBytes type place target addend got

end Reloc
end OnePass.Elf
