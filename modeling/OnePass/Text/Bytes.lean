/-! # Byte strings

Source text, literals and file contents are lists of bytes; multi-byte numbers are written and read
in little-endian order, except in archive indexes. -/
namespace OnePass

abbrev Bytes := List UInt8

namespace Bytes

def ofNatLE : Nat → Nat → Bytes
  | 0, _ => []
  | width + 1, n => UInt8.ofNat n :: ofNatLE width (n / 256)

def toNatLE : Bytes → Nat
  | [] => 0
  | b :: rest => b.toNat + 256 * toNatLE rest

def toNatBE (bytes : Bytes) : Nat := bytes.foldl (fun n b => 256 * n + b.toNat) 0

def ofUInt16 (n : UInt16) : Bytes := ofNatLE 2 n.toNat
def ofUInt32 (n : UInt32) : Bytes := ofNatLE 4 n.toNat
def ofUInt64 (n : UInt64) : Bytes := ofNatLE 8 n.toNat
def ofInt32 (n : Int32) : Bytes := ofUInt32 n.toUInt32
def ofInt64 (n : Int64) : Bytes := ofUInt64 n.toUInt64

def zeros (n : Nat) : Bytes := List.replicate n 0

@[simp] theorem length_ofNatLE (width n : Nat) : (ofNatLE width n).length = width := by
  induction width generalizing n with
  | zero => rfl
  | succ width ih => simp [ofNatLE, ih]

def ofString (text : String) : Bytes := text.toUTF8.toList

end Bytes

/-- The `width` bytes of an array at `offset`, read as a little-endian number; bytes behind the end
count as zero. -/
def readLE (data : Array UInt8) (offset width : Nat) : Nat :=
  Bytes.toNatLE (data.extract offset (offset + width)).toList

/-- The bytes of an array from `offset` up to a zero byte, at most `count` of them. -/
def untilZero (data : Array UInt8) : Nat → Nat → Bytes
  | 0, _ => []
  | count + 1, offset =>
    match data[offset]? with
    | none => []
    | some b => if b == 0 then [] else b :: untilZero data count (offset + 1)

/-- The bytes of an array from `offset` on, or nothing when some of them are behind its end. -/
def slice? (data : Array UInt8) (offset size : Nat) : Option (Array UInt8) :=
  if offset + size ≤ data.size then some (data.extract offset (offset + size)) else none

/-- Overwrite `data` from `offset` on; bytes that fall behind the end are dropped. -/
def overwrite (data : Array UInt8) (offset : Nat) : Bytes → Array UInt8
  | [] => data
  | b :: rest => overwrite (data.setIfInBounds offset b) (offset + 1) rest

end OnePass
