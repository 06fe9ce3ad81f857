import OnePass.CType
import OnePass.CType.Name
import OnePass.Elf.Align

/-! # Sizes and member offsets

Members of a struct follow each other at their natural alignment and its size is a multiple of its
alignment; all members of a union begin at 0. -/
namespace OnePass

structure Field where
  name : Name
  type : CType
  offset : UInt64 := 0
  deriving Repr

structure StructDef where
  tag : Name
  isUnion : Bool
  fields : List Field := []
  size : UInt64 := 0
  align : UInt64 := 1
  defined : Bool := false
  deriving Repr

def StructDef.field? (sd : StructDef) (name : Name) : Option Field :=
  sd.fields.find? fun f => f.name == name

/-- No object is larger, so that the difference of two pointers has a value. -/
def maxObjectSize : UInt64 := 0x7fffffffffffffff

structure Extent where
  size : UInt64
  align : UInt64
  deriving DecidableEq, Repr

namespace CType

def times? (size count : UInt64) : Option UInt64 :=
  let total := size.toNat * count.toNat
  if total ≤ maxObjectSize.toNat then some (UInt64.ofNat total) else none

/-- The extent of a type; nothing while it is incomplete or when it is too large. -/
def extent? (structs : Array StructDef) : CType → Option Extent
  | .void _ => some ⟨1, 1⟩
  | .int rank _ _ => some ⟨UInt64.ofNat rank.bytes, UInt64.ofNat rank.bytes⟩
  | .float .float _ => some ⟨4, 4⟩
  | .float .double _ => some ⟨8, 8⟩
  | .float .longDouble _ => some ⟨16, 16⟩
  | .pointer .. => some ⟨8, 8⟩
  | .func .. => some ⟨1, 1⟩
  | .array elem length _ =>
    match extent? structs elem, length with
    | some e, some count => (times? e.size count).map (⟨·, e.align⟩)
    | _, _ => none
  | .struct id _ =>
    match structs[id]? with
    | some sd => if sd.defined then some ⟨sd.size, sd.align⟩ else none
    | none => none

end CType

inductive LayoutFault where
  | incompleteField
  | tooLarge
  deriving DecidableEq, Repr

def LayoutFault.text : LayoutFault → String
  | .incompleteField => "field has incomplete type"
  | .tooLarge => "struct is too large"

namespace Layout

/-- What has been laid out: the members, latest first, the end of the last one, the size and the
alignment. -/
structure Progress where
  placed : List Field := []
  stop : UInt64 := 0
  size : UInt64 := 0
  align : UInt64
  deriving Repr

def addField (structs : Array StructDef) (isUnion : Bool) (p : Progress) (field : Field) :
    Except LayoutFault Progress :=
  match field.type.extent? structs with
  | none => .error .incompleteField
  | some e =>
    let align := max p.align e.align
    if isUnion then
      .ok { p with placed := { field with offset := 0 } :: p.placed, size := max p.size e.size, align }
    else
      let offset := alignUp p.stop e.align
      let stop := offset.toNat + e.size.toNat
      if stop ≤ maxObjectSize.toNat then
        .ok { placed := { field with offset } :: p.placed, stop := UInt64.ofNat stop,
              size := UInt64.ofNat stop, align }
      else .error .tooLarge

def fields (structs : Array StructDef) (isUnion : Bool) (minAlign : UInt64) (members : List Field) :
    Except LayoutFault (List Field × Extent) := do
  let p ← members.foldlM (addField structs isUnion) { align := max minAlign 1 }
  return (p.placed.reverse, ⟨alignUp p.size p.align, p.align⟩)

end Layout
end OnePass
