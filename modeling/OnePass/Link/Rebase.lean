import OnePass.Link.Image

/-! # Images without their address

What an image holds depends on its base address in two kinds of places: fields of 64 bits that hold
the address of something inside, and the entries of the global offset table. Taking the base off
there gives bytes that any two links of the same input share. -/
namespace OnePass.Link

open Elf

def takeOff (base : UInt64) (bytes : Array UInt8) (offset : Nat) : Array UInt8 :=
  overwrite bytes offset (Bytes.ofUInt64 (UInt64.ofNat (readLE bytes offset 8) - base))

/-- The relocation fills a field with an address inside the image. -/
def holdsAddress (arena : Arena) (rel : Relocation) : Bool :=
  let index := (arena.symbol arena.symtab rel.symbol.toNat).index
  rel.type == RelocType.abs64.code && index != SectionIndex.undef && index != SectionIndex.abs

def relocatedFields (arena : Arena) (base : UInt64) : List (Nat × Bool) :=
  arena.allocated.flatMap fun id =>
    let start := ((arena.get id).address - base).toNat
    (arena.relocations id).map fun rel => (start + rel.offset.toNat, holdsAddress arena rel)

/-- The offsets whose last relocation leaves an address. -/
def addressFields (fields : List (Nat × Bool)) : List Nat :=
  ((fields.map (·.1)).eraseDups).filter fun offset =>
    (fields.reverse.lookup offset).getD false

def sectionsEnd (arena : Arena) (base : UInt64) : Nat :=
  arena.allocated.foldl (fun stop id =>
    max stop (((arena.get id).address - base).toNat + (arena.get id).size)) 0

def wordsFrom (start size : Nat) : List Nat :=
  ((List.range (size / 8)).map (· * 8)).filter fun offset => start ≤ offset

/-- The image's bytes with the base taken off, given the arena that its link left. -/
def rebased (arena : Arena) (image : Image) : Array UInt8 :=
  let linked := (addressFields (relocatedFields arena image.base)).foldl (takeOff image.base)
    image.bytes
  (wordsFrom (sectionsEnd arena image.base) image.size).foldl (fun bytes offset =>
    let value := readLE bytes offset 8
    if image.base.toNat ≤ value && value ≤ image.base.toNat + image.size then
      takeOff image.base bytes offset
    else bytes) linked

end OnePass.Link
