import OnePass.Text.Bytes
import OnePass.Elf.Align

/-! # Sections

A section has a logical size and, unless it only reserves room, stored bytes. The store grows by
doubling and is filled with zeros, so that bytes behind the logical end read as zero until something
is written there. -/
namespace OnePass.Elf

abbrev SectionId := Nat

namespace SectionType
def null : UInt32 := 0
def progbits : UInt32 := 1
def symtab : UInt32 := 2
def strtab : UInt32 := 3
def rela : UInt32 := 4
def hash : UInt32 := 5
def note : UInt32 := 7
def nobits : UInt32 := 8
def rel : UInt32 := 9
def dynsym : UInt32 := 11
def initArray : UInt32 := 14
def finiArray : UInt32 := 15
def preinitArray : UInt32 := 16
def extendedIndex : UInt32 := 18
end SectionType

namespace SectionFlag
def write : UInt32 := 1
def alloc : UInt32 := 2
def exec : UInt32 := 4
/-- Bookkeeping that gets no section number and reaches no file. -/
def unlisted : UInt32 := 0x80000000
end SectionFlag

structure Section where
  name : String := ""
  type : UInt32 := SectionType.null
  flags : UInt32 := 0
  number : Nat := 0
  align : UInt64 := 32
  entrySize : UInt64 := 0
  info : UInt32 := 0
  address : UInt64 := 0
  link : Option SectionId := none
  reloc : Option SectionId := none
  hash : Option SectionId := none
  hashed : Nat := 0
  store : Array UInt8 := #[]
  size : Nat := 0
  deriving DecidableEq, Repr, Inhabited

namespace Section

def defaultAlign (type : UInt32) : UInt64 :=
  if type == SectionType.symtab || type == SectionType.rela || type == SectionType.hash then 4
  else if type == SectionType.strtab then 1
  else 32

def create (name : String) (type flags : UInt32) : Section :=
  { name, type, flags, align := defaultAlign type }

def isUnlisted (sec : Section) : Bool := sec.flags &&& SectionFlag.unlisted != 0

def isAllocated (sec : Section) : Bool := sec.flags &&& SectionFlag.alloc != 0

def isNobits (sec : Section) : Bool := sec.type == SectionType.nobits

def contents (sec : Section) : Array UInt8 := sec.store.extract 0 (min sec.size sec.store.size)

/-- Double `capacity` until it holds `need`; `need` doublings of a positive number are enough. -/
def doubled : Nat → Nat → Nat → Nat
  | 0, capacity, _ => capacity
  | fuel + 1, capacity, need =>
    if capacity < need then doubled fuel (2 * capacity) need else capacity

def capacityFor (current need : Nat) : Nat :=
  if need ≤ current then current else doubled need (max current 1) need

def realloc (sec : Section) (need : Nat) : Section :=
  let capacity := capacityFor sec.store.size need
  { sec with store := sec.store ++ Array.replicate (capacity - sec.store.size) 0 }

def reserveTo (sec : Section) (need : Nat) : Section := if sec.isNobits then sec else sec.realloc need

def resize (sec : Section) (size : Nat) : Section := { sec.reserveTo size with size }

/-- Where so many bytes more would end. A size has 64 bits. -/
def endOf (sec : Section) (more : Nat) : Nat := (sec.size + more) % 0x10000000000000000

def reserve (sec : Section) (more : Nat) : Section := sec.reserveTo (sec.endOf more)

def extend (sec : Section) (more : Nat) : Nat × Section :=
  let wide := sec.resize (sec.endOf more)
  (min wide.size wide.store.size - min sec.size wide.store.size, wide)

/-- The size a section cannot pass: displacements to code and data have 32 bits. -/
def limit (sec : Section) : Nat := if sec.isNobits then 0xffffffff else 0x7fffffff

def grow? (sec : Section) (more : Nat) : Option (Nat × Section) :=
  let size := sec.size + more
  if size ≤ sec.limit then some (sec.size, sec.resize size) else none

def alignTo (sec : Section) (align : UInt64) : Nat × Section :=
  let aligned := (alignUp (UInt64.ofNat sec.size) align).toNat
  (aligned, if aligned > sec.size then sec.resize aligned else sec)

def patch (sec : Section) (offset : Nat) (bytes : Bytes) : Section :=
  { sec with store := overwrite sec.store offset bytes }

def append (sec : Section) (bytes : Bytes) : Section :=
  (sec.resize (sec.size + bytes.length)).patch sec.size bytes

def clear (sec : Section) : Section :=
  { sec with store := Array.replicate sec.store.size 0, size := 0 }

def word (sec : Section) (offset : Nat) : Nat := readLE sec.store offset 4

def setWord (sec : Section) (offset value : Nat) : Section :=
  sec.patch offset (Bytes.ofNatLE 4 value)

end Section
end OnePass.Elf
