import OnePass.Text.Utf8
import OnePass.Elf.Section
import OnePass.Elf.Symbol
import OnePass.Elf.LoadError

/-! # Reading ELF files

A view of a 64-bit little-endian file: its type, its section headers and the tables they lead to.
Positions come from the file and are checked before anything is read through them. -/
namespace OnePass.Elf

structure SectionHeader where
  name : UInt32
  type : UInt32
  flags : UInt64
  offset : UInt64
  size : UInt64
  link : UInt32
  info : UInt32
  align : UInt64
  deriving DecidableEq, Repr

namespace SectionHeader

def recordSize : Nat := 64

def decode (data : Array UInt8) (at_ : Nat) : SectionHeader where
  name := UInt32.ofNat (readLE data at_ 4)
  type := UInt32.ofNat (readLE data (at_ + 4) 4)
  flags := UInt64.ofNat (readLE data (at_ + 8) 8)
  offset := UInt64.ofNat (readLE data (at_ + 24) 8)
  size := UInt64.ofNat (readLE data (at_ + 32) 8)
  link := UInt32.ofNat (readLE data (at_ + 40) 4)
  info := UInt32.ofNat (readLE data (at_ + 44) 4)
  align := UInt64.ofNat (readLE data (at_ + 48) 8)

end SectionHeader

/-- A string table as a range of the file; nothing can be read from an absent one. -/
abbrev StringRange := Option (Nat × Nat)

structure File where
  data : Array UInt8
  type : Nat
  sections : Array SectionHeader
  names : StringRange
  deriving DecidableEq, Repr

namespace File

def typeRelocatable : Nat := 1
def typeShared : Nat := 3
def machineX86 : Nat := 62

abbrev Read := Except FormatFault

/-- The string at an offset of a table; nothing when the table reaches out of the file or no zero
ends the string. -/
def stringAt? (data : Array UInt8) (range : StringRange) (offset : Nat) : Option Bytes :=
  match range with
  | none => none
  | some (start, stop) =>
    if start + offset ≤ stop && stop ≤ data.size then
      let count := stop - (start + offset)
      let found := untilZero data count (start + offset)
      if found.length < count then some found else none
    else none

def textAt (data : Array UInt8) (range : StringRange) (offset : Nat) : String :=
  ((stringAt? data range offset).bind Utf8.decode?).getD ""

def sectionCount (data : Array UInt8) (start : Nat) : Read Nat := do
  let count := readLE data 60 2
  if count > 0 then return count
  if readLE data 58 2 ≠ SectionHeader.recordSize then throw .sectionHeaderEntrySize
  if start + SectionHeader.recordSize > data.size then throw .firstSectionHeader
  return (SectionHeader.decode data start).size.toNat

def readSections (data : Array UInt8) : Read (Array SectionHeader) := do
  let start := readLE data 40 8
  if start = 0 then return #[]
  let count ← sectionCount data start
  if count = 0 then return #[]
  if readLE data 58 2 ≠ SectionHeader.recordSize then throw .sectionHeaderEntrySize
  if start + count * SectionHeader.recordSize > data.size then throw .sectionHeaders
  return (Array.range count).map fun i => SectionHeader.decode data (start + i * SectionHeader.recordSize)

def readNames (data : Array UInt8) (sections : Array SectionHeader) : Read StringRange := do
  match sections[0]? with
  | none => return none
  | some first =>
    let given := readLE data 62 2
    let index := if given = 0xffff then first.link.toNat else given
    if index = 0 then throw .noStringSection
    match sections[index]? with
    | none => throw .badStringSection
    | some header =>
      if header.type == SectionType.nobits then return none
      let stop := header.offset.toNat + header.size.toNat
      if stop ≥ 0x10000000000000000 then throw .sectionNamesSize
      return some (header.offset.toNat, stop)

def elfMagic : Bytes := [0x7f, 0x45, 0x4c, 0x46]

def parse (data : Array UInt8) : Except LoadError File := do
  if data.size < 16 then throw .truncatedHeader
  if readLE data 4 1 ≠ 2 || readLE data 5 1 ≠ 1 then throw .unsupportedClass
  if data.size < 64 then throw (.malformed .headerSize)
  if (data.extract 0 4).toList ≠ elfMagic || readLE data 6 1 ≠ 1 then
    throw (.malformed .unsupportedHeader)
  let machine := readLE data 18 2
  if machine ≠ machineX86 then throw (.wrongMachine machine)
  match readSections data with
  | .error fault => throw (.malformed fault)
  | .ok sections =>
    match readNames data sections with
    | .error fault => throw (.malformed fault)
    | .ok names => return { data, type := readLE data 16 2, sections, names }

def sectionName (file : File) (header : SectionHeader) : String :=
  textAt file.data file.names header.name.toNat

def contents (file : File) (header : SectionHeader) : Read (Array UInt8) :=
  if header.type == SectionType.nobits then .ok #[]
  else match slice? file.data header.offset.toNat header.size.toNat with
    | some bytes => .ok bytes
    | none => .error .sectionData

def records (file : File) (header : SectionHeader) (width : Nat) : Read (Array UInt8) := do
  let bytes ← file.contents header
  if bytes.size % width = 0 then return bytes else throw .sectionData

def stringSection (file : File) (index : Nat) : Read StringRange := do
  if index = 0 then return none
  match file.sections[index]? with
  | none => throw .sectionIndex
  | some header =>
    if header.type != SectionType.strtab then throw .stringSectionType
    let stop := header.offset.toNat + header.size.toNat
    if stop ≥ 0x10000000000000000 then throw .stringSectionRange
    return some (header.offset.toNat, stop)

structure SymbolView where
  symbols : List Symbol := []
  strings : StringRange := none
  deriving DecidableEq, Repr

def orElse (fault : FormatFault) : Read α → Read α
  | .ok a => .ok a
  | .error _ => .error fault

/-- The first symbol table of a type. Tables of extended section indexes that belong to it have to
be readable too. -/
def symbols (file : File) (type : UInt32) : Read SymbolView := do
  match file.sections.toList.findIdx? (·.type == type) with
  | none => return {}
  | some index =>
    match file.sections[index]? with
    | none => return {}
    | some header =>
      let bytes ← orElse .symbolData (file.records header Symbol.recordSize)
      let strings ← file.stringSection header.link.toNat
      file.sections.toList.forM fun other =>
        if other.type == SectionType.extendedIndex && other.link.toNat = index then
          (fun _ => ()) <$> orElse .extendedIndexData (file.records other 4)
        else pure ()
      let count := bytes.size / Symbol.recordSize
      return {
        symbols := (List.range count).map fun i => Symbol.decode bytes (i * Symbol.recordSize)
        strings }

end File
end OnePass.Elf
