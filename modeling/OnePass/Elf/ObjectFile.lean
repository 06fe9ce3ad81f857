import OnePass.Elf.SymbolTable
import OnePass.Elf.StringPool

/-! # Writing objects

The listed sections keep their numbers. The symbol table is written anew with the local symbols
first, its strings sharing suffixes, and the relocations follow the new numbers. -/
namespace OnePass.Elf

namespace ObjectFile

/-- The old indexes of the symbols in the order in which they are written, and the number of local
ones, the null symbol among them. -/
def symbolOrder (arena : Arena) : List Nat × Nat :=
  let isOwn := fun i => i == 0 || (arena.symbol arena.symtab i).isLocal
  let (own, shared) := (List.range (arena.symbolCount arena.symtab)).partition isOwn
  (own ++ shared, own.length)

inductive Slot where
  | symbols
  | strings
  | relocations (records : List Relocation)
  | contents
  deriving DecidableEq, Repr

def renumber (order : List Nat) (rel : Relocation) : Relocation :=
  { rel with symbol := UInt32.ofNat ((order.idxOf? rel.symbol.toNat).getD 0) }

def slotOf (arena : Arena) (order : List Nat) (id : SectionId) : Slot :=
  let sec := arena.get id
  if id == arena.symtab then .symbols
  else if some id == (arena.get arena.symtab).link then .strings
  else if sec.type == SectionType.rela && sec.link == some arena.symtab then
    .relocations ((Relocation.decodeAll sec.contents).map (renumber order))
  else .contents

/-- Add a piece at an alignment; an empty one takes no room and no padding. -/
def place (out : Array UInt8) (align : UInt64) (piece : Array UInt8) : Nat × Array UInt8 :=
  if piece.isEmpty then (out.size, out)
  else
    let start := (alignUp (UInt64.ofNat out.size) align).toNat
    (start, out ++ Array.replicate (start - out.size) 0 ++ piece)

structure Header where
  name : Nat
  type : UInt32
  flags : UInt64 := 0
  offset : Nat
  size : Nat
  link : Nat := 0
  info : Nat := 0
  align : UInt64 := 1
  entrySize : UInt64 := 0
  deriving DecidableEq, Repr

def Header.encode (header : Header) : Bytes :=
  Bytes.ofNatLE 4 header.name ++ Bytes.ofUInt32 header.type ++ Bytes.ofUInt64 header.flags ++
    Bytes.zeros 8 ++ Bytes.ofNatLE 8 header.offset ++ Bytes.ofNatLE 8 header.size ++
    Bytes.ofNatLE 4 header.link ++ Bytes.ofNatLE 4 header.info ++ Bytes.ofUInt64 header.align ++
    Bytes.ofUInt64 header.entrySize

/-- The first header is empty but for numbers of sections that the file header has no room for. -/
def firstHeader (count namesIndex : Nat) : Header :=
  let reserved := SectionIndex.reserved.toNat
  { name := 0, type := 0, offset := 0, size := if count < reserved then 0 else count
    link := if namesIndex < reserved then 0 else namesIndex, align := 0 }

def fileHeader (sectionHeaders count namesIndex : Nat) : Bytes :=
  let reserved := SectionIndex.reserved.toNat
  [0x7f, 0x45, 0x4c, 0x46, 2, 1, 1] ++ Bytes.zeros 9 ++ Bytes.ofNatLE 2 1 ++ Bytes.ofNatLE 2 62 ++
    Bytes.ofNatLE 4 1 ++ Bytes.zeros 8 ++ Bytes.zeros 8 ++ Bytes.ofNatLE 8 sectionHeaders ++
    Bytes.zeros 4 ++ Bytes.ofNatLE 2 64 ++ Bytes.zeros 2 ++ Bytes.zeros 2 ++ Bytes.ofNatLE 2 64 ++
    Bytes.ofNatLE 2 (if count < reserved then count else 0) ++
    Bytes.ofNatLE 2 (if namesIndex < reserved then namesIndex else 0xffff)

def headerName (arena : Arena) (id : SectionId) : Slot → Bytes
  | .symbols => Bytes.ofString ".symtab"
  | .strings => Bytes.ofString ".strtab"
  | _ => Bytes.ofString (arena.get id).name

def symbolRecord (arena : Arena) (pool : StringPool.Pool) (old : Nat) : Bytes :=
  if old == 0 then Bytes.zeros Symbol.recordSize
  else
    let name := arena.symbolName arena.symtab old
    let nameOffset := if name.isEmpty then 0 else pool.offset (Bytes.ofString name)
    ({ arena.symbol arena.symtab old with nameOffset := UInt32.ofNat nameOffset }).encode

def placeSlots (piece : SectionId → Slot → UInt64 × Array UInt8) :
    List (SectionId × Slot) → Array UInt8 → List Nat × Array UInt8
  | [], out => ([], out)
  | (id, slot) :: rest, out =>
    let (align, bytes) := piece id slot
    let (offset, out) := place out align bytes
    let (offsets, out) := placeSlots piece rest out
    (offset :: offsets, out)

def contentsPiece (arena : Arena) (id : SectionId) : Slot → UInt64 × Array UInt8
  | .contents =>
    let sec := arena.get id
    (max sec.align 1, if sec.isNobits then #[] else sec.contents)
  | _ => (1, #[])

def relocationsPiece (_ : SectionId) : Slot → UInt64 × Array UInt8
  | .relocations records => (8, (records.flatMap (·.encode)).toArray)
  | _ => (1, #[])

def bytes (arena : Arena) : Array UInt8 :=
  let (order, ownCount) := symbolOrder arena
  let slots := arena.numbered.map fun id => (id, slotOf arena order id)
  let symbolNames := (order.filter (· != 0)).map fun old =>
    Bytes.ofString (arena.symbolName arena.symtab old)
  let strings := StringPool.ofStrings (symbolNames.filter (!·.isEmpty))
  let ownName := Bytes.ofString ".shstrtab"
  let names := StringPool.ofStrings (ownName :: slots.map fun (id, slot) => headerName arena id slot)
  let symbolBytes := (order.flatMap (symbolRecord arena strings)).toArray
  let (contentOffsets, out) := placeSlots (contentsPiece arena) slots (Array.replicate 64 0)
  let (symbolOffset, out) := place out 8 symbolBytes
  let (stringOffset, out) := place out 1 strings.bytes
  let (relocOffsets, out) := placeSlots relocationsPiece slots out
  let (nameOffset, out) := place out 1 names.bytes
  let stringsIndex := (((arena.get arena.symtab).link).map fun id => (arena.get id).number).getD 0
  let header := fun ((id, slot), contentOffset, relocOffset) =>
    let sec := arena.get id
    let name := names.offset (headerName arena id slot)
    let link := (sec.link.map fun l => (arena.get l).number).getD 0
    match slot with
    | .symbols => { name, type := SectionType.symtab, offset := symbolOffset,
                    size := symbolBytes.size, link := stringsIndex, info := ownCount, align := 8,
                    entrySize := 24 : Header }
    | .strings => { name, type := SectionType.strtab, offset := stringOffset,
                    size := strings.bytes.size }
    | .relocations records => { name, type := SectionType.rela, flags := sec.flags.toUInt64,
                                offset := relocOffset, size := records.length * 24, link,
                                info := sec.info.toNat, align := 8, entrySize := 24 }
    | .contents => { name, type := sec.type, flags := sec.flags.toUInt64, offset := contentOffset,
                     size := sec.size, link, info := sec.info.toNat, align := max sec.align 1,
                     entrySize := sec.entrySize }
  let headers := (slots.zip (contentOffsets.zip relocOffsets)).map header
  let last : Header := { name := names.offset ownName, type := SectionType.strtab,
                         offset := nameOffset, size := names.bytes.size }
  let table := (firstHeader (slots.length + 2) (slots.length + 1) :: (headers ++ [last])).flatMap (·.encode)
  let (headersOffset, out) := place out 8 table.toArray
  overwrite out 0 (fileHeader headersOffset (slots.length + 2) (slots.length + 1))

end ObjectFile
end OnePass.Elf
