import OnePass.Text.Utf8
import OnePass.Elf.Arena
import OnePass.Elf.Symbol
import OnePass.Elf.Relocation

/-! # Symbol, string, hash and relocation tables

A symbol table holds its records as they are written to a file. Beside it are a string table and an
unlisted hash table: a bucket count, a chain count, the bucket heads and one chain word per symbol.
Local symbols have a chain word and stand in no chain. -/
namespace OnePass.Elf

structure DefinedTwice where
  index : Nat
  name : String
  deriving DecidableEq, Repr

structure SymbolEntry where
  info : UInt8
  other : UInt8 := 0
  index : UInt16
  value : UInt64 := 0
  size : UInt64 := 0
  deriving DecidableEq, Repr

namespace SymbolEntry

def binding (entry : SymbolEntry) : UInt8 := Symbol.bindingOf entry.info

def isLocal (entry : SymbolEntry) : Bool := entry.binding == Binding.ownFile

def withName (entry : SymbolEntry) (nameOffset : UInt32) : Symbol :=
  { nameOffset, info := entry.info, other := entry.other, index := entry.index,
    value := entry.value, size := entry.size }

end SymbolEntry

namespace Arena

def putString (arena : Arena) (table : SectionId) (text : String) : UInt32 × Arena :=
  (UInt32.ofNat (arena.get table).size,
    arena.update table fun sec => sec.append (Bytes.ofString text ++ [0]))

def string (arena : Arena) (table : SectionId) (offset : UInt32) : String :=
  let sec := arena.get table
  (Utf8.decode? (untilZero sec.store (sec.size - offset.toNat) offset.toNat)).getD ""

def symbolCount (arena : Arena) (table : SectionId) : Nat :=
  (arena.get table).size / Symbol.recordSize

def symbol (arena : Arena) (table : SectionId) (index : Nat) : Symbol :=
  Symbol.decode (arena.get table).store (index * Symbol.recordSize)

def setSymbol (arena : Arena) (table : SectionId) (index : Nat) (sym : Symbol) : Arena :=
  arena.update table fun sec => sec.patch (index * Symbol.recordSize) sym.encode

def symbolName (arena : Arena) (table : SectionId) (index : Nat) : String :=
  match (arena.get table).link with
  | some strings => arena.string strings (arena.symbol table index).nameOffset
  | none => ""

/-- Enter symbol `index` at the head of its chain in the words of a hash table. -/
def hashWords (arena : Arena) (table : SectionId) (buckets : Nat) (words : Array UInt32)
    (index : Nat) : Array UInt32 :=
  let bucket := 2 + (hashName (Bytes.ofString (arena.symbolName table index))).toNat % buckets
  (words.setIfInBounds (2 + buckets + index) (words[bucket]?.getD 0)).setIfInBounds bucket
    (UInt32.ofNat index)

def rebuildHash (arena : Arena) (table : SectionId) (buckets : Nat) : Arena :=
  match (arena.get table).hash with
  | none => arena
  | some hash =>
    let count := arena.symbolCount table
    let blank := (Array.replicate (2 + buckets + count) (0 : UInt32)).setIfInBounds 0
      (UInt32.ofNat buckets) |>.setIfInBounds 1 (UInt32.ofNat count)
    let entered := (List.range' 1 (count - 1)).filter fun i => !(arena.symbol table i).isLocal
    let words := entered.foldl (arena.hashWords table buckets) blank
    arena.update hash fun sec =>
      { sec.clear.append (words.toList.flatMap Bytes.ofUInt32) with hashed := entered.length }

/-- Give symbol `index` its chain word, and its place in a chain unless it is local. -/
def enterHash (arena : Arena) (table hash : SectionId) (index : Nat) (name : String)
    (isLocal : Bool) : Arena :=
  let sec := (arena.get hash).resize ((arena.get hash).size + 4)
  let buckets := sec.word 0
  let chain := (2 + buckets + index) * 4
  let sec := sec.setWord 4 (sec.word 4 + 1)
  if isLocal then arena.update hash fun _ => sec.setWord chain 0
  else
    let bucket := (2 + (hashName (Bytes.ofString name)).toNat % buckets) * 4
    let sec := ((sec.setWord chain (sec.word bucket)).setWord bucket index)
    let sec := { sec with hashed := sec.hashed + 1 }
    let arena := arena.update hash fun _ => sec
    if sec.hashed > 2 * buckets then arena.rebuildHash table (2 * buckets) else arena

def putSymbol (arena : Arena) (table : SectionId) (entry : SymbolEntry) (name : String) :
    Nat × Arena :=
  let (nameOffset, arena) :=
    match (arena.get table).link with
    | some strings => if name.isEmpty then (0, arena) else arena.putString strings name
    | none => (0, arena)
  let index := arena.symbolCount table
  let arena := arena.update table (·.append (entry.withName nameOffset).encode)
  match (arena.get table).hash with
  | none => (index, arena)
  | some hash => (index, arena.enterHash table hash index name entry.isLocal)

/-- A symbol table with its string table and its hash table, holding the null symbol. -/
def createSymbolTable (arena : Arena) (name : String) (type flags : UInt32)
    (stringName hashName : String) (hashFlags : UInt32) : SectionId × Arena :=
  let (table, arena) := arena.create name type flags
  let (strings, arena) := arena.create stringName SectionType.strtab flags
  let arena := arena.update strings (·.append [0])
  let (hash, arena) := arena.create hashName SectionType.hash (hashFlags ||| SectionFlag.unlisted)
  let arena := arena.update table fun sec =>
    { sec with entrySize := 24, link := some strings, hash := some hash }
  let arena := arena.update hash fun sec =>
    { (sec.resize 12).setWord 0 1 with entrySize := 4, link := some table }
  (table, (arena.putSymbol table { info := 0, index := 0 } "").2)

def initial : Arena :=
  let (_, arena) := ({} : Arena).create "" SectionType.null 0
  let (text, arena) :=
    arena.create ".text" SectionType.progbits (SectionFlag.alloc ||| SectionFlag.exec)
  let (data, arena) :=
    arena.create ".data" SectionType.progbits (SectionFlag.alloc ||| SectionFlag.write)
  let (bss, arena) :=
    arena.create ".bss" SectionType.nobits (SectionFlag.alloc ||| SectionFlag.write)
  let (symtab, arena) :=
    arena.createSymbolTable ".symtab" SectionType.symtab 0 ".strtab" ".hashtab" SectionFlag.unlisted
  let (dynsymtab, arena) :=
    arena.createSymbolTable ".dynsymtab" SectionType.symtab SectionFlag.unlisted ".dynstrtab"
      ".dynhashtab" SectionFlag.unlisted
  { arena with text, data, bss, symtab, dynsymtab }

/-- Follow a chain to a symbol of the name. Every link goes to an older symbol, so as many steps as
there are symbols reach the end. -/
def chase (arena : Arena) (table hash : SectionId) (buckets : Nat) (name : String) : Nat → Nat → Nat
  | 0, _ => 0
  | _, 0 => 0
  | fuel + 1, index =>
    if arena.symbolName table index == name then index
    else arena.chase table hash buckets name fuel ((arena.get hash).word ((2 + buckets + index) * 4))

def findSymbol (arena : Arena) (table : SectionId) (name : String) : Nat :=
  match (arena.get table).hash with
  | none => 0
  | some hash =>
    let buckets := (arena.get hash).word 0
    if buckets == 0 then 0
    else
      let bucket := 2 + (hashName (Bytes.ofString name)).toNat % buckets
      arena.chase table hash buckets name (arena.symbolCount table + 1)
        ((arena.get hash).word (bucket * 4))

inductive Merge where
  | keep
  | widen
  | replace
  | clash
  deriving DecidableEq, Repr

/-- A tentative definition: one in the common block or in the section of zeroed data. -/
def isTentative (arena : Arena) (index : UInt16) : Bool :=
  index == SectionIndex.common || index.toNat == (arena.get arena.bss).number

/-- An undefined entry takes whatever comes and a definition keeps off a reference. Of two
definitions a strong one wins over a weak one, and one with contents over a tentative one; two
strong ones clash unless shared libraries export them. -/
def merge (arena : Arena) (table : SectionId) (old : Symbol) (new : SymbolEntry) : Merge :=
  if old.index == SectionIndex.undef then .replace
  else if new.index == SectionIndex.undef then .keep
  else if new.binding == Binding.weak then .keep
  else if old.binding == Binding.weak then .replace
  else if arena.isTentative new.index then
    if old.index == SectionIndex.common && new.index == SectionIndex.common && new.size > old.size
    then .widen else .keep
  else if arena.isTentative old.index then .replace
  else if table == arena.dynsymtab then .keep
  else .clash

def addSymbol (arena : Arena) (table : SectionId) (entry : SymbolEntry) (name : String) :
    Except DefinedTwice (Nat × Arena) :=
  let index := if entry.isLocal then 0 else arena.findSymbol table name
  if index == 0 then .ok (arena.putSymbol table entry name)
  else
    let old := arena.symbol table index
    match arena.merge table old entry with
    | .keep => .ok (index, arena)
    | .widen => .ok (index, arena.setSymbol table index { old with size := entry.size })
    | .replace => .ok (index, arena.setSymbol table index (entry.withName old.nameOffset))
    | .clash => .error ⟨index, name⟩

def relocSection (arena : Arena) (symtab target : SectionId) : SectionId × Arena :=
  match (arena.get target).reloc with
  | some rela => (rela, arena)
  | none =>
    let sec := arena.get target
    let flags := (arena.get symtab).flags &&& SectionFlag.unlisted
    let (rela, arena) := arena.create (".rela" ++ sec.name) SectionType.rela flags
    let arena := arena.update rela fun r =>
      { r with entrySize := 24, info := UInt32.ofNat sec.number, align := 8, link := some symtab }
    (rela, arena.update target fun s => { s with reloc := some rela })

def putRelocation (arena : Arena) (symtab target : SectionId) (rel : Relocation) : Arena :=
  let (rela, arena) := arena.relocSection symtab target
  arena.update rela (·.append rel.encode)

def relocations (arena : Arena) (target : SectionId) : List Relocation :=
  match (arena.get target).reloc with
  | some rela => Relocation.decodeAll (arena.get rela).contents
  | none => []

def globals (arena : Arena) (table : SectionId) : List (Nat × String) :=
  ((List.range' 1 (arena.symbolCount table - 1)).filter
    fun i => !(arena.symbol table i).isLocal).map fun i => (i, arena.symbolName table i)

end Arena
end OnePass.Elf
