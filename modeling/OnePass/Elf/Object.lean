import OnePass.Elf.SymbolTable
import OnePass.Elf.File

/-! # Merging objects

Each allocated section of an object is appended to the section of its name, its symbols are added
with their places moved, and its relocations are moved to the merged symbols. A failed merge
keeps what was merged before it failed. -/
namespace OnePass.Elf

abbrev LoadM := EStateM LoadError Arena

namespace LoadM

def format (result : File.Read α) : LoadM α :=
  match result with
  | .ok a => pure a
  | .error fault => throw (.malformed fault)

def parse (data : Array UInt8) : LoadM File :=
  match File.parse data with
  | .ok file => pure file
  | .error e => throw e

def change (f : Arena → α × Arena) : LoadM α := do
  let (result, arena) := f (← get)
  set arena
  return result

end LoadM

structure Placed where
  target : SectionId
  offset : Nat
  size : Nat
  deriving DecidableEq, Repr

namespace Object

def isLoadable (header : SectionHeader) : Bool :=
  header.flags &&& SectionFlag.alloc.toUInt64 != 0 &&
    [SectionType.progbits, SectionType.nobits, SectionType.note, SectionType.initArray,
      SectionType.finiArray, SectionType.preinitArray].contains header.type

def targetSection (name : String) (header : SectionHeader) : LoadM SectionId := do
  match (← get).find? name with
  | some id =>
    if ((← get).get id).type != header.type then throw (.invalidSection (.otherType name))
    return id
  | none =>
    let kept := SectionFlag.alloc ||| SectionFlag.write ||| SectionFlag.exec
    let id ← LoadM.change (·.create name header.type (header.flags.toUInt32 &&& kept))
    modify (·.update id fun sec => { sec with align := 1 })
    return id

def placeSection (file : File) (header : SectionHeader) : LoadM (Option Placed) := do
  if !isLoadable header then return none
  let name := file.sectionName header
  let target ← targetSection name header
  let align := max header.align 1
  let bytes ← LoadM.format (file.contents header)
  modify (·.update target fun sec => (({ sec with align := max sec.align align }).alignTo align).2)
  match ((← get).get target).grow? header.size.toNat with
  | none => throw (.invalidSection (.tooLarge name))
  | some (offset, sec) =>
    modify (·.update target fun _ => sec.patch offset bytes.toList)
    return some ⟨target, offset, header.size.toNat⟩

def placeSections (file : File) : LoadM (List (Option Placed)) :=
  match file.sections.toList with
  | [] => return []
  | _ :: rest => return none :: (← rest.mapM (placeSection file))

def placedAt? (placed : List (Option Placed)) (index : Nat) : Option Placed := (placed[index]?).join

/-- A symbol of the file with its section and value as they are after the merge; nothing for a local
symbol of a section that was not loaded. -/
def moved (placed : List (Option Placed)) (name : String) (sym : Symbol) : LoadM (Option Symbol) := do
  if sym.index == SectionIndex.undef || sym.index ≥ SectionIndex.reserved then return some sym
  match placedAt? placed sym.index.toNat with
  | some place =>
    return some { sym with
      index := UInt16.ofNat ((← get).get place.target).number
      value := sym.value + UInt64.ofNat place.offset }
  | none =>
    if sym.isLocal then return none else throw (.invalidSection (.definedElsewhere name))

def entryOf (sym : Symbol) : SymbolEntry :=
  { info := sym.info, other := sym.other, index := sym.index, value := sym.value, size := sym.size }

def mergeSymbol (file : File) (view : File.SymbolView) (placed : List (Option Placed))
    (sym : Symbol) : LoadM Nat := do
  let name := if sym.type == SymbolType.section_ then ""
    else File.textAt file.data view.strings sym.nameOffset.toNat
  match ← moved placed name sym with
  | none => return 0
  | some sym =>
    if sym.isLocal then
      LoadM.change fun arena => arena.putSymbol arena.symtab (entryOf sym) name
    else
      let arena ← get
      match arena.addSymbol arena.symtab (entryOf sym) name with
      | .ok (index, arena) => set arena; return index
      | .error twice => throw (.definedTwice twice.name)

def mergeSymbols (file : File) (placed : List (Option Placed)) : LoadM (Array Nat) := do
  let view ← LoadM.format (file.symbols SectionType.symtab)
  match view.symbols with
  | [] => return #[]
  | _ :: rest => return (0 :: (← rest.mapM (mergeSymbol file view placed))).toArray

def mergeRelocation (table : String) (target : Placed) (symbols : Array Nat)
    (position : Nat) (rel : Relocation) : LoadM Unit := do
  let width := (relocWidth? rel.type).getD 1
  if rel.offset.toNat + width > target.size then throw (.invalidRelocation table position)
  match symbols[rel.symbol.toNat]? with
  | none => throw (.invalidRelocation table position)
  | some symbol =>
    if symbol = 0 && rel.symbol != 0 then throw (.invalidRelocation table position)
    modify fun arena => arena.putRelocation arena.symtab target.target
      { rel with offset := rel.offset + UInt64.ofNat target.offset, symbol := UInt32.ofNat symbol }

def mergeRelocations (file : File) (placed : List (Option Placed)) (symbols : Array Nat)
    (header : SectionHeader) : LoadM Unit := do
  if header.type != SectionType.rela && header.type != SectionType.rel then return
  match placedAt? placed header.info.toNat with
  | none => return
  | some target =>
    if header.type == SectionType.rel then throw .relRelocations
    let bytes ← LoadM.format (file.records header Relocation.recordSize)
    (Relocation.decodeAll bytes).zipIdx.forM fun (rel, position) =>
      mergeRelocation (file.sectionName header) target symbols position rel

def load (data : Array UInt8) : LoadM Unit := do
  let file ← LoadM.parse data
  if file.type ≠ File.typeRelocatable then throw (.unrecognizedType file.type)
  if file.sections.toList.countP (·.type == SectionType.symtab) > 1 then
    throw (.invalidSection .secondSymbolTable)
  let placed ← placeSections file
  let symbols ← mergeSymbols file placed
  file.sections.toList.forM (mergeRelocations file placed symbols)

end Object

namespace SharedObject

/-- Register what a shared object exports; the result is the number of exports. When two libraries
export one name the first one stays. -/
def load (data : Array UInt8) : LoadM Nat := do
  let file ← LoadM.parse data
  if file.type ≠ File.typeShared then throw (.unrecognizedType file.type)
  let view ← LoadM.format (file.symbols SectionType.dynsym)
  let exported := (view.symbols.drop 1).filter fun sym =>
    !sym.isLocal && sym.index != SectionIndex.undef
  exported.forM fun sym => modify fun arena =>
    match arena.addSymbol arena.dynsymtab (Object.entryOf sym)
        (File.textAt file.data view.strings sym.nameOffset.toNat) with
    | .ok (_, arena) => arena
    | .error _ => arena
  return exported.length

end SharedObject
end OnePass.Elf
