import OnePass.Elf.SymbolTable

/-! # Linking in memory

Tentative definitions get their room, undefined symbols are looked up, the allocated sections are
laid out one behind the other, followed by a global offset table and a jump table for calls that
leave the image, and the relocations are applied. -/
namespace OnePass

open Elf

inductive LinkError where
  | undefined (names : List String)
  | overflow (symbol : String) (type : UInt32)
  | unsupported (symbol : String) (type : UInt32)
  | outside (symbol : String) (type : UInt32)
  | tooLarge (sectionName : String)
  | outOfMemory
  | unmappable
  deriving DecidableEq, Repr

def LinkError.text : LinkError → String
  | .undefined names => "undefined symbol " ++ ", ".intercalate (names.map fun n => "'" ++ n ++ "'")
  | .overflow symbol type =>
    "relocation " ++ toString type.toNat ++ " against '" ++ symbol ++ "' out of range"
  | .unsupported symbol type =>
    "unsupported relocation " ++ toString type.toNat ++ " against '" ++ symbol ++ "'"
  | .outside symbol type =>
    "relocation " ++ toString type.toNat ++ " against '" ++ symbol ++ "' outside its section"
  | .tooLarge name => "section '" ++ name ++ "' is too large"
  | .outOfMemory => "could not map code: Cannot allocate memory (os error 12)"
  | .unmappable => "could not map code: memory map length overflows isize"

structure ImagePart where
  offset : Nat
  bytes : Array UInt8
  deriving DecidableEq, Repr

structure Image where
  base : UInt64
  size : Nat
  parts : List ImagePart
  /-- The addresses of the global symbols that are defined; a later entry hides an earlier one. -/
  symbols : List (String × UInt64)
  deriving DecidableEq, Repr

namespace Image

def symbol? (image : Image) (name : String) : Option UInt64 := image.symbols.reverse.lookup name

def bytes (image : Image) : Array UInt8 :=
  image.parts.foldl (fun out part => overwrite out part.offset part.bytes.toList)
    (Array.replicate image.size 0)

end Image

abbrev LinkM := EStateM LinkError Arena

namespace Link

def placeCommon (index : Nat) : LinkM Unit := do
  let arena ← get
  let sym := arena.symbol arena.symtab index
  if sym.index != SectionIndex.common then return
  let align := max sym.value 1
  let bss := arena.get arena.bss
  let (_, bss) := ({ bss with align := max bss.align align }).alignTo align
  set (arena.update arena.bss fun _ => bss)
  match bss.grow? sym.size.toNat with
  | none => throw (.tooLarge bss.name)
  | some (offset, bss) =>
    let arena := (← get).update arena.bss fun _ => bss
    set (arena.setSymbol arena.symtab index
      { sym with index := UInt16.ofNat bss.number, value := UInt64.ofNat offset })

def symbolIndexes (arena : Arena) : List Nat :=
  List.range' 1 (arena.symbolCount arena.symtab - 1)

def placeCommons : LinkM Unit := do
  (symbolIndexes (← get)).forM placeCommon

def resolveSymbol (lookup : String → Option UInt64) (index : Nat) : LinkM (Option String) := do
  let arena ← get
  let sym := arena.symbol arena.symtab index
  if sym.index != SectionIndex.undef || sym.isLocal then return none
  let name := arena.symbolName arena.symtab index
  match lookup name with
  | some address =>
    set (arena.setSymbol arena.symtab index { sym with index := SectionIndex.abs, value := address })
    return none
  | none => return if sym.binding == Binding.weak then none else some name

/-- Bind the undefined symbols to what `lookup` finds. Weak ones may stay undefined. -/
def resolve (lookup : String → Option UInt64) : LinkM Unit := do
  let missing ← (symbolIndexes (← get)).filterMapM (resolveSymbol lookup)
  if !missing.isEmpty then throw (.undefined missing)

def addOnce (slots : List Nat) (symbol : Nat) : List Nat :=
  if slots.contains symbol then slots else slots ++ [symbol]

/-- The symbols with an entry in the global offset table and those with a jump slot, each in the
order of first use. A call gets a slot when its target is outside the image. -/
def tables (arena : Arena) (sections : List SectionId) : List Nat × List Nat :=
  (sections.flatMap arena.relocations).foldl (fun (got, plt) rel =>
    let symbol := rel.symbol.toNat
    if relocUsesGot rel.type then (addOnce got symbol, plt)
    else if rel.type == RelocType.plt32.code &&
        (arena.symbol arena.symtab symbol).index == SectionIndex.abs then
      (addOnce got symbol, addOnce plt symbol)
    else (got, plt)) ([], [])

def layout (arena : Arena) : UInt64 → List SectionId → List UInt64 × UInt64
  | size, [] => ([], size)
  | size, id :: rest =>
    let sec := arena.get id
    let start := alignUp size (max sec.align 1)
    let (offsets, stop) := layout arena (start + UInt64.ofNat sec.size) rest
    (start :: offsets, stop)

def symbolAddress (arena : Arena) (index : Nat) : UInt64 :=
  let sym := arena.symbol arena.symtab index
  if sym.index == SectionIndex.undef then 0
  else if sym.index == SectionIndex.abs then sym.value
  else match arena.byNumber? sym.index.toNat with
    | some id => (arena.get id).address + sym.value
    | none => 0

structure Plan where
  base : UInt64
  got : List Nat
  gotOffset : UInt64
  plt : List Nat
  pltOffset : UInt64
  addresses : Array UInt64
  deriving DecidableEq, Repr

namespace Plan

def gotPlace? (plan : Plan) (symbol : Nat) : Option UInt64 :=
  (plan.got.idxOf? symbol).map fun slot => plan.base + plan.gotOffset + 8 * UInt64.ofNat slot

def pltPlace? (plan : Plan) (symbol : Nat) : Option UInt64 :=
  (plan.plt.idxOf? symbol).map fun slot => plan.base + plan.pltOffset + 8 * UInt64.ofNat slot

def address (plan : Plan) (symbol : Nat) : UInt64 := plan.addresses[symbol]?.getD 0

def gotBytes (plan : Plan) : Bytes := plan.got.flatMap fun symbol => Bytes.ofUInt64 (plan.address symbol)

def jumpSlot (plan : Plan) (symbol : Nat) : Bytes :=
  let entry := (plan.gotPlace? symbol).getD 0
  let place := (plan.pltPlace? symbol).getD 0
  [0xff, 0x25] ++ Bytes.ofNatLE 4 (entry - (place + 6)).toNat ++ [0xcc, 0xcc]

def pltBytes (plan : Plan) : Bytes := plan.plt.flatMap plan.jumpSlot

/-- What a relocation refers to: the jump slot of a call that has one, else the symbol. -/
def target (plan : Plan) (rel : Relocation) : UInt64 :=
  let symbol := rel.symbol.toNat
  if rel.type == RelocType.plt32.code then (plan.pltPlace? symbol).getD (plan.address symbol)
  else plan.address symbol

end Plan

def relocError (symbol : String) (type : UInt32) : RelocFault → LinkError
  | .overflow => .overflow symbol type
  | .outOfBounds => .outside symbol type
  | .unsupported | .missingGot => .unsupported symbol type

def applyOne (arena : Arena) (plan : Plan) (start : UInt64) (contents : Array UInt8)
    (rel : Relocation) : Except LinkError (Array UInt8) :=
  let symbol := arena.symbolName arena.symtab rel.symbol.toNat
  if rel.offset.toNat > contents.size then .error (.outside symbol rel.type)
  else
    let room := contents.size - rel.offset.toNat
    match Reloc.patched rel.type room (start + rel.offset) (plan.target rel) rel.addend
        (plan.gotPlace? rel.symbol.toNat) with
    | .ok field => .ok (overwrite contents rel.offset.toNat field)
    | .error fault => .error (relocError symbol rel.type fault)

def applyAll (arena : Arena) (plan : Plan) (start : UInt64) :
    Array UInt8 → List Relocation → Except LinkError (Array UInt8)
  | contents, [] => .ok contents
  | contents, rel :: rest => do applyAll arena plan start (← applyOne arena plan start contents rel) rest

def relocatedPart (arena : Arena) (plan : Plan) (id : SectionId) (offset : UInt64) :
    Except LinkError ImagePart := do
  let sec := arena.get id
  let contents := if sec.isNobits then #[] else sec.contents
  let bytes ← applyAll arena plan sec.address contents (arena.relocations id)
  return ⟨offset.toNat, bytes⟩

/-- Ask for the memory of an image. A signed word has to hold its size. -/
def reserve (memory size : Nat) : LinkM Unit := do
  if size ≥ 0x8000000000000000 then throw .unmappable
  if size > memory then throw .outOfMemory

/-- Link the arena into an image at an address, with so many bytes of memory to hand. The arena keeps
the places given to symbols and sections, also after a failure. Without memory for the image, the
sections get no place. -/
def relocateIn (memory : Nat) (base : UInt64) (lookup : String → Option UInt64) : LinkM Image := do
  placeCommons
  resolve lookup
  let arena ← get
  let sections := arena.allocated
  let (got, plt) := tables arena sections
  let (offsets, stop) := layout arena 0 sections
  let gotOffset := alignUp stop 8
  let pltOffset := alignUp (gotOffset + 8 * UInt64.ofNat got.length) 16
  let size := max (pltOffset + 8 * UInt64.ofNat plt.length) 1
  reserve memory size.toNat
  modify fun arena => (sections.zip offsets).foldl (fun arena (id, offset) =>
    arena.update id fun sec => { sec with address := base + offset }) arena
  let arena ← get
  let addresses := (Array.range (arena.symbolCount arena.symtab)).map (symbolAddress arena)
  let plan : Plan := { base, got, gotOffset, plt, pltOffset, addresses }
  match (sections.zip offsets).mapM fun (id, offset) => relocatedPart arena plan id offset with
  | .error e => throw e
  | .ok parts =>
    let symbols := (arena.globals arena.symtab).filter fun (index, _) =>
      (arena.symbol arena.symtab index).index != SectionIndex.undef
    return {
      base
      size := size.toNat
      parts := parts ++ [⟨gotOffset.toNat, plan.gotBytes.toArray⟩, ⟨pltOffset.toNat, plan.pltBytes.toArray⟩]
      symbols := symbols.map fun (index, name) => (name, plan.address index) }

def usualMemory : Nat := 0x800000000

def relocate (base : UInt64) (lookup : String → Option UInt64) : LinkM Image :=
  relocateIn usualMemory base lookup

end Link
end OnePass
