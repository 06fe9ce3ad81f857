import OnePass.Elf.Object
import OnePass.Text.Ascii

/-! # Archives

An archive is a sequence of members behind a magic string. The first members may be an index from
symbol names to members and a table of long names. Members are loaded as long as one of them defines
a symbol that is still undefined. -/
namespace OnePass.Elf

structure Member where
  name : Bytes
  start : Nat
  size : Nat
  next : Nat
  deriving DecidableEq, Repr

/-- How an index is laid out. The first two have words of so many bytes. -/
inductive IndexKind where
  /-- A number of members, the members and as many names behind each other, all big-endian. -/
  | gnu (width : Nat)
  /-- Pairs of a place among the names and a member. -/
  | bsd (width : Nat)
  /-- Members, then which of them each symbol is in, and the names behind each other. -/
  | coff
  deriving DecidableEq, Repr

structure Archive where
  data : Array UInt8
  index : Option (IndexKind × Nat × Nat) := none
  longNames : Array UInt8 := #[]
  first : Nat
  deriving DecidableEq, Repr

namespace Archive

def magic : Bytes := Bytes.ofString "!<arch>\n"

def headerSize : Nat := 60

/-- A decimal number that a space may end; it does not begin with one and stays below 2^64. -/
def number? (field : Bytes) : Option Nat :=
  let digits := field.takeWhile (· != 0x20)
  if field.head? == some 0x20 then none
  else
    let valid := digits.all Ascii.isDigit
    let value := digits.foldl (fun n b => n * 10 + (b.toNat - 0x30)) 0
    if valid && value < 0x10000000000000000 then some value else none

/-- The name at the beginning of a part of the long name table. A zero ends it, and so does a slash before
a line end. A line end with anything else before it makes the name invalid. -/
def longName? (table : Bytes) : Option Bytes :=
  let line := table.takeWhile fun b => b != 0 && b != 0x0a
  match table[line.length]? with
  | some 0 => some line
  | some _ => if line.getLast? == some 0x2f then some line.dropLast else none
  | none => none

def memberName (longNames : Array UInt8) (field : Bytes) : Except MemberFault Bytes :=
  match field with
  | 0x2f :: digit :: rest =>
    if Ascii.isDigit digit then
      match number? (digit :: rest) with
      | none => .error .extendedName
      | some offset =>
        if offset ≤ longNames.size then
          match longName? (longNames.extract offset longNames.size).toList with
          | some name => .ok name
          | none => .error .extendedName
        else .error .extendedName
    else .ok (field.takeWhile (· != 0x20))
  | _ =>
    if field.contains 0x2f then .ok (field.takeWhile (· != 0x2f))
    else .ok (field.takeWhile (· != 0x20))

/-- The length of a name that stands before the contents of its member. -/
def storedLength? : Bytes → Option Bytes
  | 0x23 :: 0x31 :: 0x2f :: digit :: rest => if Ascii.isDigit digit then some (digit :: rest) else none
  | _ => none

/-- A name that stands before the contents, with its length. A zero may end it earlier. -/
def storedName? (data : Array UInt8) (contents size : Nat) (field : Bytes) : Option (Bytes × Nat) := do
  let length ← number? field
  if length > size then none
  let name ← slice? data contents length
  some (name.toList.takeWhile (· != 0), length)

def memberAt (data longNames : Array UInt8) (start : Nat) : Except MemberFault Member :=
  match slice? data start headerSize with
  | none => .error .header
  | some header =>
    if (header.extract 58 60).toList != [0x60, 0x0a] then .error .terminator
    else match number? (header.extract 48 58).toList with
      | none => .error .size
      | some size =>
        let contents := start + headerSize
        let next := contents + size + size % 2
        let field := (header.extract 0 16).toList
        match storedLength? field with
        | none => (memberName longNames field).map fun name => { name, start := contents, size, next }
        | some digits => match storedName? data contents size digits with
          | none => .error .extendedLength
          | some (name, length) => .ok { name, start := contents + length, size := size - length, next }

def memberData (data : Array UInt8) (member : Member) : Option (Array UInt8) :=
  slice? data member.start member.size

def nameIs (member : Member) (text : String) : Bool := member.name == Bytes.ofString text

def readLongNames (archive : Archive) (member : Member) : Except ArchiveFault Archive :=
  if nameIs member "//" then
    match memberData archive.data member with
    | some longNames => .ok { archive with longNames, first := member.next }
    | none => .error (.member .data)
  else .ok archive

def liftMember (result : Except MemberFault α) : Except ArchiveFault α :=
  match result with
  | .ok a => .ok a
  | .error fault => .error (.member fault)

def indexKind? (member : Member) : Option IndexKind :=
  if nameIs member "/" then some (.gnu 4)
  else if nameIs member "/SYM64/" then some (.gnu 8)
  else if nameIs member "__.SYMDEF" || nameIs member "__.SYMDEF SORTED" then some (.bsd 4)
  else if nameIs member "__.SYMDEF_64" || nameIs member "__.SYMDEF_64 SORTED" then some (.bsd 8)
  else none

def withIndex (archive : Archive) (kind : IndexKind) (member : Member) : Archive :=
  { archive with index := some (kind, member.start, member.size), first := member.next }

def parse (data : Array UInt8) : Except ArchiveFault Archive := do
  if data.size < 8 then throw .tooShort
  if (data.extract 0 8).toList ≠ magic then throw .identifier
  let archive : Archive := { data, first := 8 }
  if data.size = 8 then return archive
  let member ← liftMember (memberAt data #[] 8)
  match indexKind? member with
  | none => readLongNames archive member
  | some (.bsd width) => return archive.withIndex (.bsd width) member
  | some kind =>
    let archive := archive.withIndex kind member
    if archive.first ≥ data.size then return archive
    let member ← liftMember (memberAt data #[] archive.first)
    -- A second index counts, and the first one does not.
    if kind = .gnu 4 && nameIs member "/" then
      let archive := archive.withIndex .coff member
      if archive.first ≥ data.size then return archive
      readLongNames archive (← liftMember (memberAt data #[] archive.first))
    else readLongNames archive member

def word? (value : Bytes → Nat) (table : Array UInt8) (start width : Nat) : Option Nat :=
  (slice? table start width).map (value ·.toList)

def words? (value : Bytes → Nat) (table : Array UInt8) (start width count : Nat) : Option (List Nat) :=
  (slice? table start (width * count)).map fun words =>
    (List.range count).map fun i => value (words.extract (width * i) (width * (i + 1))).toList

def indexName? (text : Bytes) : Option Bytes :=
  let name := text.takeWhile (· != 0)
  if name.length < text.length then some name else none

def indexNames : Nat → Bytes → List (Option Bytes)
  | 0, _ => []
  | count + 1, text => indexName? text :: indexNames count (text.dropWhile (· != 0)).tail

def pairs : List α → List (α × α)
  | a :: b :: rest => (a, b) :: pairs rest
  | _ => []

/-- The names of an index and the members for them. -/
def indexEntries (table : Array UInt8) : IndexKind → Option (List (Option Bytes × Option Nat))
  | .gnu width => do
    let count ← word? Bytes.toNatBE table 0 width
    let members ← words? Bytes.toNatBE table width width count
    let text := (table.extract (width + width * count) table.size).toList
    some ((indexNames count text).zip (members.map some))
  | .bsd width => do
    let count := 2 * ((← word? Bytes.toNatLE table 0 width) / (2 * width))
    let places ← words? Bytes.toNatLE table width width count
    let stop := width + width * count
    let text ← slice? table (stop + width) (← word? Bytes.toNatLE table stop width)
    some ((pairs places).map fun (name, member) => (indexName? (text.toList.drop name), some member))
  | .coff => do
    let count ← word? Bytes.toNatLE table 0 4
    let members ← words? Bytes.toNatLE table 4 4 count
    let stop := 4 + 4 * count
    let count ← word? Bytes.toNatLE table stop 4
    let indices ← words? Bytes.toNatLE table (stop + 4) 2 count
    let text := (table.extract (stop + 4 + 2 * count) table.size).toList
    -- The members are counted from 1, in 16 bits.
    some ((indexNames count text).zip (indices.map fun index => members[(index + 0xffff) % 0x10000]?))

def indexEntry : Option Bytes × Option Nat → Except ArchiveFault (String × Nat)
  | (none, _) => .error .symbolName
  | (_, none) => .error .symbolMember
  | (some name, some member) => .ok ((Utf8.decode? name).getD "", member)

def symbols (archive : Archive) : Except LoadError (Option (List (String × Nat))) :=
  match archive.index with
  | none => .ok none
  | some (kind, start, size) =>
    match (slice? archive.data start size).bind (indexEntries · kind) with
    | none => .error (.malformed .archiveSymbolTable)
    | some entries =>
      match entries.mapM indexEntry with
      | .error fault => .error (.invalidArchive fault)
      | .ok entries => .ok (some entries)

def indexedMember (archive : Archive) (symbol : String) (offset : Nat) : Except ArchiveFault Member :=
  let found :=
    if offset < archive.first || offset ≥ archive.data.size then .error .offset
    else memberAt archive.data archive.longNames offset
  match found with
  | .ok member => .ok member
  | .error fault => .error (.noMember offset symbol fault)

/-- The bytes of the member that the index names for a symbol. -/
def read (archive : Archive) (symbol : String) (offset : Nat) : Except LoadError (Array UInt8) :=
  match archive.indexedMember symbol offset with
  | .error fault => .error (.invalidArchive fault)
  | .ok member => match memberData archive.data member with
    | some bytes => .ok bytes
    | none => .error (.malformed .memberTooLarge)

def isWanted (arena : Arena) (symbol : String) : Bool :=
  let index := arena.findSymbol arena.symtab symbol
  index != 0 && (arena.symbol arena.symtab index).index == SectionIndex.undef

/-- Go through the index once; the result is the offsets of the members loaded so far. -/
def sweep (read : String → Nat → Except LoadError (Array UInt8)) : List (String × Nat) → List Nat → LoadM (List Nat)
  | [], done => return done
  | (symbol, offset) :: rest, done => do
    if done.contains offset || !isWanted (← get) symbol then sweep read rest done
    else match read symbol offset with
      | .error e => throw e
      | .ok bytes =>
        Object.load bytes
        sweep read rest (offset :: done)

/-- Sweep until nothing more is loaded. -/
def sweeps (read : String → Nat → Except LoadError (Array UInt8)) (entries : List (String × Nat)) :
    Nat → List Nat → LoadM (List Nat)
  | 0, done => return done
  | fuel + 1, done => do
    let now ← sweep read entries done
    if now.length = done.length then return now else sweeps read entries fuel now

/-- Load the members that are wanted, given an index and what reads its members; the result is their number. Each
sweep but the last loads a new member, so one more than there are entries is enough. -/
def loadWanted (read : String → Nat → Except LoadError (Array UInt8)) (entries : List (String × Nat)) : LoadM Nat := do
  return (← sweeps read entries (entries.length + 1) []).length

/-- Load every object member from an offset on; the result is their number. A header takes room, so
the members are fewer than the bytes. -/
def loadAll (archive : Archive) : Nat → Nat → LoadM Nat
  | 0, _ => return 0
  | fuel + 1, offset => do
    if offset ≥ archive.data.size then return 0
    match memberAt archive.data archive.longNames offset with
    | .error fault => throw (.invalidArchive (.member fault))
    | .ok member =>
      match memberData archive.data member with
      | none => throw (.malformed .memberTooLarge)
      | some bytes =>
        let isObject := (bytes.extract 0 4).toList == File.elfMagic
        if isObject then Object.load bytes
        let rest ← loadAll archive fuel member.next
        return if isObject then rest + 1 else rest

def load (data : Array UInt8) : LoadM Nat := do
  match parse data with
  | .error fault => throw (.invalidArchive fault)
  | .ok archive =>
    match archive.symbols with
    | .error e => throw e
    | .ok none => archive.loadAll data.size archive.first
    | .ok (some entries) => loadWanted archive.read entries

end Archive

inductive InputKind where
  | object
  | sharedObject
  | archive
  | coff
  | script
  deriving DecidableEq, Repr

def coffMachines : List Nat := [0x8664, 0x014c, 0xaa64, 0x00c2]

def classify (data : Array UInt8) : Except LoadError InputKind :=
  if (data.extract 0 4).toList == File.elfMagic then
    match File.parse data with
    | .error e => .error e
    | .ok file =>
      if file.type = File.typeRelocatable then .ok .object
      else if file.type = File.typeShared then .ok .sharedObject
      else .error (.unrecognizedType file.type)
  else if (data.extract 0 8).toList == Archive.magic then .ok .archive
  else if data.size ≥ 2 && coffMachines.contains (readLE data 0 2) then .ok .coff
  else .ok .script

end OnePass.Elf
