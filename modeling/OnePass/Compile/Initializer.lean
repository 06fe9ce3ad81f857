import OnePass.Compile.Expression

/-! # Initializers

The bytes of an object with static storage are written into its section, and addresses become
relocations. An object in the frame is filled with zeros and then assigned to, element by element.
Inner braces may be left out, and designators move to another element. -/
namespace OnePass

inductive InitTarget where
  | static (sec : Elf.SectionId)
  | frame
  deriving DecidableEq, Repr

namespace Compile

/-! ## Arrays without a length -/

def designatorIndex : CompileM UInt64 := do
  let index ← constant
  if index < 0 then fail .negativeIndex
  expect .rbracket
  let _ ← accept .assign
  return index.toUInt64

def stringLength : CompileM UInt64 := return UInt64.ofNat ((← stringUnits).1.length + 1)

def countList : CompileM UInt64 := do
  let count ← loop ((0 : UInt64), (0 : UInt64)) fun (index, count) => do
    if ← atPunct .rbrace then return .inr count
    let index ← if ← accept .lbracket then designatorIndex else pure index
    if ← atPunct .lbrace then
      let _ ← readGroup .lbrace .rbrace
    else
      assignment
      pop
    let index := index + 1
    let count := max count index
    return if ← accept .comma then .inl (index, count) else .inr count
  expect .rbrace
  return count

def countElements (elem : CType) : CompileM UInt64 := do
  let mayBeText := elem.isInteger
  if mayBeText && (← atString) then return ← stringLength
  if !(← accept .lbrace) then fail .initializer
  if mayBeText && (← atString) then
    let length ← stringLength
    let _ ← accept .comma
    expect .rbrace
    return length
  countList

/-- Give an array without a length the one of its initializer, which is read twice. -/
def completeArray (ty : CType) : CompileM CType := do
  match ty with
  | .array elem none q =>
    startRecording
    let length ← withoutData (countElements elem)
    rewind (← stopRecording)
    return .array elem (some length) { isConst := q.isConst }
  | _ => return ty

/-! ## Scalars and strings -/

def writeStatic (sec : Elf.SectionId) (offset : UInt64) (ty : CType) (v : Value) : CompileM Unit := do
  let width := ty.width.1
  match v.const?, v.place with
  | some value, _ => writeSection sec offset.toNat ((Bytes.ofInt64 value).take width)
  | none, .symbol id addend =>
    if v.lvalue || width != 8 then fail .notConstant
    let symbol ← symbolOf id
    let rel : Elf.Relocation :=
      { offset, symbol := UInt32.ofNat symbol, type := Elf.RelocType.abs64.code, addend }
    modify fun s => { s with arena := s.arena.putRelocation s.arena.symtab sec rel }
  | none, _ => fail .notConstant

def scalarInitializer (target : InitTarget) (offset : Int64) (ty : CType) : CompileM Unit := do
  match target with
  | .static sec =>
    let v ← withoutCode do
      assignment
      convertTo ty
      let v ← top
      pop
      return v
    writeStatic sec offset.toUInt64 ty v
  | .frame =>
    push { type := ty.unqualified, place := .frame offset.toInt32, lvalue := true }
    assignment
    if !ty.isStruct then convertTo ty
    store
    pop

/-- A string literal for an array of integers. It is cut to the length of the array. -/
def stringInitializer (target : InitTarget) (offset : Int64) (elem : CType) (length : Option UInt64) :
    CompileM Unit := do
  let (units, _) ← stringUnits
  if let some n := length then
    if units.length > n.toNat then warn .longString
  let kept := match length with
    | some n => (units ++ [0]).take n.toNat
    | none => units ++ [0]
  let bytes := unitBytes elem.width.1 kept
  match target with
  | .static sec => writeSection sec offset.toUInt64.toNat bytes
  | .frame => storeBytes offset.toInt32 bytes

/-! ## Lists -/

/-- Go to the next element if there is one. An aggregate without braces of its own leaves a
designator or a closing brace to the enclosing one. -/
def nextElement (braced : Bool) : CompileM Bool := do
  if !(← atPunct .comma) then return false
  if !braced then
    let behind ← peek
    if behind.isPunct .rbrace || behind.isPunct .dot || behind.isPunct .lbracket then return false
  next
  return true

def isFull (length : Option UInt64) (index : UInt64) : Bool :=
  match length with
  | some n => index ≥ n
  | none => false

def arrayElements (element : InitTarget → Int64 → CType → CompileM Unit) (target : InitTarget)
    (offset : Int64) (elem : CType) (length : Option UInt64) (braced : Bool) : CompileM Unit := do
  match elem.extent? (← get).scope.structs with
  | none => fail .unknownSize
  | some extent =>
    loop (0 : UInt64) fun index => do
      if ← atPunct .rbrace then return .inr ()
      let atDesignator ← atPunct .lbracket
      if atDesignator && !braced then return .inr ()
      let index ← if atDesignator then do
          next
          designatorIndex
        else pure index
      if isFull length index then fail .excessElements
      element target (offset + (index * extent.size).toInt64) elem
      let index := index + 1
      if !braced && isFull length index then return .inr ()
      return if ← nextElement braced then .inl index else .inr ()

def designatedMember (fields : List Field) : CompileM Nat := do
  next
  let name ← expectName
  match fields.findIdx? (·.name == .ident name) with
  | none => fail (.noMember name)
  | some i =>
    let _ ← accept .assign
    return i

def structMembers (element : InitTarget → Int64 → CType → CompileM Unit) (target : InitTarget)
    (offset : Int64) (id : StructId) (braced : Bool) : CompileM Unit := do
  match (← get).scope.struct? id with
  | none => fail .incompleteInitializer
  | some sd =>
    if !sd.defined then fail .incompleteInitializer
    loop 0 fun i => do
      if ← atPunct .rbrace then return .inr ()
      let atDesignator ← atPunct .dot
      if atDesignator && !braced then return .inr ()
      let i ← if atDesignator then designatedMember sd.fields else pure i
      match sd.fields[i]? with
      | none => if braced then fail .excessMembers else return .inr ()
      | some field =>
        element target (offset + field.offset.toInt64) field.type
        let i := if sd.isUnion then sd.fields.length else i + 1
        if !braced && i ≥ sd.fields.length then return .inr ()
        return if ← nextElement braced then .inl i else .inr ()

def initializerWith (element : InitTarget → Int64 → CType → CompileM Unit) (target : InitTarget)
    (offset : Int64) (ty : CType) : CompileM Unit := do
  match ty with
  | .array elem length _ =>
    if elem.isInteger && (← atString) then stringInitializer target offset elem length
    else
      if !(← accept .lbrace) then fail .initializer
      if elem.isInteger && (← atString) then
        stringInitializer target offset elem length
        let _ ← accept .comma
      else arrayElements element target offset elem length true
      expect .rbrace
  | .struct id _ =>
    if ← accept .lbrace then
      structMembers element target offset id true
      expect .rbrace
    else if target = .frame then scalarInitializer target offset ty
    else fail .initializer
  | _ =>
    if ← accept .lbrace then
      scalarInitializer target offset ty
      let _ ← accept .comma
      expect .rbrace
    else scalarInitializer target offset ty

/-- An element in a list. An aggregate without braces takes as many values as it needs. The depth
bounds how far aggregates nest. -/
def elementAt : Nat → InitTarget → Int64 → CType → CompileM Unit
  | 0, _, _, _ => throw .exhausted
  | depth + 1, target, offset, ty => do
    let element := elementAt depth
    if ← atPunct .lbrace then initializerWith element target offset ty
    else match ty with
      | .array elem length _ =>
        if elem.isInteger && (← atString) then stringInitializer target offset elem length
        else arrayElements element target offset elem length false
      | .struct id _ => structMembers element target offset id false
      | _ => scalarInitializer target offset ty

def initializer (target : InitTarget) (offset : Int64) (ty : CType) : CompileM Unit := do
  initializerWith (elementAt (← read).host.fuel) target offset ty

def localInitializer (offset : Int32) (ty : CType) : CompileM Unit := do
  if ty.isArray || (ty.isStruct && (← atPunct .lbrace)) then
    zeroLocal offset (((ty.extent? (← get).scope.structs).map (·.size)).getD 0)
  initializer .frame offset.toInt64 ty

end Compile
end OnePass
