import OnePass.Compile.Binding
import OnePass.Compile.Declarator

/-! # Structs, unions and enumerations -/
namespace OnePass.Compile

def declare (ns : Namespace) (e : Entity) : CompileM EntityId :=
  modifyGet fun s =>
    let (id, scope) := s.scope.push ns e
    (id, { s with scope })

def freshName : CompileM Name :=
  modifyGet fun s =>
    let (name, scope) := s.scope.freshName
    (name, { s with scope })

def newStruct (tag : Name) (isUnion : Bool) : CompileM StructId :=
  modifyGet fun s =>
    let (id, scope) := s.scope.newStruct tag isUnion
    (id, { s with scope })

def newTag (tag : String) (isUnion : Bool) : CompileM StructId := do
  let id ← newStruct (.ident tag) isUnion
  let _ ← declare .tag { name := .ident tag, type := .struct id {}, storage := .tag }
  return id

def tagName : CompileM (Option String × Attributes) := do
  next
  let attrs ← attributes {}
  let tag ← name?
  if tag.isSome then next
  return (tag, attrs)

/-! ## Members -/

def addMember (fields : List Field) (d : Declarator) : CompileM (List Field) := do
  if d.type.isFunc then fail .functionMember
  match d.name with
  | none => fail .memberNameExpected
  | some name =>
    if fields.any (·.name == .ident name) then fail (.duplicateMember name)
    return { name := .ident name, type := d.type } :: fields

def memberDeclarators (spec : Specifiers) (fields : List Field) : CompileM (List Field) :=
  loop fields fun fields => do
    let d ← declarator spec.type spec.attrs
    if ← atPunct .colon then fail .bitField
    let _ ← attributes d.attrs
    let fields ← addMember fields d
    return if ← accept .comma then .inl fields else .inr fields

/-- A member without a name has to be a struct or union without a tag; others declare nothing. -/
def unnamedMember (spec : Specifiers) (fields : List Field) : CompileM (List Field) := do
  match spec.type.structId?.bind (← get).scope.struct? with
  | some sd =>
    if sd.tag.isAnonymous then return { name := ← freshName, type := spec.type } :: fields
    return fields
  | none => return fields

def members : CompileM (List Field) := do
  expect .lbrace
  let fields ← loop [] fun fields => do
    if ← accept .rbrace then return .inr fields
    match ← specifiers? with
    | none => fail (.declarationExpected (← tokenText))
    | some spec =>
      if spec.storage != .unspecified then fail .storageInMember
      if ← accept .semicolon then return .inl (← unnamedMember spec fields)
      let fields ← memberDeclarators spec fields
      expect .semicolon
      return .inl fields
  return fields.reverse

/-- The members that can be named: those of an unnamed member in its place. -/
def visibleFields (structs : Array StructDef) (fields : List Field) : List Field :=
  fields.flatMap fun field =>
    if field.name.isAnonymous then
      match field.type.structId? with
      | some inner =>
        (((structs[inner]?).map (·.fields)).getD []).map fun f =>
          { f with offset := f.offset + field.offset }
      | none => [field]
    else [field]

def structBody (id : StructId) (attrs : Attributes) : CompileM Unit := do
  let fields ← members
  let attrs ← attributes attrs
  let structs := (← get).scope.structs
  let isUnion := ((structs[id]?).map (·.isUnion)).getD false
  match Layout.fields structs isUnion attrs.aligned fields with
  | .error fault => fail (.layout fault)
  | .ok (placed, extent) =>
    let fields := visibleFields structs placed
    modify fun s => { s with scope := { s.scope with
      structs := s.scope.structs.modify id fun sd =>
        { sd with fields, size := extent.size, align := extent.align, defined := true } } }

def structOfTag? (tag : Option String) (isUnion : Bool) : CompileM (Option (StructId × Nat)) := do
  let scope := (← get).scope
  match tag with
  | none => return none
  | some name =>
    match scope.find? .tag (.ident name) with
    | none => return none
    | some e =>
      let e := scope.get e
      match e.type.structId? with
      | none => fail (.wrongTag name)
      | some id =>
        if ((scope.struct? id).map (·.isUnion)) == some isUnion then return some (id, e.depth)
        fail (.wrongTag name)

def structToDefine (tag : Option String) (found : Option (StructId × Nat)) (isUnion : Bool) :
    CompileM StructId := do
  let scope := (← get).scope
  match tag, found with
  | none, _ => newStruct (← freshName) isUnion
  | some tag, none => newTag tag isUnion
  | some tag, some (id, depth) =>
    if depth != scope.depth then newTag tag isUnion
    else
      if ((scope.struct? id).map (·.defined)) == some true then fail .tagDefined
      return id

def structSpecifier (isUnion : Bool) : CompileM CType := do
  let (tag, attrs) ← tagName
  let found ← structOfTag? tag isUnion
  if ← atPunct .lbrace then
    let id ← structToDefine tag found isUnion
    structBody id attrs
    return .struct id {}
  match tag, found with
  | none, _ => fail (.identifierExpected (← tokenText))
  | some _, some (id, _) => return .struct id {}
  | some tag, none => return .struct (← newTag tag isUnion) {}

/-! ## Enumerations -/

def inThisBlock? (scope : Scope) (name : String) : Option Entity :=
  (scope.find? .ident (.ident name)).bind fun id =>
    let e := scope.get id
    if e.depth == scope.depth then some e else none

/-- The constants of an enumeration. Each has the value after the one before it unless it is given. -/
def enumerators : CompileM Unit :=
  loop (0 : Int64) fun value => do
    if ← accept .rbrace then return .inr ()
    let name ← expectName
    let value ← if ← accept .assign then constant else pure value
    if (inThisBlock? (← get).scope name).isSome then fail (.redefinition name)
    let _ ← declare .ident
      { name := .ident name, type := .plainInt, storage := .enumConst value.toInt32.toInt64 }
    if ← accept .comma then return .inl (value + 1)
    expect .rbrace
    return .inr ()

def enumTag (tag : String) : CompileM Unit := do
  let scope := (← get).scope
  match scope.find? .tag (.ident tag) with
  | some id => if (scope.get id).type.structId?.isSome then fail (.wrongTag tag)
  | none =>
    let _ ← declare .tag { name := .ident tag, type := .plainInt, storage := .tag }

def enumSpecifier : CompileM CType := do
  let (tag, _) ← tagName
  if let some tag := tag then enumTag tag
  if ← accept .lbrace then enumerators
  else if tag.isNone then fail (.identifierExpected (← tokenText))
  return .plainInt

end OnePass.Compile
