import OnePass.Compile.Initializer

/-! # Declarations

A declaration binds names in the current block. A name may be declared several times if the types
agree; objects with static storage are laid out when they are defined. -/
namespace OnePass.Compile

structure Declared where
  name : String
  type : CType
  spec : Specifiers
  attrs : Attributes
  label : Option String

def lookup? (name : String) : CompileM (Option (EntityId × Entity)) := do
  let scope := (← get).scope
  return (scope.find? .ident (.ident name)).map fun id => (id, scope.get id)

def isHere (e : Entity) : CompileM Bool := return e.depth == (← get).scope.depth

def declareTypedef (name : String) (ty : CType) : CompileM Unit := do
  if let some (_, old) ← lookup? name then
    if ← isHere old then
      if old.storage == .typedef && old.type.compatible ty then return
      fail (.redefinition name)
  let _ ← declare .ident { name := .ident name, type := ty, storage := .typedef }

/-! ## Functions -/

def redeclareFunction (d : Declared) (e : Entity) : Entity :=
  let hasParameters := match e.type, d.type with
    | .func _ _ old _, .func _ _ new _ => old.oldStyle && !new.oldStyle
    | _, _ => false
  { e with
    type := if hasParameters then d.type else e.type
    flags := { e.flags with
      isWeak := e.flags.isWeak || d.attrs.weak
      noReturn := e.flags.noReturn || d.attrs.noReturn
      isInline := e.flags.isInline || d.spec.isInline
      isStatic := e.flags.isStatic || d.spec.storage == .static }
    asmLabel := if d.label.isSome && e.symbol == 0 then d.label else e.asmLabel }

def attributeSection? (attrs : Attributes) (isCode : Bool) : CompileM (Option Elf.SectionId) := do
  match attrs.section_ with
  | some name => return some (← namedSection name isCode)
  | none => return none

/-- A function declared for the first time. In a block it is bound at file scope, unless another
entity of its name is visible. -/
def newFunction (d : Declared) : CompileM EntityId := do
  let e : Entity :=
    { name := .ident d.name, type := d.type, storage := .global
      flags := { isStatic := d.spec.storage == .static, isExternal := d.spec.storage == .external
                 isWeak := d.attrs.weak, isInline := d.spec.isInline, noReturn := d.attrs.noReturn }
      asmLabel := d.label, section_ := ← attributeSection? d.attrs true }
  let scope := (← get).scope
  if scope.depth > 0 && (scope.find? .ident (.ident d.name)).isNone then
    modifyGet fun s =>
      let (id, scope) := s.scope.pushGlobal .ident e
      (id, { s with scope })
  else declare .ident e

def declareFunction (d : Declared) : CompileM EntityId := do
  if let some (id, old) ← lookup? d.name then
    if old.type.isFunc && old.storage == .global then
      if !old.type.compatible d.type then fail (.redefinedType d.name)
      modifyEntity id (redeclareFunction d)
      return id
    if ← isHere old then fail (.redefinition d.name)
  newFunction d

/-- A function definition at its opening brace. A function that is both static and inline is kept
until something refers to it; `body` compiles the others. -/
def functionDefinition (d : Declared) (body : EntityId → CompileM Unit) : CompileM Unit := do
  let id ← declareFunction d
  if (← entity id).flags.defined then fail (.redefinition d.name)
  let section_ ← attributeSection? d.attrs true
  modifyEntity id fun e =>
    { e with type := d.type, flags := { e.flags with defined := true }
             section_ := section_.or e.section_ }
  let e ← entity id
  if e.flags.isStatic && e.flags.isInline then
    let tokens ← readGroup .lbrace .rbrace
    modify fun s => { s with deferred := s.deferred.push { entity := id, body := tokens } }
  else body id

/-! ## Objects -/

def redeclareObject (d : Declared) (e : Entity) : Entity :=
  { e with
    type := if e.type.arrayLength?.isNone && d.type.arrayLength?.isSome then d.type else e.type
    flags := { e.flags with
      isWeak := e.flags.isWeak || d.attrs.weak
      isExternal := e.flags.isExternal && d.spec.storage == .external }
    asmLabel := if d.label.isSome && e.symbol == 0 then d.label else e.asmLabel }

def bindObject (d : Declared) : CompileM EntityId := do
  if let some (id, old) ← lookup? d.name then
    if ← isHere old then
      if old.storage != .global || old.type.isFunc then fail (.redefinition d.name)
      if !old.type.compatible d.type then fail (.redefinedType d.name)
      modifyEntity id (redeclareObject d)
      return id
  declare .ident
    { name := .ident d.name, type := d.type, storage := .global
      flags := { isStatic := d.spec.storage == .static, isExternal := d.spec.storage == .external
                 isWeak := d.attrs.weak }
      asmLabel := d.label, align := d.attrs.aligned, section_ := ← attributeSection? d.attrs false }

def extentOr (fault : CompileFault) (ty : CType) : CompileM Extent := do
  match ty.extent? (← get).scope.structs with
  | some extent => return extent
  | none => fail fault

def defineInitialized (id : EntityId) : CompileM Unit := do
  let e ← entity id
  if e.flags.defined then fail (.redefinition e.name.text)
  let ty ← completeArray e.type
  let extent ← extentOr .unknownSize ty
  let arena := (← get).arena
  let sec := e.section_.getD arena.data
  if (arena.get sec).isNobits then fail (.nobitsInitializer (arena.get sec).name)
  let offset ← allocStatic sec extent.size (max extent.align e.align)
  modifyEntity id fun e =>
    { e with type := ty
             flags := { e.flags with defined := true, tentative := false, isExternal := false } }
  bind id (← sectionIndex sec) offset extent.size
  initializer (.static sec) offset.toInt64 ty

def defineTentative (id : EntityId) : CompileM Unit := do
  let e ← entity id
  if e.flags.defined then return
  if e.flags.tentative then
    if (← settings).common then return
    fail (.redefinition e.name.text)
  let ty ← match e.type with
    | .array elem none _ => do
      warn (.oneElement e.name.text)
      pure (elem.arrayOf (some 1))
    | ty => pure ty
  let extent ← extentOr .unknownSize ty
  modifyEntity id fun e => { e with type := ty, flags := { e.flags with tentative := true } }
  allocTentative id extent.size (max extent.align e.align)

def declareLocal (d : Declared) : CompileM Unit := do
  if let some (_, old) ← lookup? d.name then
    if ← isHere old then fail (.redeclaration d.name)
  let hasInitializer ← accept .assign
  let ty ← if hasInitializer then completeArray d.type else pure d.type
  let extent ← extentOr (.unknownStorage d.name) ty
  let offset ← allocLocal extent.size (max extent.align d.attrs.aligned)
  let _ ← declare .ident { name := .ident d.name, type := ty, storage := .frame offset }
  if hasInitializer then localInitializer offset ty

def declareStatic (d : Declared) (isGlobal : Bool) : CompileM Unit := do
  let id ← bindObject d
  if ← accept .assign then
    if d.spec.storage == .external then
      if !isGlobal then fail (.externalInitializer d.name)
      warn (.externalInitialized d.name)
    defineInitialized id
  else if d.spec.storage != .external then defineTentative id

def declareObject (d : Declared) (isGlobal : Bool) : CompileM Unit := do
  if d.type.isVoid then fail (.voidVariable d.name)
  if !isGlobal && d.spec.storage == .unspecified then declareLocal d
  else declareStatic d isGlobal

/-! ## Whole declarations -/

def declared (spec : Specifiers) : CompileM Declared := do
  let d ← declarator spec.type spec.attrs
  let label ← asmLabel?
  let attrs ← attributes d.attrs
  match d.name with
  | none => fail (.identifierExpected (← tokenText))
  | some name => return { name, type := d.type, spec, attrs, label }

def declareOne (d : Declared) (isGlobal : Bool) : CompileM Unit := do
  if d.spec.storage == .typedef then declareTypedef d.name d.type
  else if d.type.isFunc then
    let _ ← declareFunction d
  else declareObject d isGlobal

/-- The declarators of a declaration. The result says that they were a function definition, which
only the first one can be. -/
def declarators (spec : Specifiers) (body : Option (EntityId → CompileM Unit)) : CompileM Bool :=
  loop true fun isFirst => do
    let d ← declared spec
    if d.type.isFunc && (← atPunct .lbrace) then
      match body with
      | none => fail .misplacedFunction
      | some body =>
        if !isFirst || spec.storage == .typedef then fail .misplacedFunction
        functionDefinition d body
        return .inr true
    else
      declareOne d body.isSome
      return if ← accept .comma then .inl false else .inr false

/-- A declaration. At file scope `body` compiles the body of a function; in a block there is none. -/
def declaration (body : Option (EntityId → CompileM Unit)) : CompileM Unit := do
  match ← specifiers? with
  | none => fail (.declarationExpected (← tokenText))
  | some spec =>
    if ← accept .semicolon then return
    if !(← declarators spec body) then expect .semicolon

end OnePass.Compile
