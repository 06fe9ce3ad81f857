import OnePass.Compile.Statement

/-! # Functions and whole units -/
namespace OnePass.Compile

/-! ## Functions -/

/-- Give a parameter its place: the first ones are stored from their registers, the others were pushed
before the call. -/
def parameterOffset (index : Nat) (ty : CType) (extent : Extent) : CompileM Int32 := do
  match argumentRegisters[index]? with
  | some reg => storeParameter reg ty extent
  | none => return Int32.ofNat (16 + 8 * (index - argumentRegisters.length))

def bindParameter (index : Nat) (ty : CType) (name : Option String) : CompileM Unit := do
  if ty.isStruct then fail .structParameter
  if ty.isFloat then fail .floating
  let extent ← extentOr .incompleteParameter ty
  let offset ← parameterOffset index ty extent
  if let some name := name then
    let _ ← declare .ident { name := .ident name, type := ty, storage := .frame offset }

def bindParameters : Nat → List (CType × Option String) → CompileM Unit
  | _, [] => return
  | index, (ty, name) :: rest => do
    bindParameter index ty name
    bindParameters (index + 1) rest

def checkLabels : CompileM Unit := do
  let labels ← modifyGet fun s =>
    let (labels, scope) := s.scope.takeLabels
    (labels, { s with scope })
  labels.forM fun id => do
    let e ← entity id
    match e.storage with
    | .label none _ => fail (.undefinedLabel e.name.text)
    | _ => pure ()

def functionCode (params : List (CType × Option String)) (frameHole : Nat) (isMain : Bool) :
    CompileM Unit := do
  bindParameters 0 params
  functionBody statement
  let returns := ((← get).function.map (·.returns)).getD []
  modify fun s => { s with function := none }
  epilogue frameHole returns isMain
  checkLabels

def function (id : EntityId) : CompileM Unit := do
  let e ← entity id
  match e.type with
  | .func result params info _ =>
    let text := e.section_.getD (← get).arena.text
    modify fun s => { s with text }
    let index ← sectionIndex text
    let start ← position
    bind id index (UInt64.ofNat start) 0
    let frameHole ← prologue
    modify fun s => { s with function := some { entity := id, result }, values := [] }
    inScope (functionCode (params.zip info.names) frameHole (e.name == .ident "main"))
    let size := (← position) - start
    bind id index (UInt64.ofNat start) (UInt64.ofNat size)
    modify fun s => { s with text := s.arena.text }
  | _ => fail .functionTypeExpected

/-! ## Units -/

def externalDeclaration : CompileM Unit := do
  if ← accept .semicolon then return
  if ← atKeyword .asm then fail .inlineAssembly
  declaration (some function)

def checkOperands : CompileM Unit := do
  let count := (← get).values.length
  if count > 0 then
    warn (.valuesLeft count)
    modify fun s => { s with values := [] }

def pendingFunctions (s : Compiler) : List Nat :=
  (List.range s.deferred.size).filter fun i =>
    match s.deferred[i]? with
    | some f => !f.done && (s.scope.get f.entity).flags.used
    | none => false

def deferredFunction (index : Nat) : CompileM Unit := do
  if let some f := (← get).deferred[index]? then
    modify fun s => { s with deferred := s.deferred.modify index ({ · with body := [], done := true }) }
    rewind f.body
    function f.entity

/-- Compile deferred functions until nothing refers to one that is left. -/
def deferredFunctions : CompileM Unit :=
  while_ do
    let pending := pendingFunctions (← get)
    pending.forM deferredFunction
    return !pending.isEmpty

def wholeUnit : CompileM Unit := do
  next
  while_ do
    if (← token).isEof then return false
    externalDeclaration
    checkOperands
    return true
  deferredFunctions

/-- Compile the input of a preprocessor into sections. Both are kept when it fails. -/
def compile (host : Host) (settings : Settings) (pre : Preprocessor) (arena : Elf.Arena) :
    Except Stop Unit × Preprocessor × Elf.Arena :=
  match wholeUnit (env host settings) { pre, arena, text := arena.text } with
  | .ok _ s => (.ok (), s.pre, s.arena)
  | .error e s => (.error e, s.pre, s.arena)

end OnePass.Compile
