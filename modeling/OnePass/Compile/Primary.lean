import OnePass.Compile.Call
import OnePass.Compile.Record

/-! # Primary and postfix expressions -/
namespace OnePass.Compile

/-! ## Literals -/

/-- The type of an integer literal: the first of `int`, `unsigned int`, `long` and `unsigned long` that
holds the value. A decimal literal without `u` is unsigned only if nothing else holds it. -/
def literalType (lit : IntLiteral) : CType :=
  let value := lit.value.toNat
  if !lit.long && !lit.unsigned && value < 0x80000000 then .plainInt
  else if !lit.long && (lit.unsigned || !lit.decimal) && value < 0x100000000 then .plainUInt
  else if !lit.unsigned && value < 0x8000000000000000 then .plainLong
  else .plainULong

def number (spelling : String) : CompileM Unit := do
  if Literal.isFloat spelling then fail .floating
  match Literal.integer spelling with
  | .error fault => fail (.literal fault)
  | .ok lit => pushConst (literalType lit) lit.value.toInt64

/-- A character constant has the value of its first unit. -/
def characterConstant (spelling : Bytes) : CompileM Unit := do
  match Literal.decode spelling with
  | .error fault => fail (.literal fault)
  | .ok d =>
    match d.units with
    | [] => fail .emptyCharacter
    | first :: _ =>
      let value :=
        if d.wide || (← settings).unsignedChar then Int64.ofNat first.toNat
        else first.toUInt8.toInt8.toInt64
      pushConst .plainInt value

def unitBytes (width : Nat) (units : List UInt32) : Bytes :=
  units.flatMap fun unit => Bytes.ofNatLE width unit.toNat

def pushString (units : List UInt32) (elem : CType) : CompileM Unit := do
  let width := elem.width.1
  let type := elem.arrayOf (some (UInt64.ofNat units.length))
  if (← get).noData then push { type, place := .const 0, lvalue := true }
  else
    let bytes := unitBytes width units
    let e : Entity := { name := ← freshName, type, storage := .global,
                        flags := { isStatic := true, defined := true } }
    let id ← modifyGet fun s =>
      let (id, scope) := s.scope.alloc e
      (id, { s with scope })
    let data := (← get).arena.data
    let size := UInt64.ofNat bytes.length
    let offset ← allocStatic data size (UInt64.ofNat width)
    writeSection data offset.toNat bytes
    bind id (← sectionIndex data) offset size
    push { type, place := .symbol id 0, lvalue := true }

def constChar : CompileM CType := do
  return (CType.plainChar (← settings).unsignedChar).withQuals { isConst := true }

def stringExpression : CompileM Unit := do
  let (units, wide) ← stringUnits
  let unsignedChar := (← settings).unsignedChar
  let elem : CType := if wide then .plainInt else .plainChar unsignedChar
  pushString (units ++ [0]) (if (← switches).writeStrings then elem.withQuals { isConst := true } else elem)

def functionNameString : CompileM Unit := do
  match (← get).function with
  | none => fail .functionNameOutside
  | some f =>
    let name := ((← get).scope.get f.entity).name.text
    next
    pushString ((Bytes.ofString name).map (·.toUInt32) ++ [0]) (← constChar)

/-! ## Names -/

/-- A function that is called before any declaration returns `int` and takes anything. -/
def implicitFunction (name : String) : CompileM EntityId := do
  if (← switches).implicitFunction then warn (.implicitFunction name)
  let e : Entity := { name := .ident name, type := .func .plainInt [] { oldStyle := true } {},
                      storage := .global, flags := { isExternal := true } }
  modifyGet fun s =>
    let (id, scope) := s.scope.pushGlobal .ident e
    (id, { s with scope })

def pushEntity (name : String) (id : EntityId) : CompileM Unit := do
  let e ← entity id
  match e.storage with
  | .enumConst value => pushConst .plainInt value
  | .frame offset => push { type := e.type, place := .frame offset, lvalue := true }
  | .global => push { type := e.type, place := .symbol id 0, lvalue := true }
  | _ => fail (.noValue name)

def identifier (name : String) : CompileM Unit := do
  match (← get).scope.find? .ident (.ident name) with
  | some id =>
    next
    pushEntity name id
  | none =>
    if name == "__func__" then functionNameString
    else
      if !(← peek).isPunct .lparen then fail (.undeclared name)
      let id ← implicitFunction name
      next
      pushEntity name id

def primary : CompileM Unit := do
  match (← token).kind with
  | .number spelling =>
    number spelling
    next
  | .char spelling =>
    characterConstant spelling
    next
  | .string _ => stringExpression
  | .punct .lparen =>
    next
    expression
    expect .rparen
  | _ =>
    match ← name? with
    | some name => identifier name
    | none => fail (.expressionExpected (← tokenText))

/-! ## Postfix operators -/

def memberAccess : CompileM Unit := do
  match (← top).type.structId? with
  | none => fail .structExpected
  | some id =>
    let name ← expectName
    match (← get).scope.findField? id name with
    | none => fail (.noField name)
    | some field => member field

def convertArgument (params : List CType) (info : FuncInfo) (index : Nat) : CompileM Unit := do
  rvalue
  let ty := (← top).type
  if ty.isStruct then fail .structArgument
  match params[index]? with
  | some param => convertTo param
  | none =>
    if info.variadic || info.oldStyle then castTo (if ty.isInteger then ty.promote else ty)
    else fail .tooManyArguments

def arguments (params : List CType) (info : FuncInfo) : CompileM Nat := do
  if ← atPunct .rparen then return 0
  loop 0 fun count => do
    assignment
    convertArgument params info count
    pushArgument
    return if ← accept .comma then .inl (count + 1) else .inr (count + 1)

def takeCallee (v : Value) : CompileM Callee := do
  match v.place, v.lvalue with
  | .symbol id 0, false =>
    pop
    spill
    return .direct id
  | _, _ =>
    pushArgument
    return .indirect

def callExpression : CompileM Unit := do
  rvalue
  let v ← top
  match v.type.pointee? with
  | some (.func result params info _) =>
    if result.isStruct then fail .structResult
    let callee ← takeCallee v
    let count ← arguments params info
    expect .rparen
    if count < params.length && !info.oldStyle then fail .tooFewArguments
    call callee count result
  | _ => fail .functionExpected

def postfixOperator : CompileM Bool := do
  match (← token).kind with
  | .punct .lbracket =>
    next
    rvalue
    expression
    expect .rbracket
    binary .add
    deref
    return true
  | .punct .lparen =>
    next
    callExpression
    return true
  | .punct .dot =>
    next
    memberAccess
    return true
  | .punct .arrow =>
    next
    deref
    memberAccess
    return true
  | .punct .plusPlus =>
    next
    postIncrement true
    return true
  | .punct .minusMinus =>
    next
    postIncrement false
    return true
  | _ => return false

def postfixExpression : CompileM Unit := do
  primary
  while_ postfixOperator

end OnePass.Compile
