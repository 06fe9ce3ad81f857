import OnePass.Compile.Primary
import OnePass.Compile.TypeName

/-! # Expressions

Operands become values as soon as they are read. Binary operators are read by precedence; the
operators that evaluate only some of their operands turn into jumps, unless a constant decides. -/
namespace OnePass.Compile

/-! ## Unary operators -/

def maxNesting : Nat := 256

def nested (act : CompileM Unit) : CompileM Unit := do
  if (← get).nesting ≥ maxNesting then fail .nestedTooDeeply
  modify fun s => { s with nesting := s.nesting + 1 }
  act
  modify fun s => { s with nesting := s.nesting - 1 }

def atTypeInParens : CompileM Bool := do
  if !(← atPunct .lparen) then return false
  let behind ← peek
  return startsType (← get).scope behind

def typeInParens : CompileM CType := do
  next
  let ty ← typeName
  expect .rparen
  return ty

def sizeOperand : CompileM CType := do
  if ← atTypeInParens then typeInParens
  else withoutData do
    unaryExpression
    let ty := (← top).type
    pop
    return ty

def sizeExpression (isSize : Bool) : CompileM Unit := do
  next
  let ty ← sizeOperand
  match ty.extent? (← get).scope.structs with
  | some extent => pushConst .plainULong (if isSize then extent.size else extent.align).toInt64
  | none => fail (.incompleteOperand (if isSize then "sizeof" else "_Alignof"))

def onOperand (act : CompileM Unit) : CompileM Unit := do
  next
  castExpression
  act

def unaryPlus : CompileM Unit := do
  rvalue
  let ty := (← top).type
  if !ty.isInteger then fail .plusOperand
  castTo ty.promote

def incrementExpression (up : Bool) : CompileM Unit := do
  next
  nested unaryExpression
  preIncrement up

def readUnary : CompileM Unit := do
  match (← token).keyword?, (← token).kind with
  | some .sizeof, _ => sizeExpression true
  | some .alignof, _ => sizeExpression false
  | some .extension, _ => onOperand (pure ())
  | _, .punct .plusPlus => incrementExpression true
  | _, .punct .minusMinus => incrementExpression false
  | _, .punct .amp => onOperand addressOf
  | _, .punct .star => onOperand deref
  | _, .punct .plus => onOperand unaryPlus
  | _, .punct .minus => onOperand (unary .neg)
  | _, .punct .tilde => onOperand (unary .bitNot)
  | _, .punct .bang => onOperand (unary .logNot)
  | _, _ => postfixExpression

def castOrUnary : CompileM Unit := do
  if ← atTypeInParens then
    let ty ← typeInParens
    if ← atPunct .lbrace then fail .compoundLiteral
    castExpression
    castTo ty
  else readUnary

def readCast : CompileM Unit := nested castOrUnary

/-! ## Binary operators -/

def binaryOp? : TokenKind → Option (BinaryOp × Nat)
  | .punct .pipe => some (.or, 1)
  | .punct .caret => some (.xor, 2)
  | .punct .amp => some (.and, 3)
  | .punct .eqEq => some (.eq, 4)
  | .punct .notEq => some (.ne, 4)
  | .punct .lt => some (.lt, 5)
  | .punct .gt => some (.gt, 5)
  | .punct .le => some (.le, 5)
  | .punct .ge => some (.ge, 5)
  | .punct .shl => some (.shl, 6)
  | .punct .shr => some (.shr, 6)
  | .punct .plus => some (.add, 7)
  | .punct .minus => some (.sub, 7)
  | .punct .star => some (.mul, 8)
  | .punct .slash => some (.div, 8)
  | .punct .percent => some (.mod, 8)
  | _ => none

/-- Operators of a precedence and above; those of one precedence group to the left. -/
def readBinary (least : Nat) : CompileM Unit := do
  readCast
  while_ do
    match binaryOp? (← token).kind with
    | none => return false
    | some (op, precedence) =>
      if precedence < least then return false
      next
      binaryFrom (precedence + 1)
      binary op
      return true

/-! ## Short-circuit operators -/

structure Chain where
  jumps : List Nat := []
  decided : Bool := false
  runtime : Bool := false

def takeIntoChain (isAnd : Bool) (c : Chain) : CompileM Chain := do
  rvalue
  if c.decided then
    pop
    return c
  match (← top).truth? with
  | some truth =>
    pop
    return { c with decided := truth != isAnd }
  | none =>
    let hole ← branch !isAnd
    return { c with jumps := c.jumps ++ hole.toList, runtime := true }

def finishChain (isAnd : Bool) (c : Chain) : CompileM Unit := do
  if c.decided then
    patchHere c.jumps
    pushConst .plainInt (if isAnd then 0 else 1)
  else if c.runtime then truthOf c.jumps isAnd
  else pushConst .plainInt (if isAnd then 1 else 0)

/-- A chain of operands whose first one has been read. Behind a deciding constant no code is
emitted. -/
def shortCircuit (isAnd : Bool) (operand : CompileM Unit) : CompileM Unit := do
  let c ← loop ({} : Chain) fun c => do
    let c ← takeIntoChain isAnd c
    if ← accept (if isAnd then .andAnd else .orOr) then
      if c.decided then withoutData operand else operand
      return .inl c
    return .inr c
  finishChain isAnd c

def logicalAnd : CompileM Unit := do
  readBinary 1
  if ← atPunct .andAnd then shortCircuit true (readBinary 1)

def logicalOr : CompileM Unit := do
  logicalAnd
  if ← atPunct .orOr then shortCircuit false logicalAnd

/-! ## Conditionals -/

def conditionalType (a b : CType) : CompileM CType := do
  if a.isVoid || b.isVoid then return .plainVoid
  if a.isInteger && b.isInteger then return a.common b
  if a.isPointer && b.isInteger then return a.unqualified
  if a.isInteger && b.isPointer then return b.unqualified
  if a.isPointer && b.isPointer then
    return if (b.pointee?.map CType.isVoid) == some true then b.unqualified else a.unqualified
  if a.isStruct && a.structId? == b.structId? then return a.unqualified
  if a.isFloat || b.isFloat then fail .floating
  fail .conditionalTypes

def typeOfOperand (operand : CompileM Unit) : CompileM CType :=
  withoutData do
    operand
    rvalue
    let ty := (← top).type
    pop
    return ty

def castOperandTo (ty : CType) : CompileM Unit := do
  if ty.isScalar then castTo ty

def decidedConditional (truth : Bool) : CompileM Unit := do
  if truth then
    expression
    rvalue
    expect .colon
    let other ← typeOfOperand conditional
    castOperandTo (← conditionalType (← top).type other)
  else
    let other ← typeOfOperand expression
    expect .colon
    conditional
    rvalue
    castOperandTo (← conditionalType other (← top).type)

def settle (ty : CType) : CompileM Unit := do
  castOperandTo ty
  load
  forget 1

/-- A conditional behind the question mark whose condition is the latest operand. Both sides leave
their value in `rax`; the first one is converted behind the second, when the common type is known. -/
def openConditional : CompileM Unit := do
  let toElse ← branch false
  expression
  rvalue
  if !(← top).type.isVoid then load
  let first ← top
  forget 1
  let toFirst ← jump
  expect .colon
  patchHere toElse.toList
  conditional
  rvalue
  let ty ← conditionalType first.type (← top).type
  if ty.isVoid then
    pop
    patchHere toFirst.toList
    push (Value.const .plainVoid 0)
  else
    settle ty
    let done ← jump
    patchHere toFirst.toList
    push first
    settle ty
    patchHere done.toList
    push { type := ty, place := .register, lvalue := ty.isStruct }

def readConditional : CompileM Unit := do
  logicalOr
  if ← accept .question then
    rvalue
    match (← top).truth? with
    | some truth =>
      pop
      decidedConditional truth
    | none => openConditional

/-! ## Assignment -/

def assignmentOp? : TokenKind → Option (Option BinaryOp)
  | .punct .assign => some none
  | .punct .plusEq => some (some .add)
  | .punct .minusEq => some (some .sub)
  | .punct .starEq => some (some .mul)
  | .punct .slashEq => some (some .div)
  | .punct .percentEq => some (some .mod)
  | .punct .shlEq => some (some .shl)
  | .punct .shrEq => some (some .shr)
  | .punct .ampEq => some (some .and)
  | .punct .caretEq => some (some .xor)
  | .punct .pipeEq => some (some .or)
  | _ => none

def readAssignment : CompileM Unit := do
  readConditional
  match assignmentOp? (← token).kind with
  | none => return
  | some op =>
    next
    let target ← top
    if !target.lvalue then fail .lvalueExpected
    match op with
    | none =>
      assignment
      if !target.type.isStruct then convertTo target.type
    | some op =>
      stabilize
      dup
      assignment
      binary op
    store

def readExpression : CompileM Unit := do
  assignment
  while_ do
    if ← accept .comma then
      pop
      assignment
      return true
    else return false

/-! ## The whole grammar of expressions and types -/

def readGoal : (g : Goal) → CompileM g.Result
  | .expression => readExpression
  | .assignment => readAssignment
  | .conditional => readConditional
  | .binary least => readBinary least
  | .cast => readCast
  | .unary => readUnary
  | .specifiers => readSpecifiers
  | .declarator attrs => readDeclarator attrs

def solveWith (host : Host) (settings : Settings) : Nat → (g : Goal) → EStateM Stop Compiler g.Result
  | 0, _ => throw .exhausted
  | fuel + 1, g => readGoal g { host, settings, solve := solveWith host settings fuel }

def env (host : Host) (settings : Settings) : Env :=
  { host, settings, solve := solveWith host settings host.fuel }

end OnePass.Compile
