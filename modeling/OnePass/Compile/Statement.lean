import OnePass.Compile.Declaration

/-! # Statements

Control flow becomes jumps at once. A jump forward is remembered where its target will know of it:
with the loop, the switch, the label or the function that it leaves. -/
namespace OnePass.Compile

/-! ## Blocks -/

def inScope (act : CompileM Unit) : CompileM Unit := do
  modify fun s => { s with scope := { s.scope with depth := s.scope.depth + 1 } }
  let mark := (← get).scope.mark
  act
  modify fun s =>
    let scope := s.scope.popTo mark
    { s with scope := { scope with depth := scope.depth - 1 } }

def atLabel : CompileM Bool := do
  if (← name?).isSome then return (← peek).isPunct .colon
  return false

def blockItem (statement : CompileM Unit) : CompileM Unit := do
  let isLabel ← atLabel
  if (← atType) && !isLabel then declaration none else statement

def blockItems (statement : CompileM Unit) : CompileM Unit :=
  while_ do
    if ← atPunct .rbrace then return false
    if (← token).isEof then fail (.expected .rbrace (← tokenText))
    blockItem statement
    return true

def block (statement : CompileM Unit) : CompileM Unit := do
  expect .lbrace
  inScope (blockItems statement)
  next

def functionBody (statement : CompileM Unit) : CompileM Unit := do
  expect .lbrace
  blockItems statement
  next

/-! ## Conditions and loops -/

def condition : CompileM Unit := do
  expect .lparen
  expression
  expect .rparen

def ifStatement (statement : CompileM Unit) : CompileM Unit := do
  next
  condition
  let toElse ← branch false
  statement
  if ← acceptKeyword .elseWord then
    let done ← jump
    patchHere toElse.toList
    statement
    patchHere done.toList
  else patchHere toElse.toList

def takeFirst (lists : List (List Nat)) : List Nat × List (List Nat) := (lists.headD [], lists.drop 1)

def collectBreaks (statement : CompileM Unit) : CompileM (List Nat) := do
  modify fun s => { s with breaks := [] :: s.breaks }
  statement
  modifyGet fun s =>
    let (breaks, outer) := takeFirst s.breaks
    (breaks, { s with breaks := outer })

def loopBody (statement : CompileM Unit) : CompileM (List Nat × List Nat) := do
  modify fun s => { s with continues := [] :: s.continues }
  let breaks ← collectBreaks statement
  modifyGet fun s =>
    let (continues, outer) := takeFirst s.continues
    ((breaks, continues), { s with continues := outer })

def whileStatement (statement : CompileM Unit) : CompileM Unit := do
  next
  let start ← position
  condition
  let exit ← branch false
  let (breaks, continues) ← loopBody statement
  jumpTo start
  patchAll start continues
  patchHere exit.toList
  patchHere breaks

def doStatement (statement : CompileM Unit) : CompileM Unit := do
  next
  let start ← position
  let (breaks, continues) ← loopBody statement
  if !(← acceptKeyword .whileWord) then fail (.expectedWhile (← tokenText))
  patchHere continues
  condition
  let again ← branch true
  patchAll start again.toList
  patchHere breaks
  expect .semicolon

def discarded : CompileM Unit := do
  expression
  pop

def forStart : CompileM Unit := do
  if ← accept .semicolon then return
  if ← atType then declaration none
  else
    discarded
    expect .semicolon

def forCondition : CompileM (Option Nat) := do
  if ← atPunct .semicolon then return none
  expression
  branch false

/-- The last part of a `for`; it stands before the body and is jumped over. The result is the jump to
the body and where a round goes on. -/
def forStep (start : Nat) : CompileM (Option Nat × Nat) := do
  if ← atPunct .rparen then return (none, start)
  let toBody ← jump
  let step ← position
  discarded
  jumpTo start
  return (toBody, step)

def forLoop (statement : CompileM Unit) : CompileM Unit := do
  forStart
  let start ← position
  let exit ← forCondition
  expect .semicolon
  let (toBody, step) ← forStep start
  expect .rparen
  patchHere toBody.toList
  let (breaks, continues) ← loopBody statement
  jumpTo step
  patchAll step continues
  patchHere exit.toList
  patchHere breaks

def forStatement (statement : CompileM Unit) : CompileM Unit := do
  next
  expect .lparen
  inScope (forLoop statement)

/-! ## Switches -/

def atMost (unsigned : Bool) (a b : Int64) : Bool :=
  if unsigned then a.toUInt64 ≤ b.toUInt64 else a ≤ b

def dispatchCase (unsigned : Bool) (c : SwitchCase) : CompileM Unit := do
  if c.low == c.high then
    let hit ← compareAndJump c.low .e
    patchAll c.position hit.toList
  else
    let below ← compareAndJump c.low (if unsigned then .b else .l)
    let hit ← compareAndJump c.high (if unsigned then .be else .le)
    patchAll c.position hit.toList
    patchHere below.toList

def dispatch (sw : Switch) : CompileM (Option Nat) := do
  sw.cases.reverse.forM (dispatchCase sw.type.isUnsigned)
  match sw.defaultPosition with
  | some target =>
    jumpTo target
    return none
  | none => jump

/-- The value to switch on; it is kept in a frame slot while the body is read. -/
def switchValueSlot : CompileM (CType × Int32) := do
  condition
  rvalue
  let ty := (← top).type
  if !ty.isInteger then fail .switchQuantity
  let ty := ty.promote
  castTo ty
  load
  let slot ← allocSlot
  emit (.store .rax (.frame slot) 8)
  pop
  return (ty, slot)

/-- The comparisons stand behind the body, which is jumped over to them. -/
def switchStatement (statement : CompileM Unit) : CompileM Unit := do
  next
  let (type, slot) ← switchValueSlot
  let toDispatch ← jump
  modify fun s => { s with switches := { type } :: s.switches }
  let breaks ← collectBreaks statement
  let sw ← modifyGet fun s => (s.switches.headD { type }, { s with switches := s.switches.drop 1 })
  let atEnd ← jump
  patchHere toDispatch.toList
  emit (.load .rax (.frame slot) 8 false)
  let noLabel ← dispatch sw
  patchHere (breaks ++ atEnd.toList ++ noLabel.toList)

def labeled (statement : CompileM Unit) : CompileM Unit := do
  if !(← atPunct .rbrace) then statement

def overlaps (unsigned : Bool) (low high : Int64) (c : SwitchCase) : Bool :=
  atMost unsigned low c.high && atMost unsigned c.low high

def caseLabel (statement : CompileM Unit) : CompileM Unit := do
  next
  match (← get).switches with
  | [] => fail .strayCase
  | sw :: _ =>
    let low := sw.type.canonical (← constant)
    let high ← if ← accept .ellipsis then do pure (sw.type.canonical (← constant)) else pure low
    expect .colon
    let unsigned := sw.type.isUnsigned
    if !atMost unsigned low high then warn .emptyRange
    if sw.cases.any (overlaps unsigned low high) then fail .duplicateCase
    let here ← position
    modify fun s => { s with
      switches := s.switches.modify 0 fun sw =>
        { sw with cases := { low, high, position := here } :: sw.cases } }
    labeled statement

def defaultLabel (statement : CompileM Unit) : CompileM Unit := do
  next
  expect .colon
  match (← get).switches with
  | [] => fail .strayDefault
  | sw :: _ =>
    if sw.defaultPosition.isSome then fail .tooManyDefaults
    let here ← position
    modify fun s => { s with
      switches := s.switches.modify 0 fun sw => { sw with defaultPosition := some here } }
    labeled statement

/-! ## Jumps -/

def breakStatement : CompileM Unit := do
  next
  if (← get).breaks.isEmpty then fail .strayBreak
  let hole ← jump
  modify fun s => { s with breaks := s.breaks.modify 0 (· ++ hole.toList) }
  expect .semicolon

def continueStatement : CompileM Unit := do
  next
  if (← get).continues.isEmpty then fail .strayContinue
  let hole ← jump
  modify fun s => { s with continues := s.continues.modify 0 (· ++ hole.toList) }
  expect .semicolon

def returnValue (result : CType) : CompileM Unit := do
  expression
  if result.isVoid then
    if !(← top).type.isVoid then warn .valueReturned
    pop
  else
    if result.isStruct then fail .structResult
    convertTo result
    load
    pop

def returnStatement : CompileM Unit := do
  next
  let result := ((← get).function.map (·.result)).getD .plainVoid
  if ← atPunct .semicolon then
    if !result.isVoid then warn .noValueReturned
  else returnValue result
  expect .semicolon
  let hole ← jump
  modify fun s => { s with
    function := s.function.map fun f => { f with returns := f.returns ++ hole.toList } }

def labelOf (name : String) : CompileM EntityId := do
  match (← get).scope.find? .label (.ident name) with
  | some id => return id
  | none =>
    declare .label { name := .ident name, type := .plainVoid, storage := .label none [] }

def gotoStatement : CompileM Unit := do
  next
  let name ← expectName
  let id ← labelOf name
  let hole ← jump
  match (← entity id).storage with
  | .label (some target) _ => patchAll target hole.toList
  | .label none pending =>
    modifyEntity id ({ · with storage := .label none (pending ++ hole.toList) })
  | _ => pure ()
  expect .semicolon

def labelStatement (name : String) (statement : CompileM Unit) : CompileM Unit := do
  let id ← labelOf name
  let here ← position
  match (← entity id).storage with
  | .label none pending =>
    modifyEntity id ({ · with storage := .label (some here) [] })
    patchAll here pending
    labeled statement
  | _ => fail (.duplicateLabel name)

def expressionStatement (statement : CompileM Unit) : CompileM Unit := do
  match ← name? with
  | some name =>
    if (← peek).isPunct .colon then
      next
      next
      labelStatement name statement
    else
      discarded
      expect .semicolon
  | none =>
    discarded
    expect .semicolon

/-! ## All statements -/

def statementWith (statement : CompileM Unit) : CompileM Unit := do
  match ← keyword? with
  | some .ifWord => ifStatement statement
  | some .whileWord => whileStatement statement
  | some .doWord => doStatement statement
  | some .forWord => forStatement statement
  | some .switchWord => switchStatement statement
  | some .caseWord => caseLabel statement
  | some .defaultWord => defaultLabel statement
  | some .breakWord => breakStatement
  | some .continueWord => continueStatement
  | some .returnWord => returnStatement
  | some .gotoWord => gotoStatement
  | some .asm => fail .inlineAssembly
  | _ =>
    if ← atPunct .lbrace then block statement
    else if ← accept .semicolon then return
    else expressionStatement statement

/-- A statement; the depth bounds how far statements nest. -/
def statementAt : Nat → CompileM Unit
  | 0 => throw .exhausted
  | depth + 1 => statementWith (statementAt depth)

def statement : CompileM Unit := do statementAt (← read).host.fuel

end OnePass.Compile
