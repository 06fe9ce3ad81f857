import OnePass.Compile.Operand

/-! # Operators

Operators take the latest operands and leave their result. Constants are combined at once, and a
constant is added to an address where that is known; everything else becomes code. -/
namespace OnePass

inductive BinaryOp where
  | add | sub | mul | div | mod
  | shl | shr
  | and | or | xor
  | eq | ne | lt | le | gt | ge
  deriving DecidableEq, Repr

namespace BinaryOp

def isComparison : BinaryOp → Bool
  | .eq | .ne | .lt | .le | .gt | .ge => true
  | _ => false

def isShift : BinaryOp → Bool
  | .shl | .shr => true
  | _ => false

def cond (op : BinaryOp) (unsigned : Bool) : X86.Cond :=
  match op, unsigned with
  | .eq, _ => .e
  | .ne, _ => .ne
  | .lt, false => .l
  | .lt, true => .b
  | .le, false => .le
  | .le, true => .be
  | .gt, false => .g
  | .gt, true => .a
  | .ge, false => .ge
  | _, _ => .ae

/-- The result on two constants. Shift counts are taken modulo 64, and the divisor is not 0. -/
def fold (op : BinaryOp) (a b : Int64) (unsigned : Bool) : Int64 :=
  let ua := a.toUInt64
  let ub := b.toUInt64
  let flag (holds : Bool) : Int64 := if holds then 1 else 0
  match op with
  | .add => a + b
  | .sub => a - b
  | .mul => a * b
  | .div => if unsigned then (ua / ub).toInt64 else a / b
  | .mod => if unsigned then (ua % ub).toInt64 else a % b
  | .shl => (ua <<< (ub &&& 63)).toInt64
  | .shr => if unsigned then (ua >>> (ub &&& 63)).toInt64 else a >>> (b &&& 63)
  | .and => a &&& b
  | .or => a ||| b
  | .xor => a ^^^ b
  | .eq => flag (a == b)
  | .ne => flag (a != b)
  | .lt => flag (if unsigned then ua < ub else a < b)
  | .le => flag (if unsigned then ua ≤ ub else a ≤ b)
  | .gt => flag (if unsigned then ub < ua else b < a)
  | .ge => flag (if unsigned then ub ≤ ua else b ≤ a)

end BinaryOp

inductive UnaryOp where
  | neg
  | bitNot
  | logNot
  deriving DecidableEq, Repr

namespace Compile

open X86

def elementSize (ty : CType) : CompileM Int64 := do
  match ty.pointee? with
  | none => fail .pointerExpected
  | some elem =>
    if elem.isFunc then return 1
    match elem.extent? (← get).scope.structs with
    | some extent => return extent.size.toInt64
    | none => fail .unknownSize

def castScalar (target : CType) : CompileM Unit := do
  let v ← top
  match v.const? with
  | some value =>
    let value := if target.isInteger then target.canonical value else value
    modifyTop fun _ => Value.const target value
  | none =>
    if (v.isSymbolAddress || v.isFrameAddress) && target.width.1 == 8 && !target.isBool then
      modifyTop ({ · with type := target })
    else
      if target.isBool then
        load
        emit .test
        emit (.setcc .ne)
      else if v.lvalue || needsExtension v.type target then
        load
        convertRegister .rax v.type target
      modifyTop ({ · with type := target, lvalue := false })

def castTo (target : CType) : CompileM Unit := do
  if target.isVoid then
    modifyTop fun v => { v with type := .plainVoid, lvalue := v.lvalue && v.place == .spilled }
  else
    rvalue
    let source := (← top).type
    if target.isFloat || source.isFloat then fail .floating
    if target.isStruct || source.isStruct then
      if target.structId? == source.structId? then modifyTop ({ · with type := target })
      else fail .structConversion
    else
      if source.isVoid then fail .voidValue
      if !target.isScalar then fail .castTarget
      castScalar target

/-- How an operation on integers or addresses is carried out: in which type, giving which type, and
by what the operands are multiplied before it. -/
structure IntegerOp where
  op : BinaryOp
  common : CType
  result : CType
  scaleLeft : Int64 := 1
  scaleRight : Int64 := 1

def scaled (factor : Int64) (v : Value) : Value :=
  if factor != 1 then
    match v.const? with
    | some value => Value.const .plainLong (value * factor)
    | none => v
  else v

def offsetPlace? (place : Place) (delta : Int64) : Option Place :=
  match place with
  | .symbol id addend => some (.symbol id (addend + delta))
  | .frame offset =>
    let moved := offset.toInt64 + delta
    if moved == moved.toInt32.toInt64 then some (.frame moved.toInt32) else none
  | _ => none

/-- The result where no code is needed: both operands are constant, or one is added to an address. -/
def folded? (o : IntegerOp) (left right : Value) : Option Value :=
  let shifted := fun (v : Value) (delta : Int64) =>
    (offsetPlace? v.place delta).map fun place => { type := o.result, place : Value }
  match left.const?, right.const? with
  | some a, some b =>
    let a := o.common.canonical a
    let b := if o.op.isShift then b else o.common.canonical b
    if (o.op == .div || o.op == .mod) && b == 0 then none
    else some (Value.const o.result (o.result.canonical (o.op.fold a b o.common.isUnsigned)))
  | none, some b =>
    if left.lvalue then none
    else match o.op with
      | .add => shifted left b
      | .sub => shifted left (-b)
      | _ => none
  | some a, none =>
    if o.op == .add && right.isSymbolAddress then shifted right a else none
  | none, none => none

/-- The division of constants by 0 is left to the machine. -/
def dividesByZero (o : IntegerOp) (left right : Value) : Bool :=
  (o.op == .div || o.op == .mod) && left.const?.isSome &&
    (right.const?.map o.common.canonical) == some 0

def operate (op : BinaryOp) (unsigned : Bool) : List Instr :=
  match op with
  | .add => [.alu .add .rax .rcx]
  | .sub => [.alu .sub .rax .rcx]
  | .and => [.alu .and .rax .rcx]
  | .or => [.alu .or .rax .rcx]
  | .xor => [.alu .xor .rax .rcx]
  | .mul => [.imul .rax .rcx]
  | .div => [.div !unsigned]
  | .mod => [.div !unsigned, .mov .rax .rdx]
  | .shl => [.shift .shl]
  | .shr => [.shift (if unsigned then .shr else .sar)]
  | _ => [.alu .cmp .rax .rcx, .setcc (op.cond unsigned)]

def integerOp (o : IntegerOp) : CompileM Unit := do
  let typeLeft := (← second).type
  let typeRight := (← top).type
  modifySecond (scaled o.scaleLeft)
  modifyTop (scaled o.scaleRight)
  let left ← second
  let right ← top
  match folded? o left right with
  | some v => replace 2 v
  | none =>
    if dividesByZero o left right then warn .divisionByZero
    loadBoth
    if o.scaleLeft != 1 && left.const?.isNone then emit (.imulImm .rax o.scaleLeft.toInt32)
    if o.scaleRight != 1 && right.const?.isNone then emit (.imulImm .rcx o.scaleRight.toInt32)
    convertRegister .rax typeLeft o.common
    if !o.op.isShift then convertRegister .rcx typeRight o.common
    (operate o.op o.common.isUnsigned).forM emit
    if !o.op.isComparison then convertRegister .rax .plainLong o.result
    replace 2 { type := o.result, place := .register }

def integerTypes (op : BinaryOp) (left right : CType) : CType × CType :=
  if op.isShift then (left.promote, left.promote)
  else
    let common := left.common right
    (common, if op.isComparison then .plainInt else common)

def binary (op : BinaryOp) : CompileM Unit := do
  modifyTop Value.decayed
  modifySecond Value.decayed
  let left := (← second).type
  let right := (← top).type
  if left.isFloat || right.isFloat then fail .floating
  if !left.isScalar || !right.isScalar then fail .binaryOperands
  let long := CType.plainLong
  match left.isPointer, right.isPointer, op with
  | true, true, .sub =>
    let size ← elementSize left
    integerOp { op, common := long, result := long }
    if size > 1 then
      pushConst long size
      integerOp { op := .div, common := long, result := long }
  | true, false, .add | true, false, .sub =>
    integerOp { op, common := long, result := left, scaleRight := ← elementSize left }
  | false, true, .add =>
    integerOp { op, common := long, result := right, scaleLeft := ← elementSize right }
  | false, false, _ =>
    let (common, result) := integerTypes op left right
    integerOp { op, common, result }
  | _, _, _ =>
    if op.isComparison then integerOp { op, common := .plainULong, result := .plainInt }
    else fail .binaryOperands

def logicalNot : CompileM Unit := do
  let v ← top
  if !v.type.isScalar then fail .notOperand
  let known := match v.const? with
    | some value => some (value == 0)
    | none => if v.isSymbolAddress then some false else none
  match known with
  | some result =>
    pop
    pushConst .plainInt (if result then 1 else 0)
  | none =>
    load
    emit .test
    emit (.setcc .e)
    modifyTop fun _ => { type := .plainInt, place := .register }

def unary (op : UnaryOp) : CompileM Unit := do
  rvalue
  let v ← top
  if v.type.isFloat then fail .floating
  if op == .logNot then logicalNot
  else
    if !v.type.isInteger then fail .unaryOperand
    let result := v.type.promote
    match v.const? with
    | some value =>
      pop
      pushConst result (if op == .neg then -value else ~~~value)
    | none =>
      load
      convertRegister .rax v.type result
      emit (if op == .neg then .neg else .not)
      convertRegister .rax .plainLong result
      modifyTop fun _ => { type := result, place := .register }

/-- Copy a struct; the latest operand is the source and the one before it the target. -/
def storeStruct (type : CType) (size : UInt64) : CompileM Unit := do
  load
  emit (.mov .rsi .rax)
  loadAddress .rdi (← second).place
  emit (.movImm .rcx size.toInt64)
  emit .repMovsb
  replace 2 { type := type.unqualified, place := .register, lvalue := true }

def store : CompileM Unit := do
  let target ← second
  if !target.lvalue || target.type.isArray || target.type.isFunc then fail .lvalueExpected
  if target.type.isConst then fail .readOnly
  match target.type.structId? with
  | some id =>
    if (← top).type.structId? != some id then fail .assignTypes
    let size := (((← get).scope.struct? id).map (·.size)).getD 0
    storeStruct target.type size
  | none =>
    let type := target.type.unqualified
    castTo type
    load
    let mem ← objectMem (← second).place
    emit (.store .rax mem type.width.1)
    replace 2 { type, place := .register }

def postIncrement (up : Bool) : CompileM Unit := do
  let v ← top
  if !v.lvalue || !v.type.isScalar then fail .lvalueExpected
  if v.type.isConst then fail .readOnly
  let step ← if v.type.isPointer then elementSize v.type else pure 1
  let delta := if up then step else -step
  stabilize
  dup
  load
  let target ← second
  if target.type.isBool then emit (.movImm .rcx (if up then 1 else 0))
  else emit (.lea .rcx (.base .rax delta.toInt32))
  let mem ← objectMem target.place
  emit (.store .rcx mem target.type.width.1)
  let old ← top
  replace 2 { old with type := target.type.unqualified }

def preIncrement (up : Bool) : CompileM Unit := do
  let v ← top
  if !v.lvalue || !v.type.isScalar then fail .lvalueExpected
  stabilize
  dup
  pushConst .plainInt 1
  binary (if up then .add else .sub)
  store

def memberPlace? (place : Place) (offset : UInt64) : Option Place :=
  match place with
  | .frame base => some (.frame (base + offset.toInt64.toInt32))
  | .symbol id addend => some (.symbol id (addend + offset.toInt64))
  | .const address => some (.const (address + offset.toInt64))
  | _ => none

def member (field : Field) : CompileM Unit := do
  match memberPlace? (← top).place field.offset with
  | some place => modifyTop ({ · with place })
  | none =>
    load
    if field.offset != 0 then emit (.aluImm .add field.offset.toInt64.toInt32)
  modifyTop fun v =>
    let q := field.type.quals
    { v with type := field.type.withQuals { q with isConst := q.isConst || v.type.isConst }
             lvalue := true }

def deref : CompileM Unit := do
  rvalue
  let v ← top
  match v.type.pointee? with
  | none => fail .pointerExpected
  | some target =>
    if target.isVoid then fail .derefVoid
    if v.lvalue then load
    modifyTop ({ · with type := target, lvalue := true })

def addressOf : CompileM Unit := do
  if !(← top).lvalue then fail .lvalueExpected
  modifyTop fun v => { v with type := v.type.pointerTo, lvalue := false }

/-- Convert the latest operand as by assignment; questionable conversions are reported. -/
def convertTo (target : CType) : CompileM Unit := do
  rvalue
  let v ← top
  let isNull := v.type.isInteger && v.const? == some 0
  match (← settings).conversions.checkAssign target v.type isNull with
  | .ok => pure ()
  | .warn doubt => warn (.conversion doubt)
  | .error doubt => fail (.conversion doubt)
  if !target.isStruct then castTo target.unqualified

def branch (wanted : Bool) : CompileM (Option Nat) := do
  rvalue
  let v ← top
  if !v.type.isScalar then fail (if v.type.isFloat then .floating else .scalarExpected)
  match v.truth? with
  | some truth =>
    pop
    if truth == wanted then jump else return none
  | none =>
    load
    emit .test
    pop
    jumpIf (if wanted then .ne else .e)

/-- The truth value of a chain: `reached` where control arrives from above, the other one where it
arrives by a jump. -/
def truthOf (jumps : List Nat) (reached : Bool) : CompileM Unit := do
  spill
  emit (.movImm .rax (if reached then 1 else 0))
  let done ← jump
  patchHere jumps
  emit (.movImm .rax (if reached then 0 else 1))
  patchHere done.toList
  push { type := .plainInt, place := .register }

def compareAndJump (value : Int64) (cond : Cond) : CompileM (Option Nat) := do
  if value == value.toInt32.toInt64 then emit (.aluImm .cmp value.toInt32)
  else
    emit (.movImm .rcx value)
    emit (.alu .cmp .rax .rcx)
  jumpIf cond

end Compile
end OnePass
