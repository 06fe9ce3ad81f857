import OnePass.Compile.Operator
import OnePass.Compile.Tokens

/-! # Operands that are not evaluated

Constant expressions, the operand of `typeof`, and string literals that name something. -/
namespace OnePass.Compile

def typeOfExpression : CompileM CType :=
  withoutData do
    expression
    let ty := (← top).type
    pop
    return ty

def constant : CompileM Int64 := do
  let v ← withoutData do
    conditional
    rvalue
    let v ← top
    pop
    return v
  match v.const? with
  | some value => if v.type.isInteger then return value else fail .constantExpected
  | none => fail .constantExpected

/-- The code units of consecutive string literals, without a final zero, and whether one is wide. -/
def stringUnits : CompileM (List UInt32 × Bool) :=
  loop ([], false) fun (units, wide) => do
    match (← token).kind with
    | .string spelling =>
      match Literal.decode spelling with
      | .ok d =>
        next
        return .inl (units ++ d.units, wide || d.wide)
      | .error fault => fail (.literal fault)
    | _ => return .inr (units, wide)

def stringText : CompileM String := do
  if !(← atString) then fail (.stringExpected (← tokenText))
  let (units, wide) ← stringUnits
  if wide then fail .wideString
  return Utf8.lossy (units.map (·.toUInt8))

end OnePass.Compile
