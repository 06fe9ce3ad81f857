import OnePass.Token.Literal
import OnePass.Token

/-! # Conditions

The value of a controlling expression after expansion. Arithmetic is done on 64 bits, signed or
unsigned; a name that is left counts as zero. Both sides of every operator are evaluated. -/
namespace OnePass.Condition

structure Value where
  value : Int64
  unsigned : Bool := false
  deriving DecidableEq, Repr

namespace Value

def truth (v : Value) : Bool := v.value != 0

def ofBool (b : Bool) : Value := { value := if b then 1 else 0 }

end Value

inductive Fault where
  | tooDeep
  | expected (p : Punct)
  | endsEarly
  | badNumber (text : String)
  | badLiteral (fault : LiteralFault)
  | badToken (text : String)
  | divisionByZero
  | missingOperator
  | noExpression
  | definedParen
  | definedName
  deriving DecidableEq, Repr

def Fault.text : Fault → String
  | .tooDeep => "#if expression nested too deeply"
  | .expected p => "'" ++ p.spelling ++ "' expected in #if expression"
  | .endsEarly => "#if expression ends unexpectedly"
  | .badNumber text => "invalid number '" ++ text ++ "' in #if expression"
  | .badLiteral fault => fault.text
  | .badToken text => "token \"" ++ text ++ "\" is not valid in preprocessor expressions"
  | .divisionByZero => "division by zero in #if"
  | .missingOperator => "missing binary operator in #if expression"
  | .noExpression => "#if with no expression"
  | .definedParen => "missing ')' after \"defined\""
  | .definedName => "operator \"defined\" requires an identifier"

inductive Operator where
  | mul | div | rem | add | sub | shl | shr | lt | gt | le | ge | eq | ne
  | bitAnd | bitXor | bitOr | and | or
  deriving DecidableEq, Repr

def Operator.ofPunct? : Punct → Option Operator
  | .star => some .mul
  | .slash => some .div
  | .percent => some .rem
  | .plus => some .add
  | .minus => some .sub
  | .shl => some .shl
  | .shr => some .shr
  | .lt => some .lt
  | .gt => some .gt
  | .le => some .le
  | .ge => some .ge
  | .eqEq => some .eq
  | .notEq => some .ne
  | .amp => some .bitAnd
  | .caret => some .bitXor
  | .pipe => some .bitOr
  | .andAnd => some .and
  | .orOr => some .or
  | _ => none

def Operator.precedence : Operator → Nat
  | .mul | .div | .rem => 10
  | .add | .sub => 9
  | .shl | .shr => 8
  | .lt | .gt | .le | .ge => 7
  | .eq | .ne => 6
  | .bitAnd => 5
  | .bitXor => 4
  | .bitOr => 3
  | .and => 2
  | .or => 1

inductive Sign where
  | plus | minus | complement | negation
  deriving DecidableEq, Repr

namespace Sign

def ofPunct? : Punct → Option Sign
  | .plus => some plus
  | .minus => some minus
  | .tilde => some complement
  | .bang => some negation
  | _ => none

def apply (v : Value) : Sign → Value
  | plus => v
  | minus => ⟨-v.value, v.unsigned⟩
  | complement => ⟨~~~v.value, v.unsigned⟩
  | negation => .ofBool (!v.truth)

end Sign

/-- The value of a binary operator. One unsigned operand makes the operation unsigned; a shift
counts modulo 64. -/
def apply (op : Operator) (lhs rhs : Value) : Except Fault Value :=
  let unsigned := lhs.unsigned || rhs.unsigned
  let a := lhs.value
  let b := rhs.value
  let ua := a.toUInt64
  let ub := b.toUInt64
  match op with
  | .and => .ok (.ofBool (lhs.truth && rhs.truth))
  | .or => .ok (.ofBool (lhs.truth || rhs.truth))
  | .eq => .ok (.ofBool (a == b))
  | .ne => .ok (.ofBool (a != b))
  | .lt => .ok (.ofBool (if unsigned then ua < ub else a < b))
  | .gt => .ok (.ofBool (if unsigned then ub < ua else b < a))
  | .le => .ok (.ofBool (if unsigned then ua ≤ ub else a ≤ b))
  | .ge => .ok (.ofBool (if unsigned then ub ≤ ua else b ≤ a))
  | .add => .ok ⟨a + b, unsigned⟩
  | .sub => .ok ⟨a - b, unsigned⟩
  | .mul => .ok ⟨a * b, unsigned⟩
  | .div =>
    if b == 0 then .error .divisionByZero
    else .ok ⟨if unsigned then (ua / ub).toInt64 else a / b, unsigned⟩
  | .rem =>
    if b == 0 then .error .divisionByZero
    else .ok ⟨if unsigned then (ua % ub).toInt64 else a % b, unsigned⟩
  | .shl => .ok ⟨a <<< b, unsigned⟩
  | .shr => .ok ⟨if unsigned then (ua >>> ub).toInt64 else a >>> b, unsigned⟩
  | .bitAnd => .ok ⟨a &&& b, unsigned⟩
  | .bitOr => .ok ⟨a ||| b, unsigned⟩
  | .bitXor => .ok ⟨a ^^^ b, unsigned⟩

/-- Both values decide on the type. -/
def choose (cond yes no : Value) : Value :=
  ⟨(if cond.truth then yes else no).value, yes.unsigned || no.unsigned⟩

def maxDepth : Nat := 256

abbrev Parsed := Except Fault (Value × List Token)

def punct? : List Token → Option (Punct × List Token)
  | tok :: rest =>
    match tok.kind with
    | .punct p => some (p, rest)
    | _ => none
  | [] => none

/-- A sign or an operator in front, and what follows it. -/
def mark? (read : Punct → Option α) (tokens : List Token) : Option (α × List Token) :=
  (punct? tokens).bind fun (p, rest) => (read p).map (·, rest)

def expect (p : Punct) (tokens : List Token) : Except Fault (List Token) :=
  match punct? tokens with
  | some (q, rest) => if p == q then .ok rest else .error (.expected p)
  | none => .error (.expected p)

/-- The value of a plain character constant is that of a signed byte. -/
def charValue (literal : Literal.Decoded) : Value :=
  let unit := literal.units.headD 0
  { value := if literal.wide then unit.toInt32.toInt64 else unit.toUInt8.toInt8.toInt64 }

def operandValue : TokenKind → Except Fault Value
  | .number text =>
    match Literal.integer text with
    | .ok lit => .ok ⟨lit.value.toInt64, lit.unsigned || lit.value.toInt64 < 0⟩
    | .error _ => .error (.badNumber text)
  | .char spelling =>
    match Literal.decode spelling with
    | .ok literal => .ok (charValue literal)
    | .error fault => .error (.badLiteral fault)
  | .ident _ => .ok { value := 0 }
  | kind => .error (.badToken kind.text)

def primary : List Token → Parsed
  | [] => .error .endsEarly
  | tok :: rest => (operandValue tok.kind).map (·, rest)

mutual

/-- An expression with an optional choice. The first number bounds the recursion. -/
def expr (fuel depth : Nat) (tokens : List Token) : Parsed :=
  match fuel with
  | 0 => .error .tooDeep
  | fuel + 1 => do
    let (cond, rest) ← binary fuel depth 1 tokens
    match punct? rest with
    | some (.question, rest) =>
      let (yes, rest) ← expr fuel depth rest
      let rest ← expect .colon rest
      let (no, rest) ← expr fuel depth rest
      return (choose cond yes no, rest)
    | _ => return (cond, rest)

def binary (fuel depth least : Nat) (tokens : List Token) : Parsed :=
  match fuel with
  | 0 => .error .tooDeep
  | fuel + 1 => do
    let (lhs, rest) ← unary fuel depth tokens
    operators fuel depth least lhs rest

def operators (fuel depth least : Nat) (lhs : Value) (tokens : List Token) : Parsed :=
  match fuel with
  | 0 => .error .tooDeep
  | fuel + 1 =>
    match mark? Operator.ofPunct? tokens with
    | none => .ok (lhs, tokens)
    | some (op, rest) =>
      if op.precedence < least then .ok (lhs, tokens)
      else do
        let (rhs, rest) ← binary fuel depth (op.precedence + 1) rest
        let value ← apply op lhs rhs
        operators fuel depth least value rest

/-- An operand with its signs. `depth` counts the operands around it. -/
def unary (fuel depth : Nat) (tokens : List Token) : Parsed :=
  match fuel with
  | 0 => .error .tooDeep
  | fuel + 1 =>
    if depth ≥ maxDepth then .error .tooDeep
    else match mark? Sign.ofPunct? tokens with
      | some (sign, rest) => do
        let (v, rest) ← unary fuel (depth + 1) rest
        return (sign.apply v, rest)
      | none => match punct? tokens with
        | some (.lparen, rest) => do
          let (v, rest) ← expr fuel (depth + 1) rest
          let rest ← expect .rparen rest
          return (v, rest)
        | _ => primary tokens

end

/-- Whether a condition holds. Each token costs at most four steps of recursion. -/
def evaluate (tokens : List Token) : Except Fault Bool := do
  if tokens.isEmpty then throw .noExpression
  let (value, rest) ← expr (4 * tokens.length + 8) 0 tokens
  if rest.isEmpty then return value.truth else throw .missingOperator

def resolveDefined (isDefined : String → Bool) : List Token → Except Fault (List Token)
  | [] => .ok []
  | tok :: rest =>
    let answer := fun (name : String) =>
      { tok with kind := .number (if isDefined name then "1" else "0"), lineStart := false }
    if tok.kind != .ident "defined" then (resolveDefined isDefined rest).map (tok :: ·)
    else match rest with
      | [] => .error .definedName
      | [next] =>
        if next.isPunct .lparen then .error .definedParen
        else match next.ident? with
          | some name => .ok [answer name]
          | none => .error .definedName
      | next :: second :: more =>
        if next.isPunct .lparen then
          match second.ident?, more with
          | some name, close :: more =>
            if close.isPunct .rparen then (resolveDefined isDefined more).map (answer name :: ·)
            else .error .definedParen
          | _, _ => .error .definedParen
        else match next.ident? with
          | some name => (resolveDefined isDefined (second :: more)).map (answer name :: ·)
          | none => .error .definedName

end OnePass.Condition
