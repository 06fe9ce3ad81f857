import OnePass.Compile.Constant

/-! # Attributes and declarators

A declarator is read as the list of derivations it applies to the base type, and the type is built
from that list afterwards, because the derivations stand on both sides of the name. -/
namespace OnePass.Compile

/-! ## Names of types -/

def isTypeKeyword : Keyword → Bool
  | .int | .void | .char | .short | .long | .signed | .unsigned | .bool | .float | .double
  | .struct | .union | .enum | .typedef | .external | .static | .auto | .register
  | .const | .volatile | .inline | .restrict | .attribute | .extension | .typeof | .noreturn => true
  | _ => false

def typedef? (scope : Scope) (name : String) : Option CType :=
  (scope.find? .ident (.ident name)).bind fun id =>
    let e := scope.get id
    if e.storage == .typedef then some e.type else none

def startsType (scope : Scope) (tok : Token) : Bool :=
  match tok.ident? with
  | none => false
  | some name =>
    match Keyword.ofSpelling? name with
    | some kw => isTypeKeyword kw
    | none => (typedef? scope name).isSome

def atType : CompileM Bool := return startsType (← get).scope (← get).tok

/-! ## Attributes -/

def dropPairs : List Char → List Char
  | '_' :: '_' :: rest => dropPairs rest
  | name => name

def attributeName (spelling : String) : String :=
  String.ofList (dropPairs (dropPairs spelling.toList).reverse).reverse

def alignment : CompileM UInt64 := do
  if ← accept .lparen then
    let n ← constant
    expect .rparen
    if n ≤ 0 || n &&& (n - 1) != 0 then fail .alignment
    return n.toUInt64
  return 16

def attributeNamed (attrs : Attributes) (name : String) : CompileM Attributes := do
  match name with
  | "aligned" => return { attrs with aligned := ← alignment }
  | "section" =>
    expect .lparen
    let text ← stringText
    expect .rparen
    return { attrs with section_ := some text }
  | "weak" => return { attrs with weak := true }
  | "noreturn" => return { attrs with noReturn := true }
  | "stdcall" => return { attrs with conv := some .stdcall }
  | "fastcall" => return { attrs with conv := some .fastcall }
  | "cdecl" => return { attrs with conv := some .cdecl }
  | "packed" | "unused" | "used" => return attrs
  | _ =>
    if (← switches).unsupported then warn (.attributeIgnored name)
    if ← atPunct .lparen then
      let _ ← readGroup .lparen .rparen
    return attrs

def attributeList (attrs : Attributes) : CompileM Attributes := do
  next
  expect .lparen
  expect .lparen
  let attrs ← loop attrs fun attrs => do
    if ← atPunct .rparen then return .inr attrs
    match (← token).ident? with
    | none => fail (.attributeExpected (← tokenText))
    | some spelling =>
      next
      let attrs ← attributeNamed attrs (attributeName spelling)
      return if ← accept .comma then .inl attrs else .inr attrs
  expect .rparen
  expect .rparen
  return attrs

def attributes (attrs : Attributes) : CompileM Attributes :=
  loop attrs fun attrs => do
    if ← atKeyword .attribute then return .inl (← attributeList attrs) else return .inr attrs

def asmLabel? : CompileM (Option String) := do
  if !(← acceptKeyword .asm) then return none
  expect .lparen
  let label ← stringText
  expect .rparen
  return some label

/-! ## Declarators -/

def derive_ (ty : CType) : Derivation → CompileM CType
  | .pointer q => return .pointer ty q
  | .array length => do
    if ty.isFunc then fail .arrayOfFunctions
    if ty.isVoid then fail .arrayOfVoids
    let array := ty.arrayOf length
    let structs := (← get).scope.structs
    if length.isSome && (ty.extent? structs).isSome && (array.extent? structs).isNone then
      fail .arrayTooLarge
    return array
  | .func params info => do
    if ty.isArray || ty.isFunc then fail .functionResult
    return .func ty params info {}

def withConvention (attrs : Attributes) : CType → CType
  | .func result params info q =>
    match attrs.conv with
    | some conv => .func result params { info with conv } {}
    | none => .func result params info q
  | ty => ty

def declarator (base : CType) (attrs : Attributes) : CompileM Declarator := do
  let parts ← declaratorParts attrs
  let ty ← parts.derivations.foldlM derive_ base
  return { type := withConvention parts.attrs ty, name := parts.name, attrs := parts.attrs }

def parameterType : CType → CType
  | .array elem _ _ => elem.pointerTo
  | .func result params info q => .pointerTo (.func result params info q)
  | ty => ty

def parameter : CompileM (CType × Option String) := do
  match ← specifiers? with
  | none => fail (.parameterExpected (← tokenText))
  | some spec =>
    if spec.storage != .unspecified then fail .storageInParameter
    let d ← declarator spec.type spec.attrs
    let ty := parameterType d.type
    if ty.isVoid then fail .voidParameter
    return (ty, d.name)

def parameters : CompileM Derivation := do
  if ← accept .rparen then return .func [] { oldStyle := true }
  if ← atKeyword .void then
    if (← peek).isPunct .rparen then
      next
      next
      return .func [] {}
  let (params, variadic) ← loop [] fun params => do
    if ← accept .ellipsis then return .inr (params, true)
    let params := (← parameter) :: params
    return if ← accept .comma then .inl params else .inr (params, false)
  expect .rparen
  let params := params.reverse
  return .func (params.map (·.1)) { names := params.map (·.2), variadic }

def lengthWords : List String := ["static", "const", "restrict", "__restrict", "__restrict__"]

def arrayLength : CompileM Derivation := do
  while_ do
    match (← token).ident? with
    | some name =>
      if lengthWords.contains name then
        next
        return true
      else return false
    | none => return false
  let length ← if ← atPunct .rbracket then pure none else do
    let n ← constant
    if n < 0 then fail .arraySize
    pure (some n.toUInt64)
  expect .rbracket
  return .array length

def suffixes : CompileM (List Derivation) :=
  loop [] fun read => do
    if ← accept .lbracket then return .inl ((← arrayLength) :: read)
    else if ← accept .lparen then return .inl ((← parameters) :: read)
    else return .inr read

def pointerQuals (attrs : Attributes) : CompileM (Quals × Attributes) :=
  loop (({} : Quals), attrs) fun (q, attrs) => do
    match ← keyword? with
    | some .const =>
      next
      return .inl ({ q with isConst := true }, attrs)
    | some .volatile =>
      next
      return .inl ({ q with isVolatile := true }, attrs)
    | some .restrict =>
      next
      return .inl (q, attrs)
    | some .attribute => return .inl (q, ← attributeList attrs)
    | _ => return .inr (q, attrs)

def pointers (attrs : Attributes) : CompileM (List Derivation × Attributes) :=
  loop (([] : List Derivation), attrs) fun (read, attrs) => do
    if ← accept .star then
      let (q, attrs) ← pointerQuals attrs
      return .inl (.pointer q :: read, attrs)
    else return .inr (read.reverse, attrs)

/-- An opening parenthesis begins a declarator in parentheses, not a list of parameters. -/
def opensDeclarator (scope : Scope) (behind : Token) : Bool :=
  match behind.kind with
  | .punct .star | .punct .lparen => true
  | .ident name =>
    match Keyword.ofSpelling? name with
    | some kw => kw == .attribute
    | none => (typedef? scope name).isNone
  | _ => false

def atNestedDeclarator : CompileM Bool := do
  if !(← atPunct .lparen) then return false
  let behind ← peek
  return opensDeclarator (← get).scope behind

/-- Read the parts of a declarator. What binds tightest to the name applies last. -/
def readDeclarator (attrs : Attributes) : CompileM DeclaratorParts := do
  let (stars, attrs) ← pointers attrs
  let inner : DeclaratorParts ←
    if ← atNestedDeclarator then do
      next
      let inner ← declaratorParts (← attributes attrs)
      expect .rparen
      pure inner
    else match ← name? with
      | some name => do
        next
        pure { name := some name, attrs }
      | none => pure { attrs }
  let behind ← suffixes
  return { inner with derivations := stars ++ behind ++ inner.derivations }

end OnePass.Compile
