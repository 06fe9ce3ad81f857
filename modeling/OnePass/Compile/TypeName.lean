import OnePass.Compile.Record

/-! # Declaration specifiers and type names

Type words may come in any order and mixed with other specifiers, so they are counted first and make
a type at the end. -/
namespace OnePass.Compile

structure Words where
  storage : StorageClass := .unspecified
  isInline : Bool := false
  attrs : Attributes := {}
  quals : Quals := {}
  base : Option CType := none
  chars : Nat := 0
  shorts : Nat := 0
  ints : Nat := 0
  longs : Nat := 0
  signed : Option Bool := none
  isDouble : Bool := false
  seen : Bool := false

namespace Words

def counted (w : Words) : Bool := w.chars + w.shorts + w.ints + w.longs > 0 || w.signed.isSome

def tooMany (w : Words) : Bool :=
  w.chars > 1 || w.shorts > 1 || w.ints > 1 || w.longs > 2 ||
    (w.chars > 0 && w.shorts + w.ints + w.longs > 0) || (w.shorts > 0 && w.longs > 0)

def rank (w : Words) : IntRank :=
  if w.chars > 0 then .char else if w.shorts > 0 then .short else if w.longs > 0 then .long else .int

def integer? (w : Words) (unsignedChar : Bool) : Option CType :=
  if w.tooMany then none
  else
    let unsigned := match w.signed with
      | some signed => !signed
      | none => w.rank == .char && unsignedChar
    some (.intOf w.rank unsigned)

def floating? (w : Words) : Option CType :=
  if w.chars + w.shorts + w.ints > 0 || w.signed.isSome || w.longs > 1 then none
  else some (.float (if w.longs == 1 then .longDouble else .double) {})

def type? (w : Words) (unsignedChar : Bool) : Option CType :=
  match w.base with
  | some ty => if w.counted || w.isDouble then none else some ty
  | none => if w.isDouble then w.floating? else w.integer? unsignedChar

end Words

def setBase (w : Words) (ty : CType) : CompileM Words := do
  if w.base.isSome then fail .basicTypes
  return { w with base := some ty, seen := true }

def typeName : CompileM CType := do
  match ← specifiers? with
  | none => fail (.typeExpected (← tokenText))
  | some spec =>
    if spec.storage != .unspecified then fail .storageInTypeName
    let d ← declarator spec.type spec.attrs
    if d.name.isSome then fail .nameInTypeName
    return d.type

def typeofSpecifier : CompileM CType := do
  next
  expect .lparen
  let ty ← if ← atType then typeName else typeOfExpression
  expect .rparen
  return ty

def setSigned (w : Words) (signed : Bool) : CompileM Words := do
  if w.signed == some !signed then fail .signedAndUnsigned
  return { w with signed := some signed }

def setStorage (w : Words) (storage : StorageClass) : CompileM Words := do
  if w.storage != .unspecified && w.storage != storage then fail .storageClasses
  return { w with storage }

/-- Take a specifier that is one keyword. Other keywords end the specifiers. -/
def simpleWord (w : Words) : Keyword → CompileM (Option Words)
  | .void => some <$> setBase w .plainVoid
  | .char => return some { w with chars := w.chars + 1 }
  | .short => return some { w with shorts := w.shorts + 1 }
  | .int => return some { w with ints := w.ints + 1 }
  | .long => return some { w with longs := w.longs + 1 }
  | .signed => some <$> setSigned w true
  | .unsigned => some <$> setSigned w false
  | .bool => some <$> setBase w (.intOf .bool true)
  | .float => some <$> setBase w (.float .float {})
  | .double => return some { w with isDouble := true }
  | .typedef => some <$> setStorage w .typedef
  | .external => some <$> setStorage w .external
  | .static => some <$> setStorage w .static
  | .auto | .register | .extension | .restrict => return some w
  | .const => return some { w with quals := { w.quals with isConst := true } }
  | .volatile => return some { w with quals := { w.quals with isVolatile := true } }
  | .inline => return some { w with isInline := true }
  | .noreturn => return some { w with attrs := { w.attrs with noReturn := true } }
  | _ => return none

def specifierWord (w : Words) : CompileM (Words ⊕ Words) := do
  match ← keyword? with
  | some .struct => return .inl (← setBase w (← structSpecifier false))
  | some .union => return .inl (← setBase w (← structSpecifier true))
  | some .enum => return .inl (← setBase w (← enumSpecifier))
  | some .typeof => return .inl (← setBase w (← typeofSpecifier))
  | some .attribute => return .inl { w with attrs := ← attributeList w.attrs, seen := true }
  | some kw =>
    match ← simpleWord w kw with
    | some w =>
      next
      return .inl { w with seen := true }
    | none => return .inr w
  | none =>
    match (← name?).bind (typedef? (← get).scope) with
    | some ty =>
      if w.base.isSome || w.counted || w.isDouble then return .inr w
      next
      return .inl { w with base := some ty, seen := true }
    | none => return .inr w

def readSpecifiers : CompileM (Option Specifiers) := do
  let w ← loop ({} : Words) specifierWord
  if !w.seen then return none
  match w.type? (← settings).unsignedChar with
  | none => fail .basicTypes
  | some ty =>
    let q := ty.quals
    let quals : Quals :=
      { isConst := q.isConst || w.quals.isConst, isVolatile := q.isVolatile || w.quals.isVolatile }
    return some { type := ty.withQuals quals, storage := w.storage, isInline := w.isInline,
                  attrs := w.attrs }

end OnePass.Compile
