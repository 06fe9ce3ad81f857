import OnePass.CType

/-! # The parts of a declaration -/
namespace OnePass

structure Attributes where
  /-- The alignment asked for, 0 for none. -/
  aligned : UInt64 := 0
  weak : Bool := false
  noReturn : Bool := false
  section_ : Option String := none
  conv : Option CallConv := none
  deriving DecidableEq, Repr, Inhabited

inductive StorageClass where
  | unspecified
  | external
  | static
  | typedef
  deriving DecidableEq, Repr, Inhabited

structure Specifiers where
  type : CType
  storage : StorageClass := .unspecified
  isInline : Bool := false
  attrs : Attributes := {}
  deriving Repr, Inhabited

inductive Derivation where
  | pointer (q : Quals)
  | array (length : Option UInt64)
  | func (params : List CType) (info : FuncInfo)
  deriving Repr

/-- A declarator as it was read: the derivations in the order in which they apply to the base type,
the name unless it has none, and the attributes met so far. -/
structure DeclaratorParts where
  derivations : List Derivation := []
  name : Option String := none
  attrs : Attributes := {}
  deriving Repr, Inhabited

structure Declarator where
  type : CType
  name : Option String
  attrs : Attributes
  deriving Repr

end OnePass
