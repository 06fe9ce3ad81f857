/-! # C types

A type is a shape with qualifiers. Structs and unions are numbered; their members are kept in a table
beside the types, so that a pointer to one can be written before its members are known. -/
namespace OnePass

/-- Integer ranks, narrowest first; the longest rank has one width for both of its spellings. -/
inductive IntRank where
  | bool
  | char
  | short
  | int
  | long
  deriving DecidableEq, Repr

namespace IntRank

def order : IntRank → Nat
  | .bool => 0
  | .char => 1
  | .short => 2
  | .int => 3
  | .long => 4

def bytes : IntRank → Nat
  | .bool | .char => 1
  | .short => 2
  | .int => 4
  | .long => 8

end IntRank

inductive FloatRank where
  | float
  | double
  | longDouble
  deriving DecidableEq, Repr

inductive CallConv where
  | cdecl
  | stdcall
  | fastcall
  deriving DecidableEq, Repr

structure Quals where
  isConst : Bool := false
  isVolatile : Bool := false
  deriving DecidableEq, Repr, Inhabited

structure FuncInfo where
  names : List (Option String) := []
  variadic : Bool := false
  /-- Declared without parameters: arguments are not checked. -/
  oldStyle : Bool := false
  conv : CallConv := .cdecl
  deriving DecidableEq, Repr

abbrev StructId := Nat

inductive CType where
  | void (q : Quals)
  | int (rank : IntRank) (unsigned : Bool) (q : Quals)
  | float (rank : FloatRank) (q : Quals)
  | pointer (target : CType) (q : Quals)
  | array (elem : CType) (length : Option UInt64) (q : Quals)
  | func (result : CType) (params : List CType) (info : FuncInfo) (q : Quals)
  | struct (id : StructId) (q : Quals)
  deriving Repr, Inhabited

namespace CType

def quals : CType → Quals
  | .void q | .int _ _ q | .float _ q | .pointer _ q | .array _ _ q | .func _ _ _ q | .struct _ q => q

def withQuals (q : Quals) : CType → CType
  | .void _ => .void q
  | .int rank unsigned _ => .int rank unsigned q
  | .float rank _ => .float rank q
  | .pointer target _ => .pointer target q
  | .array elem length _ => .array elem length q
  | .func result params info _ => .func result params info q
  | .struct id _ => .struct id q

def isConst (ty : CType) : Bool := ty.quals.isConst
def isVolatile (ty : CType) : Bool := ty.quals.isVolatile

def unqualified (ty : CType) : CType := ty.withQuals {}

def plainVoid : CType := .void {}
def intOf (rank : IntRank) (unsigned : Bool) : CType := .int rank unsigned {}
def plainInt : CType := intOf .int false
def plainUInt : CType := intOf .int true
def plainLong : CType := intOf .long false
def plainULong : CType := intOf .long true
def plainChar (unsigned : Bool) : CType := intOf .char unsigned

def pointerTo (ty : CType) : CType := .pointer ty {}
def arrayOf (ty : CType) (length : Option UInt64) : CType := .array ty length {}

def isVoid : CType → Bool
  | .void _ => true
  | _ => false

def isInteger : CType → Bool
  | .int .. => true
  | _ => false

def isBool : CType → Bool
  | .int .bool _ _ => true
  | _ => false

def isFloat : CType → Bool
  | .float .. => true
  | _ => false

def isPointer : CType → Bool
  | .pointer .. => true
  | _ => false

def isArray : CType → Bool
  | .array .. => true
  | _ => false

def isFunc : CType → Bool
  | .func .. => true
  | _ => false

def isStruct : CType → Bool
  | .struct .. => true
  | _ => false

def isScalar (ty : CType) : Bool := ty.isInteger || ty.isPointer

def isAggregate (ty : CType) : Bool := ty.isArray || ty.isStruct || ty.isFunc

def isUnsigned : CType → Bool
  | .int _ unsigned _ => unsigned
  | .pointer .. => true
  | _ => false

def rank? : CType → Option IntRank
  | .int rank _ _ => some rank
  | _ => none

def pointee? : CType → Option CType
  | .pointer target _ => some target
  | .array elem _ _ => some elem
  | _ => none

def structId? : CType → Option StructId
  | .struct id _ => some id
  | _ => none

def arrayLength? : CType → Option UInt64
  | .array _ length _ => length
  | _ => none

def decay : CType → CType
  | .array elem _ _ => elem.pointerTo
  | .func result params info q => pointerTo (.func result params info q)
  | ty => ty

def promote (ty : CType) : CType :=
  match ty with
  | .int rank _ _ => if rank.order < IntRank.int.order then plainInt else ty.unqualified
  | _ => ty.unqualified

/-- The width of a value in bytes, and whether it is extended with its sign. -/
def width : CType → Nat × Bool
  | .int rank unsigned _ => (rank.bytes, !unsigned && rank != .bool)
  | _ => (8, false)

def common (a b : CType) : CType :=
  match a.promote, b.promote with
  | .int ra ua _, .int rb ub _ =>
    if ra == rb then intOf ra (ua || ub)
    else if rb.order < ra.order then intOf ra ua
    else intOf rb ub
  | _, _ => plainLong

/-- A value as a register holds it: cut to the type's width and extended again. -/
def canonical (ty : CType) (value : Int64) : Int64 :=
  if ty.isBool then (if value != 0 then 1 else 0)
  else match ty.width with
    | (1, true) => value.toInt8.toInt64
    | (1, false) => value.toUInt64.toUInt8.toUInt64.toInt64
    | (2, true) => value.toInt16.toInt64
    | (2, false) => value.toUInt64.toUInt16.toUInt64.toInt64
    | (4, true) => value.toInt32.toInt64
    | (4, false) => value.toUInt64.toUInt32.toUInt64.toInt64
    | _ => value

mutual

/-- Types that may be used for each other: qualifiers on the outside do not count, an open length
fits every length, and a function without parameter types fits every one with the same result. -/
def compatible : CType → CType → Bool
  | .void _, .void _ => true
  | .int ra ua _, .int rb ub _ => ra == rb && ua == ub
  | .float ra _, .float rb _ => ra == rb
  | .pointer a _, .pointer b _ => compatible a b
  | .array a la _, .array b lb _ => (la.isNone || lb.isNone || la == lb) && compatible a b
  | .func ra pa fa _, .func rb pb fb _ =>
    compatible ra rb &&
      (fa.oldStyle || fb.oldStyle || (fa.variadic == fb.variadic && compatibleAll pa pb))
  | .struct a _, .struct b _ => a == b
  | _, _ => false

def compatibleAll : List CType → List CType → Bool
  | [], [] => true
  | a :: as, b :: bs => compatible a b && compatibleAll as bs
  | _, _ => false

end

end CType
end OnePass
