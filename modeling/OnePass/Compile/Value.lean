import OnePass.CType
import OnePass.Scope

/-! # Values

The operands of an expression as the compiler holds them. A value is a constant, an address that is
known relative to the frame or to a symbol, or something in a register or on the machine stack. -/
namespace OnePass

/-- Where a value is. For an lvalue the place describes the address of the object. -/
inductive Place where
  | const (value : Int64)
  | frame (offset : Int32)
  | symbol (entity : EntityId) (addend : Int64)
  | register
  | spilled
  /-- The address is stored in a frame slot. -/
  | indirect (offset : Int32)
  deriving DecidableEq, Repr, Inhabited

structure Value where
  type : CType
  place : Place
  lvalue : Bool := false
  deriving Repr, Inhabited

namespace Value

def const (type : CType) (value : Int64) : Value := { type, place := .const value }

def const? (v : Value) : Option Int64 :=
  match v.place with
  | .const value => if v.lvalue then none else some value
  | _ => none

def isSymbolAddress (v : Value) : Bool :=
  match v.place with
  | .symbol .. => !v.lvalue
  | _ => false

def isFrameAddress (v : Value) : Bool :=
  match v.place with
  | .frame _ => !v.lvalue
  | _ => false

/-- The truth of the value where it is known: addresses are never 0. -/
def truth? (v : Value) : Option Bool :=
  match v.const? with
  | some value => some (value != 0)
  | none => if v.isSymbolAddress || v.isFrameAddress then some true else none

def decayed (v : Value) : Value :=
  if v.lvalue && (v.type.isArray || v.type.isFunc) then
    { v with type := v.type.decay, lvalue := false }
  else v

end Value
end OnePass
