import OnePass.CType

/-! # Conversions on assignment

What happens when a value of one type is assigned to an object of another, passed as an argument or
returned. Questionable conversions are allowed, warned of or refused as a policy says. -/
namespace OnePass

inductive Check where
  | allow
  | warn
  | error
  deriving DecidableEq, Repr

structure ConversionPolicy where
  intToPointer : Check := .warn
  pointerToInt : Check := .warn
  incompatiblePointers : Check := .warn
  discardsQualifiers : Check := .warn
  deriving DecidableEq, Repr

inductive ConversionDoubt where
  | intToPointer
  | pointerToInt
  | incompatiblePointers
  | discardsQualifiers
  | floating
  | incompatible
  deriving DecidableEq, Repr

def ConversionDoubt.text : ConversionDoubt → String
  | .intToPointer => "assignment makes pointer from integer without a cast"
  | .pointerToInt => "assignment makes integer from pointer without a cast"
  | .incompatiblePointers => "assignment from incompatible pointer type"
  | .discardsQualifiers => "assignment discards qualifiers from pointer target type"
  | .floating => "floating point types are not supported"
  | .incompatible => "incompatible types in assignment"

inductive Conversion where
  | ok
  | warn (doubt : ConversionDoubt)
  | error (doubt : ConversionDoubt)
  deriving DecidableEq, Repr

def Check.apply (doubt : ConversionDoubt) : Check → Conversion
  | .allow => .ok
  | .warn => .warn doubt
  | .error => .error doubt

namespace ConversionPolicy

def checkPointers (policy : ConversionPolicy) (target source : CType) : Conversion :=
  if source.isConst && !target.isConst then policy.discardsQualifiers.apply .discardsQualifiers
  else if target.isVoid || source.isVoid || target.compatible source then .ok
  else policy.incompatiblePointers.apply .incompatiblePointers

/-- Assign a value of type `source` to an object of type `target`. `isNull` says that the value is the
constant 0, which is also a pointer. -/
def checkAssign (policy : ConversionPolicy) (target source : CType) (isNull : Bool) : Conversion :=
  match target, source.decay with
  | .void _, _ => .ok
  | .int .., .int .. => .ok
  | .pointer .., .int .. => if isNull then .ok else policy.intToPointer.apply .intToPointer
  | .int rank _ _, .pointer .. =>
    if rank == .bool then .ok else policy.pointerToInt.apply .pointerToInt
  | .pointer a _, .pointer b _ => policy.checkPointers a b
  | .struct a _, .struct b _ => if a == b then .ok else .error .incompatible
  | .float .., _ => .error .floating
  | _, .float .. => .error .floating
  | _, _ => .error .incompatible

end ConversionPolicy
end OnePass
