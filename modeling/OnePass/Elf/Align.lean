/-! # Alignment -/
namespace OnePass

/-- The next multiple of a power of two; 0 and 1 ask for none. The mask is taken as it is for other
numbers too. -/
def alignUp (value align : UInt64) : UInt64 :=
  if align ≤ 1 then value else (value + align - 1) &&& ~~~(align - 1)

end OnePass
