import OnePass.Text.Bytes

/-! # String tables that share suffixes

The strings of a table are written in descending order of their bytes read from the end, so that a
string comes behind those it ends. A string that ends the one last written is not written again. -/
namespace OnePass.Elf.StringPool

def precedes : Bytes → Bytes → Bool
  | [], [] => true
  | [], _ :: _ => false
  | _ :: _, [] => true
  | a :: as, b :: bs => if a == b then precedes as bs else a > b

def insert (text : Bytes) : List Bytes → List Bytes
  | [] => [text]
  | other :: rest =>
    if text == other then other :: rest
    else if precedes text other then text :: other :: rest
    else other :: insert text rest

structure Pool where
  bytes : Array UInt8 := #[0]
  offsets : List (Bytes × Nat) := []
  latest : Bytes := []
  deriving DecidableEq, Repr

/-- Write a reversed string, or point into the one last written. -/
def write (pool : Pool) (reversed : Bytes) : Pool :=
  let text := reversed.reverse
  if reversed.isPrefixOf pool.latest then
    { pool with offsets := (text, pool.bytes.size - text.length - 1) :: pool.offsets }
  else
    { bytes := pool.bytes ++ (text ++ [0]).toArray
      offsets := (text, pool.bytes.size) :: pool.offsets
      latest := reversed }

def ofStrings (strings : List Bytes) : Pool :=
  (strings.foldl (fun sorted text => insert text.reverse sorted) []).foldl write {}

def Pool.offset (pool : Pool) (text : Bytes) : Nat := (pool.offsets.lookup text).getD 0

end OnePass.Elf.StringPool
