import OnePass.Token.Keyword

/-! # Numbered names

A table gives each spelling a number, in order of first use; the keywords come first. Numbers from
`firstAnonymous` on belong to things without a spelling. -/
namespace OnePass

structure NameTable where
  names : Array String
  deriving DecidableEq, Repr

namespace NameTable

def firstAnonymous : Nat := 0x10000000

def keywordCount : Nat := Keyword.spellings.length

def initial : NameTable := ⟨(Keyword.spellings.map (·.1)).toArray⟩

def lookup (table : NameTable) (name : String) : Option Nat := table.names.toList.idxOf? name

def intern (table : NameTable) (name : String) : Nat × NameTable :=
  match table.lookup name with
  | some id => (id, table)
  | none => (table.names.size, ⟨table.names.push name⟩)

def name? (table : NameTable) (id : Nat) : Option String := table.names[id]?

def anonymousText (n : Nat) : String := "L." ++ toString n

def spell (table : NameTable) (id : Nat) : String :=
  if firstAnonymous ≤ id then anonymousText (id - firstAnonymous) else (table.name? id).getD ""

def isKeyword (id : Nat) : Bool := id < keywordCount

end NameTable
end OnePass
