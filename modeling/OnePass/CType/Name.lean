/-! # Names in scopes

Most things are named by an identifier; some, like a struct without a tag, get a number instead. -/
namespace OnePass

inductive Name where
  | ident (text : String)
  | anonymous (n : Nat)
  deriving DecidableEq, Repr, Inhabited

namespace Name

/-- How the name is shown; no identifier looks like the text of a number. -/
def text : Name → String
  | .ident text => text
  | .anonymous n => "L." ++ toString n

def isAnonymous : Name → Bool
  | .anonymous _ => true
  | .ident _ => false

end Name
end OnePass
