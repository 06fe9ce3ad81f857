import OnePass.Token

/-! # Macros

A macro table maps names to definitions and remembers every change, so that the changes made since
a mark can be taken back. -/
namespace OnePass

inductive BodyPart where
  | token (kind : TokenKind)
  | param (n : Nat)
  | stringize (n : Nat)
  deriving DecidableEq, Repr

structure BodyToken where
  part : BodyPart
  space : Bool
  deriving DecidableEq, Repr

def BodyPart.text : BodyPart → String
  | .token kind => kind.text
  | .param n => "<param " ++ toString n ++ ">"
  | .stringize n => "#<param " ++ toString n ++ ">"

structure Macro where
  params : Option (List String) := none
  variadic : Bool := false
  body : List BodyToken := []
  deriving DecidableEq, Repr

namespace Macro

def arity (m : Macro) : Nat := (m.params.map List.length).getD 0

/-- The same definition, up to white space before the replacement list. -/
def sameAs (a b : Macro) : Bool :=
  a.params == b.params && a.variadic == b.variadic &&
    a.body.map (·.part) == b.body.map (·.part) &&
    (a.body.drop 1).map (·.space) == (b.body.drop 1).map (·.space)

end Macro

structure MacroTable where
  current : List (String × Macro) := []
  history : List (String × Option Macro) := []
  deriving DecidableEq, Repr

namespace MacroTable

def find? (table : MacroTable) (name : String) : Option Macro := table.current.lookup name

def isDefined (table : MacroTable) (name : String) : Bool := (table.find? name).isSome

def bind (current : List (String × Macro)) (name : String) (m : Option Macro) :
    List (String × Macro) :=
  let others := current.filter (·.1 != name)
  match m with
  | some m => (name, m) :: others
  | none => others

def define (table : MacroTable) (name : String) (m : Macro) : MacroTable :=
  { current := bind table.current name (some m)
    history := (name, table.find? name) :: table.history }

def undefine (table : MacroTable) (name : String) : MacroTable :=
  match table.find? name with
  | none => table
  | some old => { current := bind table.current name none, history := (name, some old) :: table.history }

def mark (table : MacroTable) : Nat := table.history.length

def undo : Nat → MacroTable → MacroTable
  | 0, table => table
  | count + 1, table =>
    match table.history with
    | [] => table
    | (name, old) :: history => undo count { current := bind table.current name old, history }

def release (table : MacroTable) (mark : Nat) : MacroTable :=
  undo (table.history.length - mark) table

def dynamicNames : List String := ["__LINE__", "__FILE__", "__DATE__", "__TIME__", "__COUNTER__"]

/-- The table before any definition: the dynamic macros count as defined. -/
def initial : MacroTable := { current := dynamicNames.map (·, {}) }

end MacroTable
end OnePass
