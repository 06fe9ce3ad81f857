import OnePass.Compile.Fault
import OnePass.Compile.Specifiers
import OnePass.Compile.Value
import OnePass.Elf.SymbolTable
import OnePass.Preprocess.Directive

/-! # The compiler's state

A unit is compiled while it is read: what has been declared, the code emitted so far and the operands
of the expression being read are all there is; no tree is built. -/
namespace OnePass

structure Settings where
  unsignedChar : Bool := false
  /-- Objects without initializer become common symbols. -/
  common : Bool := false
  leadingUnderscore : Bool := false
  /-- Functions that handle memory are replaced by ones that check it. -/
  boundsCheck : Bool := false
  /-- Names of `stdcall` functions say how many bytes their arguments take. -/
  argumentSizes : Bool := false
  conversions : ConversionPolicy := {}
  deriving DecidableEq, Repr

/-- Set a switch by name, where `no-` in front turns the value round; `none` for names that are no
switch. -/
def Settings.set? (settings : Settings) (name : String) (value : Bool) : Option Settings :=
  let (name, value) := switchValue name value
  match name with
  | "unsigned-char" => some { settings with unsignedChar := value }
  | "signed-char" => some { settings with unsignedChar := !value }
  | "common" => some { settings with common := value }
  | "leading-underscore" => some { settings with leadingUnderscore := value }
  | "bounds-check" => some { settings with boundsCheck := value }
  | "pe-mangling" => some { settings with argumentSizes := value }
  | _ => none

structure Function where
  entity : EntityId
  result : CType
  returns : List Nat := []
  deriving Repr

structure SwitchCase where
  low : Int64
  high : Int64
  position : Nat
  deriving DecidableEq, Repr

structure Switch where
  type : CType
  cases : List SwitchCase := []
  defaultPosition : Option Nat := none
  deriving Repr

/-- A function that is compiled only if something refers to it. -/
structure DeferredFunction where
  entity : EntityId
  body : List Token
  done : Bool := false
  deriving Repr

structure Compiler where
  pre : Preprocessor
  arena : Elf.Arena
  scope : Scope := {}
  tok : Token := Token.eof 0
  peeked : Option Token := none
  /-- The tokens read since a recording began, latest first. -/
  recording : Option (List Token) := none
  values : List Value := []
  /-- Values are followed and no code is emitted. -/
  noCode : Bool := false
  /-- String literals are not stored either. -/
  noData : Bool := false
  text : Elf.SectionId
  frameUsed : Nat := 0
  stackDepth : Int := 0
  nesting : Nat := 0
  function : Option Function := none
  breaks : List (List Nat) := []
  continues : List (List Nat) := []
  switches : List Switch := []
  deferred : Array DeferredFunction := #[]

inductive Goal where
  | expression
  | assignment
  | conditional
  | binary (least : Nat)
  | cast
  | unary
  | specifiers
  | declarator (attrs : Attributes)
  deriving DecidableEq, Repr

/-- What reading a part of the grammar gives; expressions leave their value among the operands. -/
def Goal.Result : Goal → Type
  | .specifiers => Option Specifiers
  | .declarator _ => DeclaratorParts
  | _ => Unit

structure Env where
  host : Host
  settings : Settings
  solve : (g : Goal) → EStateM Stop Compiler g.Result

abbrev CompileM := ReaderT Env (EStateM Stop Compiler)

namespace Compile

def solve (g : Goal) : CompileM g.Result := fun env => env.solve g

def expression : CompileM Unit := solve .expression
def assignment : CompileM Unit := solve .assignment
def conditional : CompileM Unit := solve .conditional
def binaryFrom (least : Nat) : CompileM Unit := solve (.binary least)
def castExpression : CompileM Unit := solve .cast
def unaryExpression : CompileM Unit := solve .unary
def specifiers? : CompileM (Option Specifiers) := solve .specifiers
def declaratorParts (attrs : Attributes) : CompileM DeclaratorParts := solve (.declarator attrs)

@[inline] def loop (initial : α) (step : α → CompileM (α ⊕ β)) : CompileM β := fun env =>
  iterate step env.host.fuel initial env

@[inline] def while_ (step : CompileM Bool) : CompileM Unit :=
  loop () fun () => do return if ← step then .inl () else .inr ()

def preprocess (act : PreM α) : CompileM α := fun env s =>
  match act env.host s.pre with
  | .ok a pre => .ok a { s with pre }
  | .error e pre => .error e { s with pre }

def chain (s : Compiler) : List Location :=
  if s.tok.line == 0 then s.pre.chain else s.pre.chainAt s.tok.line

def fail (fault : CompileFault) : CompileM α := do
  let e ← modifyGet fun s =>
    let (e, pre) := s.pre.reportOn (chain s) fault.complaint
    (e, { s with pre })
  throw (.failed e)

def warn (doubt : CompileDoubt) : CompileM Unit :=
  modify fun s =>
    { s with pre := { s.pre with diagnostics := s.pre.diagnostics.warning (chain s) doubt.text } }

def settings : CompileM Settings := return (← read).settings

def switches : CompileM WarningSwitches := return (← get).pre.diagnostics.switches

/-- Run an action and then change the state, whether the action succeeded or not. -/
def finishing (act : CompileM α) (after : Compiler → Compiler) : CompileM α := fun env s =>
  match act env s with
  | .ok a s => .ok a (after s)
  | .error e s => .error e (after s)

def withoutCode (act : CompileM α) : CompileM α := do
  let saved := (← get).noCode
  modify fun s => { s with noCode := true }
  finishing act fun s => { s with noCode := saved }

def withoutData (act : CompileM α) : CompileM α := do
  let saved := (← get).noData
  modify fun s => { s with noData := true }
  finishing (withoutCode act) fun s => { s with noData := saved }

end Compile
end OnePass
