/-! # Diagnostics

Errors and warnings are formatted with the chain of files that leads to them, delivered in order and
counted. A warning is delivered as a warning, delivered and counted as an error, or dropped, as the
switches say. -/
namespace OnePass

inductive ErrorKind where
  | lexical
  | grammar
  | semantic
  | resource
  | link
  | internal
  deriving DecidableEq, Repr

def ErrorKind.name : ErrorKind → String
  | .lexical => "lexical"
  | .grammar => "syntax"
  | .semantic => "semantic"
  | .resource => "resource"
  | .link => "link"
  | .internal => "internal"

/-- A file of the include chain and the line reached in it; line 0 stands for no line. -/
structure Location where
  file : String
  line : Nat
  deriving DecidableEq, Repr

inductive Severity where
  | warning
  | error
  deriving DecidableEq, Repr

structure CompileError where
  kind : ErrorKind
  message : String
  deriving DecidableEq, Repr

structure Complaint where
  kind : ErrorKind
  text : String
  deriving DecidableEq, Repr

structure WarningSwitches where
  silent : Bool := false
  fatal : Bool := false
  unsupported : Bool := false
  writeStrings : Bool := false
  implicitFunction : Bool := false
  deriving DecidableEq, Repr, Inhabited

/-- A switch name with the `no-` in front taken off and the value turned round for it. -/
def switchValue (name : String) (value : Bool) : String × Bool :=
  if name.startsWith "no-" then (String.ofList (name.toList.drop 3), !value) else (name, value)

def WarningSwitches.set? (switches : WarningSwitches) (name : String) (value : Bool) :
    Option WarningSwitches :=
  if name == "all" then some { switches with implicitFunction := true }
  else
    let (name, value) := switchValue name value
    match name with
    | "none" => some { switches with silent := value }
    | "error" => some { switches with fatal := value }
    | "unsupported" => some { switches with unsupported := value }
    | "write-strings" => some { switches with writeStrings := value }
    | "implicit-function-declaration" => some { switches with implicitFunction := value }
    | _ => none

structure Diagnostics where
  switches : WarningSwitches := {}
  errorCount : Nat := 0
  lastError : Option CompileError := none
  delivered : List String := []
  deriving DecidableEq, Repr, Inhabited

namespace Diagnostics

def programName : String := "crustcc"

/-- Where a message belongs: the including files, outermost first, then the file itself. -/
def chainText : List Location → String
  | [] => programName ++ ": "
  | [here] =>
    if here.line > 0 then here.file ++ ":" ++ toString here.line ++ ": " else here.file ++ ": "
  | outer :: inner =>
    "In file included from " ++ outer.file ++ ":" ++ toString outer.line ++ ":\n" ++ chainText inner

def format (chain : List Location) (severity : Severity) (text : String) : String :=
  chainText chain ++ (match severity with | .warning => "warning: " | .error => "error: ") ++ text

def deliver (d : Diagnostics) (text : String) : Diagnostics :=
  { d with delivered := text :: d.delivered }

def error (d : Diagnostics) (chain : List Location) (complaint : Complaint) :
    CompileError × Diagnostics :=
  let err : CompileError := ⟨complaint.kind, format chain .error complaint.text⟩
  (err, { d.deliver err.message with errorCount := d.errorCount + 1, lastError := some err })

def warning (d : Diagnostics) (chain : List Location) (text : String) : Diagnostics :=
  if d.switches.silent then d
  else if d.switches.fatal then (d.error chain ⟨.semantic, text⟩).2
  else d.deliver (format chain .warning text)

def reset (d : Diagnostics) : Diagnostics := { d with errorCount := 0, lastError := none }

def failure (d : Diagnostics) : CompileError :=
  d.lastError.getD
    ⟨.internal, programName ++ ": error: " ++ toString d.errorCount ++ " error(s)"⟩

end Diagnostics

inductive Stop where
  | failed (error : CompileError)
  /-- A loop or a recursion ran out of its allowance. -/
  | exhausted
  deriving DecidableEq, Repr

end OnePass
