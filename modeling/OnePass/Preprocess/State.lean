import OnePass.FileSystem
import OnePass.Text.Writer
import OnePass.Diagnostics
import OnePass.Token.Lexer
import OnePass.Token.Literal
import OnePass.Macro

/-! # The preprocessor's state

Tokens come from a slot for one token read too far, from the stack of expansions being read, and
from the stack of files, in this order. -/
namespace OnePass

/-- Tokens that are read before anything else: an expansion, a replay or a list of its own. -/
structure Frame where
  tokens : List Token
  /-- The macro whose expansion this is. -/
  hides : Option String := none
  /-- The end of the tokens is the end of the input. -/
  barrier : Bool := false
  deriving DecidableEq, Repr

structure Conditional where
  taken : Bool
  inElse : Bool := false
  deriving DecidableEq, Repr

structure Preprocessor where
  diagnostics : Diagnostics := {}
  files : List Source := []
  conditionals : List Conditional := []
  macros : MacroTable := MacroTable.initial
  frames : List Frame := []
  pushback : Option Token := none
  includePaths : List String := []
  sysIncludePaths : List String := []
  deps : List String := []
  absent : List String := []
  onceFiles : List String := []
  fileSwitches : Nat := 0
  counter : Nat := 0
  printed : Writer := {}
  deriving DecidableEq, Repr, Inhabited

structure Host where
  fuel : Nat
  files : FileSystem := {}
  /-- The components of the file that the preprocessed text goes to. -/
  textFile : Option (List String) := none
  clock : Nat := 0

abbrev PreM := ReaderT Host (EStateM Stop Preprocessor)

@[specialize] def iterate [Monad m] [MonadExceptOf Stop m] (step : α → m (α ⊕ β)) : Nat → α → m β
  | 0, _ => throw .exhausted
  | fuel + 1, a => do
    match ← step a with
    | .inl a => iterate step fuel a
    | .inr b => return b

namespace Preprocessor

def chain (pp : Preprocessor) : List Location :=
  pp.files.reverse.map fun src => ⟨src.name, src.line.toNat⟩

def chainAt (pp : Preprocessor) (line : UInt32) : List Location :=
  match pp.files with
  | [] => []
  | src :: outer => ({ pp with files := { src with line } :: outer }).chain

/-- The current file. When it is the one that the preprocessed text goes to, it may have grown. -/
def current? (pp : Preprocessor) : Option Source :=
  pp.files.head?.map fun src =>
    match src.follows with
    | none => src
    | some taken =>
      if src.ended || pp.printed.passed ≤ taken then src
      else
        let (added, _) := splice 0 [] (pp.printed.passedOn.drop taken)
        { src with text := src.text ++ added, follows := some pp.printed.passed }

def line (pp : Preprocessor) : UInt32 := (pp.files.head?.map (·.line)).getD 0

def fileName (pp : Preprocessor) : String := (pp.files.head?.map (·.name)).getD ""

def reportOn (pp : Preprocessor) (chain : List Location) (complaint : Complaint) :
    CompileError × Preprocessor :=
  let (e, diagnostics) := pp.diagnostics.error chain complaint
  (e, { pp with diagnostics })

def popFile (pp : Preprocessor) : Preprocessor :=
  match pp.files with
  | [] => pp
  | _ :: files => { pp with files, fileSwitches := pp.fileSwitches + 1 }

def clearPending (pp : Preprocessor) : Preprocessor :=
  { pp with conditionals := [], frames := [], pushback := none }

def fileDepth (pp : Preprocessor) : Nat := (pp.files.head?.map (·.openConditionals)).getD 0

def searchPaths (pp : Preprocessor) : List String := pp.includePaths ++ pp.sysIncludePaths

end Preprocessor

namespace PreM

def report (complaint : Complaint) : PreM CompileError :=
  modifyGet fun pp => pp.reportOn pp.chain complaint

def fail (complaint : Complaint) : PreM α := do throw (.failed (← report complaint))

def failAt (line : UInt32) (complaint : Complaint) : PreM α := do
  let e ← modifyGet fun pp => pp.reportOn (pp.chainAt line) complaint
  throw (.failed e)

def warn (text : String) : PreM Unit :=
  modify fun pp => { pp with diagnostics := pp.diagnostics.warning pp.chain text }

def finishing (act : PreM α) (after : Preprocessor → Preprocessor) : PreM α := fun host pp =>
  match act host pp with
  | .ok a pp => .ok a (after pp)
  | .error e pp => .error e (after pp)

def resolve (name : String) : PreM (Except FileError (List String × Node)) := do
  let found := (← read).files.resolve name
  if let .error _ := found then modify fun pp => { pp with absent := name :: pp.absent }
  return found

def lookup (name : String) : PreM (Except FileError Node) := do
  return (← resolve name).map (·.2)

/-- Open a file; a directory can be opened and has no text. Of the file that the preprocessed text goes
to, what was passed on so far is there to be read. -/
def openFile (name : String) : PreM (Except FileError (Option Source)) := do
  match ← resolve name with
  | .error e => return .error e
  | .ok (_, .directory) => return .ok none
  | .ok (key, .file contents) =>
    if (← read).textFile == some key then
      return .ok (some { name, text := [], follows := some 0 })
    else return .ok (some (Source.ofBytes name contents))

def setFile (src : Source) : PreM Unit :=
  modify fun pp => { pp with files := src :: pp.files.drop 1 }

def lex (newlines : Bool) : PreM Token := do
  match (← get).current? with
  | none => return Token.eof 0
  | some src =>
    let (result, src) := Lexer.nextToken newlines src
    setFile src
    match result with
    | .ok tok => return tok
    | .error e => failAt e.line ⟨.lexical, e.fault.text⟩

def readLine : PreM (List Token) := do
  iterate (fun read => do
    let tok ← lex true
    return if tok.endsLine then .inr read.reverse else .inl (tok :: read)) (← read).fuel []

end PreM
end OnePass
