import OnePass.Text.Utf8
import OnePass.Elf.LoadError

/-! # Linker scripts

A script is a sequence of commands: `GROUP` and `INPUT` list files and libraries, in which
`AS_NEEDED` may group some; `OUTPUT_FORMAT` and `TARGET` are read over. -/
namespace OnePass.Elf

inductive ScriptInput where
  | file (name : String)
  | library (name : String)
  deriving DecidableEq, Repr

namespace LinkScript

def isSpace (c : Char) : Bool :=
  let n := c.toNat
  (0x09 ≤ n && n ≤ 0x0d) || n == 0x20 || n == 0x85 || n == 0xa0 || n == 0x1680 ||
    (0x2000 ≤ n && n ≤ 0x200a) || n == 0x2028 || n == 0x2029 || n == 0x202f || n == 0x205f ||
    n == 0x3000

inductive Token where
  | opening
  | closing
  | comma
  | word (text : String)
  deriving DecidableEq, Repr

def Token.text : Token → String
  | .opening => "("
  | .closing => ")"
  | .comma => ","
  | .word text => text

def single? : Char → Option Token
  | '(' => some .opening
  | ')' => some .closing
  | ',' => some .comma
  | _ => none

inductive ReadState where
  | gap
  | slash
  | word (read : List Char)
  | comment (star : Bool)
  deriving DecidableEq, Repr

def wordOf (read : List Char) : Token := .word (String.ofList read.reverse)

def gapStep (out : List Token) (c : Char) : ReadState × List Token :=
  if isSpace c then (.gap, out)
  else match single? c with
    | some tok => (.gap, tok :: out)
    | none => if c == '/' then (.slash, out) else (.word [c], out)

def wordStep (out : List Token) (read : List Char) (c : Char) : ReadState × List Token :=
  if isSpace c || (single? c).isSome then gapStep (wordOf read :: out) c else (.word (c :: read), out)

def readStep : ReadState × List Token → Char → ReadState × List Token
  | (.gap, out), c => gapStep out c
  | (.slash, out), c => if c == '*' then (.comment false, out) else wordStep out ['/'] c
  | (.word read, out), c => wordStep out read c
  | (.comment star, out), c =>
    if star && c == '/' then (.gap, out) else (.comment (c == '*'), out)

/-- The tokens of a script. A comment that is not closed runs to the end. -/
def tokens (text : List Char) : List Token :=
  match text.foldl readStep (.gap, []) with
  | (.slash, out) => (wordOf ['/'] :: out).reverse
  | (.word read, out) => (wordOf read :: out).reverse
  | (_, out) => out.reverse

/-- Where parsing stands: between commands, behind the name of one, inside a list of files nested to
a depth, behind `AS_NEEDED` in such a list, or inside a command that is read over. -/
inductive ParseState where
  | top
  | command (name : Token)
  | files (depth : Nat)
  | asNeeded (depth : Nat)
  | skipping
  deriving DecidableEq, Repr

def inputOf (text : String) : ScriptInput :=
  match text.toList with
  | '-' :: 'l' :: name => .library (String.ofList name)
  | _ => .file text

def openCommand (name : Token) : Except ScriptFault ParseState :=
  match name with
  | .word "GROUP" | .word "INPUT" => .ok (.files 1)
  | .word "OUTPUT_FORMAT" | .word "TARGET" => .ok .skipping
  | other => .error (.unexpected other.text)

def parseStep : ParseState → Token → Except ScriptFault (ParseState × Option ScriptInput)
  | .top, tok => .ok (.command tok, none)
  | .command name, .opening => (openCommand name).map (·, none)
  | .command name, _ => .error (.unexpected name.text)
  | .files depth, .closing => .ok (if depth ≤ 1 then .top else .files (depth - 1), none)
  | .files depth, .comma => .ok (.files depth, none)
  | .files _, .opening => .error (.unexpected "(")
  | .files depth, .word "AS_NEEDED" => .ok (.asNeeded depth, none)
  | .files depth, .word text => .ok (.files depth, some (inputOf text))
  | .asNeeded depth, .opening => .ok (.files (depth + 1), none)
  | .asNeeded _, _ => .error .asNeeded
  | .skipping, .closing => .ok (.top, none)
  | .skipping, _ => .ok (.skipping, none)

def parseEnd : ParseState → Except ScriptFault Unit
  | .top => .ok ()
  | .command name => .error (.unexpected name.text)
  | .files _ | .skipping => .error .unclosed
  | .asNeeded _ => .error .asNeeded

def parseTokens (state : ParseState) : List Token → Except ScriptFault (List ScriptInput)
  | [] => (parseEnd state).map fun _ => []
  | tok :: rest => do
    let (state, input) ← parseStep state tok
    let inputs ← parseTokens state rest
    return input.toList ++ inputs

def parse (data : Bytes) : Except LoadError (List ScriptInput) :=
  match Utf8.decode? data with
  | none => .error (.invalidScript .binary)
  | some text =>
    match parseTokens .top (tokens text.toList) with
    | .ok inputs => .ok inputs
    | .error fault => .error (.invalidScript fault)

end LinkScript
end OnePass.Elf
