import OnePass.Session

/-! # The command line

Options come before the input file, the arguments of the compiled program behind it. Options of one letter
may share a dash, and the value of an option may follow its letter directly. Behind the file a word is
still an option if all of it reads as one; the first that does not begins the arguments. -/
namespace OnePass.CommandLine

structure Arguments where
  preprocess : Bool := false
  object : Bool := false
  silent : Bool := false
  noStdInc : Bool := false
  verbosity : Nat := 0
  output : Option String := none
  includePaths : List String := []
  libraryPaths : List String := []
  libraries : List String := []
  defines : List String := []
  undefines : List String := []
  warnings : List String := []
  flags : List String := []
  input : Option String := none
  rest : List String := []
  deriving DecidableEq, Repr

inductive Refusal where
  | version
  | help
  | usage
  deriving DecidableEq, Repr

abbrev Parsed := Except Refusal Arguments

def valueLetters : List Char := ['o', 'I', 'L', 'l', 'D', 'U', 'W', 'f']

def switchLetters : List Char := ['E', 'c', 'w', 'v', 'V', 'h']

def longNames : List String := ["nostdinc", "version", "help"]

def once (isSet : Bool) (args : Arguments) : Parsed := if isSet then .error .usage else .ok args

def switch (letter : Char) (args : Arguments) : Parsed :=
  match letter with
  | 'E' => once args.preprocess { args with preprocess := true }
  | 'c' => once args.object { args with object := true }
  | 'w' => once args.silent { args with silent := true }
  | 'v' => .ok { args with verbosity := args.verbosity + 1 }
  | 'V' => .error .version
  | 'h' => .error .help
  | _ => .error .usage

def setValue (letter : Char) (value : String) (args : Arguments) : Parsed :=
  match letter with
  | 'o' => once args.output.isSome { args with output := some value }
  | 'I' => .ok { args with includePaths := args.includePaths ++ [value] }
  | 'L' => .ok { args with libraryPaths := args.libraryPaths ++ [value] }
  | 'l' => .ok { args with libraries := args.libraries ++ [value] }
  | 'D' => .ok { args with defines := args.defines ++ [value] }
  | 'U' => .ok { args with undefines := args.undefines ++ [value] }
  | 'W' => .ok { args with warnings := args.warnings ++ [value] }
  | 'f' => .ok { args with flags := args.flags ++ [value] }
  | _ => .error .usage

/-- The letters behind a dash; the result tells which option still needs its value. An equals sign
before a value is not part of it. -/
def letters : List Char → Arguments → Except Refusal (Arguments × Option Char)
  | [], args => .ok (args, none)
  | letter :: rest, args =>
    if valueLetters.contains letter then
      match rest with
      | [] => .ok (args, some letter)
      | '=' :: value => (setValue letter (String.ofList value) args).map (·, none)
      | value => (setValue letter (String.ofList value) args).map (·, none)
    else
      match switch letter args with
      | .error e => .error e
      | .ok args => letters rest args

def looksLikeOption (word : String) : Bool := word.startsWith "-" && word != "-"

def long (name : String) (args : Arguments) : Parsed :=
  match name with
  | "nostdinc" => once args.noStdInc { args with noStdInc := true }
  | "version" => .error .version
  | "help" => .error .help
  | _ => .error .usage

def options (word : String) (args : Arguments) : Except Refusal (Arguments × Option Char) :=
  match word.toList with
  | '-' :: '-' :: name => (long (String.ofList name) args).map (·, none)
  | _ :: rest => letters rest args
  | [] => .ok (args, none)

/-- Every letter of the word is one of an option, or the name behind its two dashes is, up to an equals
sign. A letter counts even where it would be part of a value. -/
def isKnown (word : String) : Bool :=
  match word.toList with
  | '-' :: '-' :: text => longNames.contains (String.ofList (text.takeWhile (· != '=')))
  | '-' :: rest => rest.all fun c => switchLetters.contains c || valueLetters.contains c
  | _ => false

def isOption (args : Arguments) (word : String) : Bool :=
  looksLikeOption word && (args.input.isNone || isKnown word)

/-- Words that are no options, whatever they look like: the input file, unless it is known, and the
arguments of the program. -/
def positional (args : Arguments) (words : List String) : Arguments :=
  match args.input, words with
  | none, input :: rest => { args with input := some input, rest }
  | _, rest => { args with rest }

/-- The words of a command line, one after the other. Behind two dashes alone there are no options. -/
def words : List String → Arguments → Parsed
  | [], args => .ok args
  | word :: rest, args =>
    if word == "--" then .ok (positional args rest)
    else if isOption args word then
      match options word args with
      | .error e => .error e
      | .ok (args, none) => words rest args
      | .ok (args, some letter) =>
        match rest with
        | [] => .error .usage
        | value :: rest =>
          if value == "--" || isOption args value then .error .usage
          else
            match setValue letter value args with
            | .error e => .error e
            | .ok args => words rest args
    else if args.input.isNone then words rest { args with input := some word }
    else .ok (positional args (word :: rest))

/-- Give `-nostdinc` its second dash where it is an option. -/
def withLongDashes : List String → List String
  | [] => []
  | word :: rest =>
    if word == "-nostdinc" then "--nostdinc" :: withLongDashes rest
    else if word.length == 2 && word.startsWith "-" && valueLetters.contains (word.toList.getD 1 ' ') then
      match rest with
      | [] => [word]
      | value :: rest => word :: value :: withLongDashes rest
    else if looksLikeOption word then word :: withLongDashes rest
    else word :: rest

def parse (line : List String) : Parsed := do
  let args ← words (withLongDashes line) {}
  if args.input.isNone || (args.preprocess && args.object) then .error .usage else .ok args

namespace Arguments

def outputType (args : Arguments) : OutputType :=
  if args.preprocess then .preprocess else if args.object then .object else .memory

def definitions (args : Arguments) : List (String × Option String) :=
  args.defines.map fun text =>
    let (name, rest) := text.toList.span (· != '=')
    (String.ofList name, if rest.isEmpty then none else some (String.ofList (rest.drop 1)))

end Arguments

/-! ## Running -/

inductive Ending where
  | exit (code : Nat)
  | call (image : Image) (entry : UInt64) (args : List String)

structure Outcome where
  ending : Ending
  stdout : Bytes := []
  stderr : Bytes := []
  files : FileSystem
  written : List String := []
  absent : List String := []

def warnUnsupported (option name : String) : SessionM Unit :=
  Session.changeDiagnostics
    (·.deliver (Diagnostics.format [] .warning ("unsupported option '" ++ option ++ name ++ "'")))

def configure (args : Arguments) : SessionM Unit := do
  (← Session.setFlags (args.flags.map (·, true))).forM (warnUnsupported "-f")
  (← Session.setWarnings (args.warnings.map (·, true))).forM (warnUnsupported "-W")
  Session.setSilent args.silent
  modify fun s => { s with noStdInc := args.noStdInc }

def textFile? (args : Arguments) : Option String := if args.preprocess then args.output else none

def createTextFile (args : Arguments) : SessionM Unit := do
  if let some name := textFile? args then
    match ← Session.writeFile name [] with
    | .error e => Session.fail (.writeFailed name e)
    | .ok _ => modify fun s => { s with textFile := (s.files.target name).toOption }

def addInputs (args : Arguments) (input : String) : SessionM Unit := do
  Session.setOutputType args.outputType
  args.includePaths.forM Session.addIncludePath
  args.libraryPaths.forM Session.addLibraryPath
  args.definitions.forM fun (name, value) => Session.define name value
  args.undefines.forM Session.undefine
  Session.addFile input
  args.libraries.forM Session.addLibrary

def produce (args : Arguments) (input : String) : SessionM Ending := do
  match args.outputType with
  | .preprocess => return .exit 0
  | .object =>
    Session.writeObject (args.output.getD (Path.defaultTarget (some input) true))
    return .exit 0
  | .memory =>
    let words := input :: args.rest
    let entry ← Session.entry words
    match (← get).image with
    | some image => return .call image entry words
    | none => return .exit 1

def compile (args : Arguments) (input : String) : SessionM Ending := do
  Session.open_
  configure args
  createTextFile args
  addInputs args input
  produce args input

/-- Put the preprocessed text where it belongs. Of a file only what was passed on is seen. -/
def finishText (s : Session) (outcome : Outcome) : Outcome :=
  match s.textFile with
  | none => { outcome with stdout := s.pre.printed.all }
  | some key => { outcome with files := outcome.files.bind key s.pre.printed.passedOn }

def versionText : String := "crustcc 0.1.0\n"

def usageText : String :=
  "Usage: crustcc [OPTIONS] <FILE> [ARGS]...\n\n" ++
  "Without -E or -c the file is compiled and run; remaining arguments\n" ++
  "are passed to its main. Use - to read the source from stdin.\n"

def run (world : World) (files : FileSystem) (line : List String) : Outcome :=
  match parse line with
  | .error .version => { ending := .exit 0, stdout := Bytes.ofString versionText, files }
  | .error .help => { ending := .exit 0, stdout := Bytes.ofString usageText, files }
  | .error .usage => { ending := .exit 2, stderr := Bytes.ofString usageText, files }
  | .ok args =>
    let (ending, s) := match compile args (args.input.getD "") world { files } with
      | .ok ending s => (ending, s)
      | .error _ s => (.exit 1, s)
    let (messages, s) := s.takeMessages
    finishText s
      { ending
        stderr := messages.flatMap fun text => Bytes.ofString (text ++ "\n")
        files := s.files
        written := s.written.reverse
        absent := s.pre.absent.reverse }

end OnePass.CommandLine
