import OnePass.Compile.Unit
import OnePass.Preprocess.Printer
import OnePass.Elf.Archive
import OnePass.Elf.LinkScript
import OnePass.Elf.ObjectFile
import OnePass.Link.Image
import OnePass.Text.Quoted

/-! # Compilation sessions

A session holds the macros, the sections and the search paths that its units share. Units are compiled
one after the other into the same sections, which are then written as an object file or linked in
memory. An error is delivered once and ends the operation; the session stays usable. -/
namespace OnePass

inductive OutputType where
  | memory
  | object
  | preprocess
  deriving DecidableEq, Repr

structure Session where
  pre : Preprocessor := {}
  arena : Elf.Arena := Elf.Arena.initial
  settings : Settings := {}
  files : FileSystem := {}
  textFile : Option (List String) := none
  outputType : OutputType := .memory
  configured : Bool := false
  /-- What `{B}` stands for in search paths. -/
  libraryRoot : String := "/usr/local/lib/crustcc"
  libraryPaths : List String := []
  noStdInc : Bool := false
  image : Option Image := none
  written : List String := []

structure World where
  fuel : Nat
  clock : Nat := 0
  stdin : Bytes := []
  symbol? : String → Option UInt64 := fun _ => none
  base : UInt64
  /-- The bytes that an image can get. -/
  memory : Nat := Link.usualMemory

abbrev SessionM := ReaderT World (EStateM Stop Session)

inductive SessionFault where
  | linked
  | fileNotFound (name : String)
  | inputNotFound (name : String)
  | libraryNotFound (name : String)
  | coff
  | load (error : Elf.LoadError)
  | link (error : LinkError)
  | definedTwice (name : String)
  | writeFailed (name : String) (error : FileError)
  | openFailed (name : String) (error : FileError)
  | noOutputFile
  | noEntry (name : String)
  | badArgument (arg : String)

namespace SessionFault

def kind : SessionFault → ErrorKind
  | .linked | .noOutputFile => .internal
  | .fileNotFound _ | .writeFailed .. | .openFailed .. => .resource
  | _ => .link

def text : SessionFault → String
  | .linked => "cannot compile after relocation"
  | .fileNotFound name | .inputNotFound name => "file '" ++ name ++ "' not found"
  | .libraryNotFound name => "library '" ++ name ++ "' not found"
  | .coff => "COFF files are not supported"
  | .load error => error.text
  | .link error => error.text
  | .definedTwice name => "'" ++ name ++ "' defined twice"
  | .writeFailed name error => "could not write '" ++ name ++ "': " ++ error.text
  | .openFailed name error => "could not open '" ++ name ++ "': " ++ error.text
  | .noOutputFile => "no output file for in-memory compilation"
  | .noEntry name => name ++ " not defined"
  | .badArgument arg => "invalid program argument " ++ Quoted.text arg

def complaint (fault : SessionFault) : Complaint := ⟨fault.kind, fault.text⟩

end SessionFault

namespace Session

def defaultSysInclude : String :=
  "\x7bB\x7d/include:/usr/local/include:/usr/include/x86_64-linux-gnu:/usr/include"

def defaultLibraryPaths : String :=
  "/usr/local/lib:/usr/lib/x86_64-linux-gnu:/usr/lib:/lib/x86_64-linux-gnu:/lib"

def predefined : List (String × Option String) := [
  ("__STDC__", none), ("__STDC_VERSION__", some "199901L"), ("__x86_64__", none),
  ("__unix__", none), ("__unix", none), ("unix", none), ("__linux__", none), ("__linux", none),
  ("__CRUSTCC__", some "0"), ("__SIZE_TYPE__", some "unsigned long"),
  ("__PTRDIFF_TYPE__", some "long"), ("__WCHAR_TYPE__", some "int")]

def failOn (chain : List Location) (fault : SessionFault) : SessionM α := do
  let s ← get
  let (e, pre) := s.pre.reportOn chain fault.complaint
  set { s with pre }
  throw (.failed e)

def fail (fault : SessionFault) : SessionM α := failOn [] fault

def host : SessionM Host := do
  let world ← read
  let s ← get
  return { fuel := world.fuel, clock := world.clock, files := s.files, textFile := s.textFile }

def preprocess (act : PreM α) : SessionM α := do
  let host ← host
  let s ← get
  match act host s.pre with
  | .ok a pre => set { s with pre }; return a
  | .error e pre => set { s with pre }; throw e

def takeMessages (s : Session) : List String × Session :=
  let diagnostics := s.pre.diagnostics
  (diagnostics.delivered.reverse,
    { s with pre := { s.pre with diagnostics := { diagnostics with delivered := [] } } })

def takePrinted (s : Session) : Bytes × Session :=
  (s.pre.printed.all, { s with pre := { s.pre with printed := {} } })

/-! ## Configuration -/

def define (name : String) (value : Option String) : SessionM Unit :=
  preprocess (Directive.defineText name value)

def undefine (name : String) : SessionM Unit := preprocess (Directive.undefine name)

def defineBuiltin (name : String) (value : Option String) : SessionM Unit :=
  tryCatch (define name value) fun _ => pure ()

def addLibraryPath (paths : String) : SessionM Unit :=
  modify fun s => { s with libraryPaths := s.libraryPaths ++ Path.searchPath s.libraryRoot paths }

def addIncludePath (paths : String) : SessionM Unit :=
  modify fun s =>
    let added := Path.searchPath s.libraryRoot paths
    { s with pre := { s.pre with includePaths := s.pre.includePaths ++ added } }

def addSysIncludePath (paths : String) : SessionM Unit :=
  modify fun s =>
    let added := Path.searchPath s.libraryRoot paths
    { s with pre := { s.pre with sysIncludePaths := s.pre.sysIncludePaths ++ added } }

def open_ : SessionM Unit := do
  predefined.forM fun (name, value) => defineBuiltin name value
  addLibraryPath defaultLibraryPaths

/-- Choose what the session produces. The default directories and the macros that depend on the
settings are added now. -/
def setOutputType (type : OutputType) : SessionM Unit := do
  modify fun s => { s with outputType := type, configured := true }
  if !(← get).noStdInc then addSysIncludePath defaultSysInclude
  if (← get).settings.unsignedChar then defineBuiltin "__CHAR_UNSIGNED__" none
  if (← get).settings.boundsCheck then defineBuiltin "__BOUNDS_CHECKING_ON" none

def setFlag (name : String) (value : Bool) : SessionM Bool := do
  match (← get).settings.set? name value with
  | some settings => modify fun s => { s with settings }; return true
  | none => return false

def setFlags (flags : List (String × Bool)) : SessionM (List String) := do
  let unknown ← flags.filterM fun (name, value) => return !(← setFlag name value)
  return unknown.map (·.1)

def changeDiagnostics (f : Diagnostics → Diagnostics) : SessionM Unit :=
  modify fun s => { s with pre := { s.pre with diagnostics := f s.pre.diagnostics } }

def setWarning (name : String) (value : Bool) : SessionM Bool := do
  match (← get).pre.diagnostics.switches.set? name value with
  | some switches => changeDiagnostics ({ · with switches }); return true
  | none => return false

def setWarnings (warnings : List (String × Bool)) : SessionM (List String) := do
  let unknown ← warnings.filterM fun (name, value) => return !(← setWarning name value)
  return unknown.map (·.1)

def setSilent (silent : Bool) : SessionM Unit :=
  changeDiagnostics fun d => { d with switches := { d.switches with silent } }

/-! ## Units -/

def addFileSymbol (name : String) : SessionM Unit :=
  modify fun s =>
    let info := Elf.Symbol.makeInfo Elf.Binding.ownFile Elf.SymbolType.file
    let symbol : Elf.SymbolEntry := { info, index := Elf.SectionIndex.abs }
    { s with arena := (s.arena.putSymbol s.arena.symtab symbol name).2 }

def processUnit (name : String) : SessionM Unit := do
  match (← get).outputType with
  | .preprocess => preprocess Printer.print
  | .memory | .object =>
    addFileSymbol name
    let host ← host
    let s ← get
    let (result, pre, arena) := Compile.compile host s.settings s.pre s.arena
    set { s with pre, arena }
    match result with
    | .ok _ => return
    | .error e => throw e

/-- Forget what a unit leaves behind: open files, conditionals, read-ahead and its macros. -/
def closeUnit (mark : Nat) (s : Session) : Session :=
  let pre := s.pre.files.foldl (fun pre _ => pre.popFile) s.pre
  let pre := pre.clearPending
  { s with pre := { pre with macros := pre.macros.release mark } }

def finishing (act : SessionM α) (after : Session → Session) : SessionM α := fun world s =>
  match act world s with
  | .ok a s => .ok a (after s)
  | .error e s => .error e (after s)

def configure : SessionM Unit := do
  if !(← get).configured then setOutputType (← get).outputType

/-- Compile or preprocess one unit. It fails when any error was counted. -/
def compileUnit (src : Source) : SessionM Unit := do
  configure
  if (← get).image.isSome then fail .linked
  changeDiagnostics Diagnostics.reset
  let mark := (← get).pre.macros.mark
  finishing (do preprocess (Directive.enterFile src); processUnit src.name) (closeUnit mark)
  let diagnostics := (← get).pre.diagnostics
  if diagnostics.errorCount > 0 then throw (.failed diagnostics.failure)

def compileText (text : String) : SessionM Unit :=
  compileUnit (Source.ofBytes "<string>" (Bytes.ofString text))

def compileFile (name : String) : SessionM Unit := do
  if name == "-" then
    let stdin := (← read).stdin
    compileUnit (Source.ofBytes "<stdin>" stdin)
  else
    match ← preprocess (PreM.openFile name) with
    | .ok (some src) => compileUnit src
    | .ok none => compileUnit (Source.ofBytes name [])
    | .error _ => fail (.fileNotFound name)

/-! ## Other inputs -/

def nameExists (name : String) : SessionM Bool := do
  return (← preprocess (PreM.lookup name)).toOption.isSome

def firstExisting? : List String → SessionM (Option String)
  | [] => return none
  | name :: rest => do if ← nameExists name then return some name else firstExisting? rest

def inLibraryPaths (file : String) : SessionM (List String) := do
  return (← get).libraryPaths.map (· ++ "/" ++ file)

def load (chain : List Location) (act : Elf.LoadM α) : SessionM Unit := do
  let s ← get
  match act s.arena with
  | .ok _ arena => set { s with arena }
  | .error e arena => set { s with arena }; failOn chain (.load e)

/-- Where a library is found: a shared one on any path comes before an archive. -/
def findLibrary? (name : String) : SessionM (Option String) := do
  match ← firstExisting? (← inLibraryPaths ("lib" ++ name ++ ".so")) with
  | some path => return some path
  | none => firstExisting? (← inLibraryPaths ("lib" ++ name ++ ".a"))

/-- Add a file or a library. C sources, and every file when preprocessing, are compiled; other files are
loaded by what they hold. A linker script adds further inputs, at most `fuel` deep. -/
def addInput : Nat → Elf.ScriptInput → SessionM Unit
  | 0, _ => throw .exhausted
  | fuel + 1, .library name => do
    match ← findLibrary? name with
    | some path => addInput fuel (.file path)
    | none => fail (.libraryNotFound name)
  | fuel + 1, .file name => do
    let extension := Path.extension name
    if (← get).outputType == .preprocess || extension.isEmpty || extension == "c" || name == "-" then
      compileFile name
    else
      match ← preprocess (PreM.lookup name) with
      | .ok (.file contents) =>
        modify fun s => { s with pre := { s.pre with deps := s.pre.deps ++ [name] } }
        let chain := [⟨name, 0⟩]
        let data := contents.toArray
        match Elf.classify data with
        | .error e => failOn chain (.load e)
        | .ok .object => load chain (Elf.Object.load data)
        | .ok .archive => load chain (Elf.Archive.load data)
        | .ok .sharedObject => load chain (Elf.SharedObject.load data)
        | .ok .coff => failOn chain .coff
        | .ok .script =>
          match Elf.LinkScript.parse contents with
          | .error e => failOn chain (.load e)
          | .ok inputs => inputs.forM fun
            | .library name => addInput fuel (.library name)
            | .file name => do
              match ← firstExisting? (name :: (← inLibraryPaths name)) with
              | some path => addInput fuel (.file path)
              | none => failOn chain (.inputNotFound name)
      | _ => fail (.fileNotFound name)

def addFile (name : String) : SessionM Unit := do addInput (← read).fuel (.file name)

def addLibrary (name : String) : SessionM Unit := do addInput (← read).fuel (.library name)

def addSymbol (name : String) (address : UInt64) : SessionM Unit := do
  let s ← get
  let info := Elf.Symbol.makeInfo Elf.Binding.global Elf.SymbolType.none
  let symbol : Elf.SymbolEntry := { info, index := Elf.SectionIndex.abs, value := address }
  match s.arena.addSymbol s.arena.symtab symbol name with
  | .ok (_, arena) => set { s with arena }
  | .error _ => fail (.definedTwice name)

/-! ## Output -/

def writeFile (name : String) (contents : Bytes) : SessionM (Except FileError Unit) := do
  let _ ← preprocess (PreM.lookup name)
  let _ ← preprocess (PreM.lookup (Path.directory name))
  let s ← get
  match s.files.write name contents with
  | .ok files => set { s with files, written := name :: s.written }; return .ok ()
  | .error e => return .error e

def writeObject (name : String) : SessionM Unit := do
  let s ← get
  match s.outputType with
  | .preprocess => return
  | .memory => fail .noOutputFile
  | .object =>
    match ← writeFile name (Elf.ObjectFile.bytes s.arena).toList with
    | .ok _ => return
    | .error e => fail (.writeFailed name e)

def link : SessionM Unit := do
  let world ← read
  let s ← get
  if s.image.isSome then return
  match Link.relocateIn world.memory world.base world.symbol? s.arena with
  | .ok image arena => set { s with arena, image := some image }
  | .error e arena => set { s with arena }; fail (.link e)

def symbol? (s : Session) (name : String) : Option UInt64 := do (← s.image).symbol? name

def entryName (settings : Settings) : String :=
  if settings.leadingUnderscore then "_main" else "main"

def entry (args : List String) : SessionM UInt64 := do
  link
  let s ← get
  let name := entryName s.settings
  let address := (s.symbol? name).getD 0
  if address == 0 then fail (.noEntry name)
  match args.find? (·.contains '\x00') with
  | some arg => fail (.badArgument arg)
  | none => return address

def dependencyRule (target : String) (deps : List String) : String :=
  target ++ " : \\\n" ++ String.join (deps.map fun dep => "\t" ++ dep ++ " \\\n") ++ "\n"

def writeDependencies (target : String) (file : Option String) : SessionM Unit := do
  let name := file.getD (Path.withoutExtension target ++ ".d")
  match ← writeFile name (Bytes.ofString (dependencyRule target (← get).pre.deps)) with
  | .ok _ => return
  | .error e => fail (.openFailed name e)

end Session
end OnePass
