/-! # File names

The parts of a `/`-separated name, and search path lists. Names are text; nothing here looks at a
file. -/
namespace OnePass.Path

def parts (separator : Char) (text : String) : List String :=
  let (first, rest) := text.toList.foldr (fun c (first, rest) =>
    if c == separator then ([], String.ofList first :: rest) else (c :: first, rest)) ([], [])
  String.ofList first :: rest

def basename (name : String) : String := (parts '/' name).getLastD ""

/-- A name cut at the last dot of its final component into stem and extension. A dot that begins
the component starts no extension. -/
def splitExtension? (name : String) : Option (String × String) :=
  let pieces := parts '.' (basename name)
  let stem := ".".intercalate pieces.dropLast
  if stem.isEmpty then none else some (stem, pieces.getLastD "")

def extension (name : String) : String := ((splitExtension? name).map (·.2)).getD ""

def withoutExtension (name : String) : String :=
  let ext := extension name
  if ext.isEmpty then name else String.ofList (name.toList.take (name.length - ext.length - 1))

def directory (name : String) : String :=
  let dir := (parts '/' name).dropLast
  if dir.isEmpty then "." else "/".intercalate dir ++ "/"

def defaultTarget (input : Option String) (objectLike : Bool) : String :=
  let name := match input with
    | some file => if file == "-" then "a" else basename file
    | none => "a"
  if objectLike && !(extension name).isEmpty then withoutExtension name ++ ".o" else "a.out"

/-- A component that names no step: an empty one, or the current directory. -/
def isIdle (component : String) : Bool := component == "" || component == "."

/-- The components before the last one that names a step, idle ones at the end left out. -/
def dropLastStep? (components : List String) : Option (List String) :=
  match components.reverse.dropWhile isIdle with
  | [] => none
  | _ :: before => some (before.dropWhile isIdle).reverse

/-- The directory part of a file name, `.` when there is none. A leading `/` or `./` is kept. -/
def parentDir (name : String) : String :=
  match parts '/' name with
  | "" :: second :: rest =>
    match dropLastStep? (second :: rest) with
    | none => "."
    | some dir => "/" ++ "/".intercalate dir
  | "." :: rest =>
    match dropLastStep? rest with
    | none => "."
    | some dir => "/".intercalate ("." :: dir)
  | components =>
    match dropLastStep? components with
    | none | some [] => "."
    | some dir => "/".intercalate dir

def isAbsolute (name : String) : Bool := name.startsWith "/"

def join (dir name : String) : String :=
  if dir.isEmpty || dir == "." then name
  else if dir.endsWith "/" then dir ++ name
  else dir ++ "/" ++ name

/-- The entries of a `:`-separated search path, the library root put in for its placeholder. -/
def searchPath (libraryRoot list : String) : List String :=
  (parts ':' list).map (·.replace "\x7bB\x7d" libraryRoot)

end OnePass.Path
