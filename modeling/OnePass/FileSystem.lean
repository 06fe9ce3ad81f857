import OnePass.Text.Bytes
import OnePass.Path

/-! # A directory tree as a value

A name is a list of components. Absolute names begin with the component `/`, and names above the
current directory with `..`; both beginnings, like the empty list, are directories that always exist.
Any other directory exists when it is listed or when something lies below it. Names and their components
are limited in length. -/
namespace OnePass

inductive FileError where
  | notFound
  | notDirectory
  | isDirectory
  | nameTooLong
  | zeroByte
  deriving DecidableEq, Repr

def FileError.text : FileError → String
  | .notFound => "No such file or directory (os error 2)"
  | .notDirectory => "Not a directory (os error 20)"
  | .isDirectory => "Is a directory (os error 21)"
  | .nameTooLong => "File name too long (os error 36)"
  | .zeroByte => "file name contained an unexpected NUL byte"

inductive Node where
  | directory
  | file (contents : Bytes)
  deriving DecidableEq, Repr

structure FileSystem where
  files : List (List String × Bytes) := []
  directories : List (List String) := []
  deriving DecidableEq, Repr, Inhabited

namespace FileSystem

def start (name : String) : List String := if Path.isAbsolute name then ["/"] else []

def above (here : List String) : List String :=
  if here == ["/"] then here
  else if here.all (· == "..") then here ++ [".."]
  else here.dropLast

def node? (fs : FileSystem) (components : List String) : Option Node :=
  match fs.files.lookup components with
  | some contents => some (.file contents)
  | none =>
    if components == ["/"] || components.all (· == "..") ||
        fs.files.any (fun (name, _) => components.isPrefixOf name) ||
        fs.directories.any (components.isPrefixOf ·) then
      some .directory
    else none

def nameLimit : Nat := 4095

def componentLimit : Nat := 255

def isTooLong (component : String) : Bool := component.utf8ByteSize > componentLimit

def nameError? (name : String) : Option FileError :=
  if name.toList.contains '\x00' then some .zeroByte
  else if name.utf8ByteSize > nameLimit then some .nameTooLong
  else if name.isEmpty then some .notFound
  else none

def walk (fs : FileSystem) : List String → List String → Except FileError (List String × Node)
  | here, [] =>
    match fs.node? here with
    | some node => .ok (here, node)
    | none => .error .notFound
  | here, component :: rest =>
    match fs.node? here with
    | none => .error .notFound
    | some (.file _) => .error .notDirectory
    | some .directory =>
      if Path.isIdle component then fs.walk here rest
      else if component == ".." then fs.walk (above here) rest
      else if isTooLong component then .error .nameTooLong
      else fs.walk (here ++ [component]) rest

def resolve (fs : FileSystem) (name : String) : Except FileError (List String × Node) :=
  match nameError? name with
  | some e => .error e
  | none => fs.walk (start name) (Path.parts '/' name)

def lookup (fs : FileSystem) (name : String) : Except FileError Node := (fs.resolve name).map (·.2)

def read (fs : FileSystem) (name : String) : Except FileError Bytes :=
  match fs.lookup name with
  | .ok (.file contents) => .ok contents
  | .ok .directory => .error .isDirectory
  | .error e => .error e

def bind (fs : FileSystem) (key : List String) (contents : Bytes) : FileSystem :=
  { fs with files := (key, contents) :: fs.files.filter (·.1 != key) }

def components (name : String) : List String :=
  start name ++ (Path.parts '/' name).filter (!Path.isIdle ·)

def insert (fs : FileSystem) (name : String) (contents : Bytes) : FileSystem :=
  fs.bind (components name) contents

def trail : List String → List String → List (List String)
  | here, [] => [here]
  | here, component :: rest =>
    if Path.isIdle component then trail here rest
    else if component == ".." then here :: trail (above here) rest
    else here :: trail (here ++ [component]) rest

/-- Put a file in place under a name that may go up and down, together with the directories on the
way. -/
def place (fs : FileSystem) (name : String) (contents : Bytes) : FileSystem :=
  let way := trail (start name) (Path.parts '/' name)
  ({ fs with directories := way.dropLast ++ fs.directories }).bind (way.getLastD []) contents

def placeDirectory (fs : FileSystem) (name : String) : FileSystem :=
  { fs with directories := trail (start name) (Path.parts '/' name) ++ fs.directories }

/-- The components of a file that can be created or replaced under a name, in an existing directory. A
name with a slash at the end means a directory. -/
def target (fs : FileSystem) (name : String) : Except FileError (List String) := do
  if let some e := nameError? name then throw e
  let steps := Path.parts '/' name
  let named := (steps.reverse.dropWhile (·.isEmpty)).reverse
  let last := named.getLastD ""
  match ← fs.walk (start name) named.dropLast with
  | (_, .file _) => throw .notDirectory
  | (here, .directory) =>
    if named.length < steps.length || Path.isIdle last || last == ".." then throw .isDirectory
    if isTooLong last then throw .nameTooLong
    let key := here ++ [last]
    if fs.node? key == some .directory then throw .isDirectory
    return key

def write (fs : FileSystem) (name : String) (contents : Bytes) : Except FileError FileSystem :=
  (fs.target name).map (fs.bind · contents)

end FileSystem
end OnePass
