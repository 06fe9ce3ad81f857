import OnePass.CommandLine

/-! # The program

The command line runs on a picture of the directory tree that holds only what it asked for. It is run
again with a fuller picture until it asks for nothing new; then its output is written. -/
namespace OnePass.Program

def probe (name : String) : IO (Option Node) := do
  try
    let contents ← IO.FS.readBinFile name
    return some (.file contents.toList)
  catch e =>
    match e with
    | .noFileOrDirectory .. => return none
    | .inappropriateType .. | .resourceBusy .. => return some .directory
    | _ => return none

def addName (files : FileSystem) (name : String) : IO FileSystem := do
  match ← probe name with
  | none => return files
  | some (.file contents) => return files.place name contents
  | some .directory => return files.placeDirectory name

partial def settle (world : World) (line : List String) (asked : List String) (files : FileSystem) :
    IO CommandLine.Outcome := do
  let outcome := CommandLine.run world files line
  let names := (outcome.absent.filter (!asked.contains ·)).eraseDups
  if names.isEmpty then return outcome
  settle world line (names ++ asked) (← names.foldlM addName files)

def numberAfter (word : String) (text : String) : Nat :=
  let line := (text.splitOn "\n").find? (·.startsWith word)
  (((line.map (·.splitOn " ")).getD []).filterMap String.toNat?).headD 0

def clock : IO Nat := do
  try
    let boot := numberAfter "btime" (← IO.FS.readFile "/proc/stat")
    let uptime := ((← IO.FS.readFile "/proc/uptime").splitOn ".").headD ""
    return boot + uptime.toNat?.getD 0
  catch _ => return 0

def standardInput (line : List String) : IO Bytes := do
  match CommandLine.parse line with
  | .ok args =>
    if args.input == some "-" then return (← (← IO.getStdin).readBinToEnd).toList else return []
  | .error _ => return []

def fuel : Nat := 4611686018427387904

def imageBase : UInt64 := 0x7f5500000000

def run (line : List String) : IO UInt32 := do
  let world : World :=
    { fuel, base := imageBase, clock := ← clock, stdin := ← standardInput line }
  let outcome ← settle world line [] {}
  for name in outcome.written do
    if let .ok contents := outcome.files.read name then
      IO.FS.writeBinFile name ⟨contents.toArray⟩
  (← IO.getStdout).write ⟨outcome.stdout.toArray⟩
  (← IO.getStderr).write ⟨outcome.stderr.toArray⟩
  match outcome.ending with
  | .exit code => return UInt32.ofNat code
  | .call .. =>
    IO.eprintln (Diagnostics.format [] .error "programs cannot be called from here")
    return 1

end OnePass.Program

def main (args : List String) : IO UInt32 := OnePass.Program.run args
