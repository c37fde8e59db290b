import Autoescape.CommandLine
import Autoescape.Storage.Setup

/-!
# The program

The outer layer of the command line. It takes a picture of the files that the arguments name, lets
the command line work on that picture, and carries the change of the output over to the disk.
-/
namespace Autoescape.Main
open Storage

def probe (path : String) : IO (Option Node) := do
  try
    let contents ← IO.FS.readBinFile path
    let writable ← try
        let _ ← IO.FS.Handle.mk path .readWrite
        pure true
      catch _ => pure false
    return some (.file contents (!writable))
  catch
    | .inappropriateType .. => return some (.directory false)
    | _ => return none

/-- Adds to a picture everything that a path leads through. -/
def photograph (d : Disk) (path : String) : IO Disk := do
  let mut picture := d
  let mut location := d.origin path
  let mut reached := ""
  for segment in Path.segments path do
    match picture.enter location segment with
    | .error _ => return picture
    | .ok next =>
      location := next
      reached := reached ++ segment
      if (picture.node? location).isNone then
        if let some node ← probe reached then picture := picture.put location node
      reached := reached ++ "/"
  return picture

def photographAll (paths : List String) : IO Disk := do
  let here := (Path.segments (← IO.currentDir).toString).filter (· ≠ "")
  let ancestors := (List.range (here.length + 1)).map fun n => (here.take n, Node.directory false)
  paths.foldlM photograph ⟨here, ancestors, .sound⟩

/-- Carries what became of a path over to the disk. -/
def develop (before after : Disk) (path : String) : IO Unit := do
  match after.locate path with
  | .ok (_, .file contents _) => IO.FS.writeBinFile path contents
  | .ok _ => pure ()
  | .error _ => if before.isThere path then IO.FS.removeFile path

def tell (code message : String) : IO Unit := IO.eprintln (code ++ ": " ++ message)

def usage : String :=
  "Usage: [--input PATH]... [--output PATH] [--js-defined GLOB]... [--escapers PATH] [-v]..."

def perform (arguments : List String) (a : CommandLine.Arguments) : IO UInt32 := do
  let paths := a.registry.toList ++ a.configuration.inputs ++ a.configuration.output.toList
  let before ← photographAll (paths ++ a.configuration.output.toList.map Path.directory)
  let (outcome, after) := CommandLine.execute before arguments
  match outcome.fault, a.configuration.output with
  | some fault, _ => tell fault.code fault.message
  | none, none => pure ()
  | none, some output =>
    try develop before after output
    catch e =>
      tell "ESC-WRITE" ("failed to write " ++ output ++ ": " ++ toString e)
      return 1
  return outcome.status.toUInt32

end Autoescape.Main

def main (arguments : List String) : IO UInt32 := do
  match Autoescape.CommandLine.parse arguments with
  | .help =>
    IO.println Autoescape.Main.usage
    return 0
  | .misuse =>
    IO.eprintln Autoescape.Main.usage
    return 2
  | .run a => Autoescape.Main.perform arguments a
