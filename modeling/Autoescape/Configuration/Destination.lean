import Autoescape.Configuration.Basic
import Autoescape.Storage.Disk

/-!
# The destination of a run

Every path is looked at before any work begins: first the output, then the inputs in order.
-/
namespace Autoescape.Configuration
open Storage

/-- Checks that an output can be written as far as marks and directories tell. -/
def checkOutput (d : Disk) (output : String) : Except Fault Unit := do
  let parent := Path.directory output
  if d.isDirectory output then throw (.outputIsDirectory output)
  if !d.isDirectory parent then throw (.noParent output parent)
  let existing := if d.isThere output then output else parent
  if d.isReadOnly existing then throw (.readOnly output existing)

def checkInput (d : Disk) (input : String) : Except Fault Unit :=
  if !d.isFile input || !(d.openForReading input).isOk then .error (.noInput input) else .ok ()

def destination (d : Disk) (c : Configuration) : Except Fault String := do
  match c.output with
  | none => throw .noOutput
  | some output =>
    checkOutput d output
    c.inputs.forM (checkInput d)
    return output

end Autoescape.Configuration
