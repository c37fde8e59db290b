import Autoescape.Configuration.Destination
import Autoescape.Generation
import Autoescape.Source.Strip

/-!
# Runs

A run checks its configuration, generates the block, reads the inputs, and only then writes. So
the output may be one of the inputs, and no fault before the writing changes anything.
-/
namespace Autoescape.Run
open Storage

def readInput (d : Disk) (input : String) : Except Fault String :=
  (d.read input).mapError (.read input)

def contents (d : Disk) (inputs : List String) (block : String) : Except Fault String := do
  return Source.withBlock (← inputs.mapM (readInput d)) block

def deliver (d : Disk) (path text : String) : Except Fault Unit × Disk :=
  let (result, d) := d.write path text
  (result.mapError (.write path), d)

/-- All of a run that only reads: the output and what is to be written there. -/
def prepare [Regex.Engine] (d : Disk) (c : Configuration) (directives : List Directive) :
    Except Fault (String × String) := do
  let output ← c.destination d
  let available ← c.availability
  let block ← Generation.generate available.has directives
  return (output, ← contents d c.inputs block)

def run [Regex.Engine] (d : Disk) (c : Configuration) (directives : List Directive) :
    Except Fault String × Disk :=
  match prepare d c directives with
  | .error fault => (.error fault, d)
  | .ok (output, text) =>
    match deliver d output text with
    | (.ok _, d) => (.ok output, d)
    | (.error fault, d) => (.error fault, d)

end Autoescape.Run
