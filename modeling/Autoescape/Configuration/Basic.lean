import Autoescape.Availability.Basic
import Autoescape.Json.Record

/-!
# Configurations

Which sources to take over, where to write, and which functions are available there.
-/
namespace Autoescape

structure Configuration where
  /-- The sources that are copied ahead of the block. -/
  inputs : List String
  output : Option String
  globs : List String
deriving DecidableEq, Inhabited

namespace Configuration

def empty : Configuration := ⟨[], none, []⟩

def ofOutput (output : String) : Configuration := { empty with output := some output }

def withInput (c : Configuration) (input : String) : Configuration :=
  { c with inputs := c.inputs ++ [input] }

def withGlob (c : Configuration) (glob : String) : Configuration :=
  { c with globs := c.globs ++ [glob] }

def availability [Regex.Engine] (c : Configuration) : Except Fault Availability :=
  Availability.ofGlobs c.globs

def fieldNames : List String := ["inputs", "output", "jsDefined"]

def toJson (c : Configuration) : Json :=
  .object [("inputs", .texts c.inputs), ("output", Json.optional Json.text c.output),
    ("jsDefined", .texts c.globs)]

/-- Reads a configuration; every field may be absent. -/
def ofJson? (j : Json) : Option Configuration := do
  match ← j.slots? fieldNames with
  | [inputs, output, globs] =>
    return ⟨← Json.orElse Json.texts? [] inputs, ← Json.orElse (Json.nullable Json.text?) none output,
      ← Json.orElse Json.texts? [] globs⟩
  | _ => none

end Configuration
end Autoescape
