import Autoescape.Block.Text
import Autoescape.Plan.Build

/-!
# Generating the block of a registry
-/
namespace Autoescape.Generation

def generate (available : String → Bool) (directives : List Directive) : Except Fault String := do
  let plan ← Plan.ofDirectives available directives
  match plan.block? available with
  | some block => return block
  | none => throw .dangling

end Autoescape.Generation
