import Autoescape.Fault

/-!
# Globs of function names

In a glob a star stands for one or more word characters, and every other character for itself. A
glob becomes an expression for whole names.
-/
namespace Autoescape.Availability.Glob
open Regex (Engine Compiled)

def word : String := "[A-Za-z0-9_]+"

/-- The expression of a glob: the pieces between its stars, escaped, with words between them. -/
def expression [Engine] (glob : String) : String :=
  let pieces := (glob.toList.splitOn '*').map String.ofList
  "^(?:" ++ word.intercalate (pieces.map Engine.escape) ++ ")$"

def compile [Engine] (glob : String) : Except Fault Compiled :=
  if glob = "" then .error .emptyGlob else (Engine.compile (expression glob)).mapError (.badGlob glob)

end Autoescape.Availability.Glob
