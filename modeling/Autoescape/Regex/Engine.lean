/-!
# Regular expressions

What finds expressions in texts is no part of this program: an engine is whatever quotes texts for
use in an expression and compiles expressions.
-/
namespace Autoescape.Regex

inductive Error where
  | malformed (report : String)
  /-- What the expression compiles to takes more bytes than the engine allows. -/
  | tooBig (limit : Nat)
deriving DecidableEq

def Error.text : Error → String
  | .malformed report => report
  | .tooBig limit => "Compiled regex exceeds size limit of " ++ toString limit ++ " bytes."

/-- A compiled expression, as the texts that it is found in. -/
structure Compiled where
  isMatch : String → Bool

class Engine where
  /-- The expression of a text that stands for itself. -/
  escape : String → String
  compile : String → Except Error Compiled

end Autoescape.Regex
