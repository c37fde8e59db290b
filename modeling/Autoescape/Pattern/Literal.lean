import Autoescape.Directive.Basic
import Autoescape.Pattern.Body

/-!
# Pattern literals

The body of a pattern stands between slashes, followed by the letters of its modes. The mode in
which the dot matches line ends has no letter and is refused before the pattern is read.
-/
namespace Autoescape.Pattern

def modeLetters (m : Modes) : List Char :=
  (if m.caseInsensitive then ['i'] else []) ++ (if m.multiline then ['m'] else [])

def literalChars (p : Pattern) : Except Feature (List Char) := do
  if p.modes.dotAll then throw .dotAll
  return '/' :: ((← body p.source.toList) ++ '/' :: modeLetters p.modes)

/-- The literal of a pattern; a refusal names the directive. -/
def literal (directive : String) (p : Pattern) : Except Fault String :=
  match p.literalChars with
  | .ok chars => .ok (String.ofList chars)
  | .error feature => .error (.unsupported directive p.source feature)

end Autoescape.Pattern
