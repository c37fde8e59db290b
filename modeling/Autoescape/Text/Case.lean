/-!
# Capital words

A name whose words are told apart by capitals, written with underscores between the words.
-/
namespace Autoescape.Text.Case

/-- A name in capitals: every capital but the first letter begins a word. -/
def underscored : List Char → List Char
  | [] => []
  | c :: rest => c.toUpper :: rest.flatMap fun d => if d.isUpper then ['_', d] else [d.toUpper]

example : underscored "escapeHtml".toList = "ESCAPE_HTML".toList := by decide
example : underscored "URL".toList = "U_R_L".toList := by decide

end Autoescape.Text.Case
