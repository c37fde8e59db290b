import Autoescape.Text.Split

/-!
# Lines

A line ends at a line feed; a carriage return directly before it belongs to the end. What follows
the last line feed is a line only if it is not empty, and keeps a final carriage return.
-/
namespace Autoescape.Text.Line

/-- The lines of a text, without their ends. -/
def lines : List Char → List (List Char)
  | [] => []
  | c :: rest =>
    if c = '\n' then [] :: lines rest
    else if c = '\r' ∧ rest.head? = some '\n' then lines rest
    else Split.prepend c (lines rest)

def text (lines : List (List Char)) : List Char := lines.flatMap fun line => line ++ ['\n']

example : lines "a\r\nb\n\nc\r".toList = ["a", "b", "", "c\r"].map String.toList := by decide

end Autoescape.Text.Line
