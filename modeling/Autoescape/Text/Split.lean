/-!
# Pieces of a text

A text is cut at every separator, so that it has one piece more than separators.
-/
namespace Autoescape.Text.Split

def prepend (c : Char) : List (List Char) → List (List Char)
  | [] => [[c]]
  | piece :: rest => (c :: piece) :: rest

def pieces (separator : Char) : List Char → List (List Char)
  | [] => [[]]
  | c :: rest => if c = separator then [] :: pieces separator rest else prepend c (pieces separator rest)

example : pieces '.' "a..b".toList = ["a", "", "b"].map String.toList := by decide

theorem prepend_ne_nil (c : Char) (l : List (List Char)) : prepend c l ≠ [] := by
  cases l <;> simp [prepend]

/-- There is always a piece, if only an empty one. -/
theorem pieces_ne_nil (separator : Char) (s : List Char) : pieces separator s ≠ [] := by
  cases s with
  | nil => simp [pieces]
  | cons c rest =>
    unfold pieces
    split
    · simp
    · exact prepend_ne_nil c _

end Autoescape.Text.Split
