import Autoescape.Text.Split

/-!
# Paths

A path is cut at its slashes. The directory that a path lies in is found on its text alone: empty
segments and single dots at the end do not count, all other segments are kept as they are written.
-/
namespace Autoescape.Storage.Path

def segments (path : String) : List String :=
  (Text.Split.pieces '/' path.toList).map String.ofList

def isAbsolute (path : String) : Bool := path.toList.head? = some '/'

/-- Segments without the empty ones and dots at their end. -/
def withoutRests (segments : List String) : List String :=
  (segments.reverse.dropWhile fun s => s = "" ∨ s = ".").reverse

def dropName (segments : List String) : List String :=
  withoutRests (withoutRests segments).dropLast

def join (segments : List String) : String := "/".intercalate segments

/-- The path of the directory that a path lies in; a relative name lies in the empty path, and the
root lies in nothing. -/
def parent? (path : String) : Option String :=
  match segments path with
  | "" :: body =>
    if withoutRests body = [] then none else some ("/" ++ join (dropName body))
  | "." :: body =>
    if withoutRests body = [] then some ""
    else match dropName body with
      | [] => some "."
      | rest => some ("./" ++ join rest)
  | body => some (join (dropName body))

/-- The path of the directory that a path lies in, where nothing said means the current one. -/
def directory (path : String) : String :=
  match parent? path with
  | none => "."
  | some parent => if parent = "" then "." else parent

example : ["out.js", "./out.js", ".//x", "nope/../out.js", "nope//out.js", "/a", "d/", "/"].map directory
    = [".", ".", ".", "nope/..", "nope", "/", ".", "."] := by decide +kernel

end Autoescape.Storage.Path
