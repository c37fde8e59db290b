import Autoescape.Literal.Character

/-!
# Character classes

The pattern literal that matches, everywhere in a text, each of a given set of characters.
Neighbouring characters are written as one run, so a set has one written form.
-/
namespace Autoescape.Literal.CharClass

structure Run where
  first : Char
  last : Char
deriving DecidableEq

/-- Puts a character, not greater than any in the runs, in front of them. -/
def extend (c : Char) : List Run → List Run
  | [] => [⟨c, c⟩]
  | r :: rest =>
    if c = r.first then r :: rest
    else if c.toNat + 1 = r.first.toNat then ⟨c, r.last⟩ :: rest
    else ⟨c, c⟩ :: r :: rest

/-- The maximal runs of a set of characters, in order. -/
def runs (chars : List Char) : List Run := (chars.mergeSort (· ≤ ·)).foldr extend []

def Run.text (r : Run) : List Char :=
  if r.first = r.last then Character.inClass r.first
  else Character.inClass r.first ++ '-' :: Character.inClass r.last

def matcher (chars : List Char) : String :=
  String.ofList ('/' :: '[' :: ((runs chars).flatMap Run.text ++ [']', '/', 'g']))

end Autoescape.Literal.CharClass
