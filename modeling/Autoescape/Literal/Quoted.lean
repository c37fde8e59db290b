import Autoescape.Literal.Character

/-!
# String literals

Texts between single quotes, and the record that maps each of some texts to one.
-/
namespace Autoescape.Literal.Quoted

def body (s : List Char) : List Char := s.flatMap Character.inString

@[simp] theorem body_nil : body [] = [] := rfl

@[simp] theorem body_cons (c : Char) (s : List Char) : body (c :: s) = Character.inString c ++ body s := rfl

@[simp] theorem body_append (s t : List Char) : body (s ++ t) = body s ++ body t := List.flatMap_append

def quote (text : List Char) : List Char := '\'' :: (text ++ ['\''])

def ofText (s : String) : String := String.ofList (quote (body s.toList))

def ofChar (c : Char) : String := String.ofList (quote (Character.alone c))

/-- The record literal that maps every given text to one. -/
def set (texts : List String) : String :=
  "\x7b" ++ ", ".intercalate (texts.map fun s => ofText s ++ ": 1") ++ "\x7d"

end Autoescape.Literal.Quoted
