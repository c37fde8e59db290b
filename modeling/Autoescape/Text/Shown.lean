import Autoescape.Text.Unprintable

/-!
# Texts as messages show them

A text is shown between double quotes and a character between single quotes, with a backslash
before the enclosing quote and before a backslash, and every unprintable character by number.
-/
namespace Autoescape.Text.Shown

/-- A character as it is shown between two quote characters. -/
def inside (quote c : Char) : List Char :=
  match c with
  | '\x00' => ['\\', '0']
  | '\t' => ['\\', 't']
  | '\r' => ['\\', 'r']
  | '\n' => ['\\', 'n']
  | '\\' => ['\\', '\\']
  | c =>
    if c = quote then ['\\', c]
    else if Unprintable.isUnprintable c then
      ['\\', 'u', '\x7b'] ++ Nat.toDigits 16 c.toNat ++ ['\x7d']
    else [c]

def text (s : String) : String :=
  String.ofList ('\"' :: (s.toList.flatMap (inside '\"') ++ ['\"']))

def char (c : Char) : String := String.ofList ('\'' :: (inside '\'' c ++ ['\'']))

end Autoescape.Text.Shown
