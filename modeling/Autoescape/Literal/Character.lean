import Autoescape.Text.Hex

/-!
# Characters inside literals

How one character is written inside a string literal or a character class. What is written is
printable ASCII for every character, so a literal survives any encoding of the file around it,
and characters with a meaning in the surrounding markup are never written plainly in a string.
-/
namespace Autoescape.Literal.Character

/-- The characters that ASCII prints: the space to the tilde. -/
def isPrintable (c : Char) : Bool := ' ' ≤ c && c ≤ '~'

/-- A character by its number: two digits up to U+00FF, else at least four. -/
def byNumber (c : Char) : List Char :=
  if c.toNat ≥ 0x100 then '\\' :: 'u' :: Text.Hex.padded 4 c.toNat
  else '\\' :: 'x' :: Text.Hex.padded 2 c.toNat

def stringEscape? (c : Char) : Option (List Char) :=
  match c with
  | '\x00' => some ['\\', 'x', '0', '0']
  | '\x08' => some ['\\', 'x', '0', '8']
  | '\t' => some ['\\', 't']
  | '\n' => some ['\\', 'n']
  | '\x0b' => some ['\\', 'x', '0', 'b']
  | '\x0c' => some ['\\', 'f']
  | '\r' => some ['\\', 'r']
  | '\"' => some ['\\', 'x', '2', '2']
  | '&' => some ['\\', 'x', '2', '6']
  | '\'' => some ['\\', 'x', '2', '7']
  | '/' => some ['\\', '/']
  | '<' => some ['\\', 'x', '3', 'c']
  | '=' => some ['\\', 'x', '3', 'd']
  | '>' => some ['\\', 'x', '3', 'e']
  | '\\' => some ['\\', '\\']
  | '\x85' => some ['\\', 'x', '8', '5']
  | '\u2028' => some ['\\', 'u', '2', '0', '2', '8']
  | '\u2029' => some ['\\', 'u', '2', '0', '2', '9']
  | _ => none

/-- The characters with a meaning in a pattern that a backslash takes away. -/
def isPatternMark (c : Char) : Bool :=
  c ∈ ['$', '(', ')', '*', '+', ',', '-', '.', ':', '?', '[', ']', '^', '\x7b', '|', '\x7d']

def inString (c : Char) : List Char :=
  match stringEscape? c with
  | some text => text
  | none => if isPrintable c then [c] else byNumber c

/-- The character of a string literal that holds nothing else: every unprintable one by number. -/
def alone (c : Char) : List Char := if isPrintable c then inString c else byNumber c

def inClass (c : Char) : List Char :=
  if isPrintable c then if isPatternMark c then ['\\', c] else inString c else byNumber c

end Autoescape.Literal.Character
