import Autoescape.Json.Basic
import Autoescape.Text.Hex

/-!
# The tokens of JSON text

A token is a bracket, a separator, a word, a number or a string. Written text is ASCII: a code
unit that is not a plain printable character is written with four hexadecimal digits.
-/
namespace Autoescape.Json

inductive Token where
  | openList
  | closeList
  | openRecord
  | closeRecord
  | comma
  | colon
  | null
  | bool (value : Bool)
  | number (value : Decimal)
  | string (units : List UInt16)
deriving DecidableEq

def unitText (u : UInt16) : List Char :=
  let c := Char.ofNat u.toNat
  if c = '\"' ∨ c = '\\' then ['\\', c]
  else if ' ' ≤ c ∧ c ≤ '~' then [c]
  else '\\' :: 'u' :: Text.Hex.padded 4 u.toNat

/-- A number, with point and exponent only where they say something. -/
def decimalText (d : Decimal) : List Char :=
  (if d.negative then ['-'] else []) ++ Nat.toDigits 10 d.whole
    ++ (if d.fraction = [] then [] else '.' :: d.fraction.map fun k => Nat.digitChar k.val)
    ++ (match d.exponent with
        | .ofNat 0 => []
        | .ofNat n => 'e' :: Nat.toDigits 10 n
        | .negSucc n => 'e' :: '-' :: Nat.toDigits 10 (n + 1))

def Token.text : Token → List Char
  | .openList => ['[']
  | .closeList => [']']
  | .openRecord => ['\x7b']
  | .closeRecord => ['\x7d']
  | .comma => [',']
  | .colon => [':']
  | .null => ['n', 'u', 'l', 'l']
  | .bool true => ['t', 'r', 'u', 'e']
  | .bool false => ['f', 'a', 'l', 's', 'e']
  | .number d => decimalText d
  | .string units => '\"' :: (units.flatMap unitText ++ ['\"'])

end Autoescape.Json
