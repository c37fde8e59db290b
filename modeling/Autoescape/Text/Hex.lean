/-!
# Hexadecimal numerals

Numerals of at least a given width, filled up with zeros on the left.
-/
namespace Autoescape.Text.Hex

/-- The lower-case numeral of a number with at least `width` digits. -/
def padded (width n : Nat) : List Char := (Nat.toDigits 16 n).leftpad width '0'

def paddedUpper (width n : Nat) : List Char := (padded width n).map Char.toUpper

example : padded 4 0x2028 = ['2', '0', '2', '8'] := by decide
example : padded 2 7 = ['0', '7'] := by decide
example : padded 4 0x1F600 = ['1', 'f', '6', '0', '0'] := by decide
example : paddedUpper 2 0x3C = ['3', 'C'] := by decide

end Autoescape.Text.Hex
