import Autoescape.Text.Hex

/-!
# Percent encoding

A character is written as its UTF-8 bytes, each as a percent sign and two upper-case digits.
-/
namespace Autoescape.Text.Percent

def ofByte (b : UInt8) : List Char := '%' :: Hex.paddedUpper 2 b.toNat

def ofChar (c : Char) : List Char := (String.utf8EncodeChar c).flatMap ofByte

example : String.ofList (ofChar '<') = "%3C" := by decide
example : String.ofList (ofChar '\xa0') = "%C2%A0" := by decide

end Autoescape.Text.Percent
