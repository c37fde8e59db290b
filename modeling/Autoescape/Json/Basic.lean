import Autoescape.Text.Units

/-!
# JSON values

Strings are kept as sixteen-bit code units, since a document may hold surrogates that stand
alone. Records keep their fields in source order, with repeats. Numbers keep every digit, so
none is too large.
-/
namespace Autoescape

/-- A decimal numeral: sign, whole part, digits after the point, power of ten. -/
structure Decimal where
  negative : Bool
  whole : Nat
  fraction : List (Fin 10)
  exponent : Int
deriving DecidableEq, Inhabited

inductive Json where
  | null
  | bool (value : Bool)
  | number (value : Decimal)
  | string (units : List UInt16)
  | list (items : List Json)
  | record (fields : List (List UInt16 × Json))
deriving Inhabited

namespace Json

def text (s : String) : Json := .string (Text.Units.encode s.toList)

/-- The text of a string value without lone surrogates. -/
def text? : Json → Option String
  | .string units => (Text.Units.decode? units).map String.ofList
  | _ => none

@[simp] theorem text?_text (s : String) : (text s).text? = some s := by
  simp [text, text?, Text.Units.decode?_encode]

def nat (n : Nat) : Json := .number ⟨false, n, [], 0⟩

def nat? : Json → Option Nat
  | .number ⟨false, n, [], 0⟩ => some n
  | _ => none

@[simp] theorem nat?_nat (n : Nat) : (nat n).nat? = some n := rfl

def bool? : Json → Option Bool
  | .bool b => some b
  | _ => none

def list? : Json → Option (List Json)
  | .list items => some items
  | _ => none

def texts? (j : Json) : Option (List String) := do (← j.list?).mapM text?

def char? (j : Json) : Option Char := do
  match (← j.text?).toList with
  | [c] => some c
  | _ => none

def texts (l : List String) : Json := .list (l.map text)

def char (c : Char) : Json := .string (Text.Units.ofChar c)

@[simp] theorem char?_char (c : Char) : (char c).char? = some c := by
  have h : Text.Units.decode? (Text.Units.ofChar c) = some [c] := by
    simpa [Text.Units.decode?] using Text.Units.decode?_ofChar_append c []
  simp [char, char?, text?, h]

/-- A record from named fields, in order. -/
def object (fields : List (String × Json)) : Json :=
  .record (fields.map fun field => (Text.Units.encode field.1.toList, field.2))

/-- A value that may be absent, written as `null` when it is. -/
def optional {α : Type} (write : α → Json) : Option α → Json
  | none => .null
  | some a => write a

end Json
end Autoescape
