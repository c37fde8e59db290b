import Autoescape.Json.Token

/-!
# Reading JSON tokens

The reader takes one character at a time and is strict: blanks are space, tab, line feed and
carriage return; strings hold no raw control character and only the escapes of the format; a
numeral has no needless leading zero and no point or exponent without digits.
-/
namespace Autoescape.Json

def digit? (c : Char) : Option (Fin 10) :=
  if h : '0' ≤ c ∧ c ≤ '9' then
    some ⟨c.toNat - 48, by
      have := h.2
      simp only [Char.le_def, UInt32.le_iff_toNat_le] at this
      have hc : c.toNat = c.val.toNat := rfl
      have : c.val.toNat ≤ 57 := this
      omega⟩
  else none

def hexDigit? (c : Char) : Option Nat :=
  if '0' ≤ c ∧ c ≤ '9' then some (c.toNat - 48)
  else if 'a' ≤ c ∧ c ≤ 'f' then some (c.toNat - 87)
  else if 'A' ≤ c ∧ c ≤ 'F' then some (c.toNat - 55)
  else none

inductive Part where
  | minus
  | zero
  | whole
  | point
  | fraction
  | mark
  | markSign
  | power
deriving DecidableEq

/-- A numeral that is being read; the digits after the point are in reverse. -/
structure Numeral where
  part : Part
  negative : Bool
  whole : Nat
  fraction : List (Fin 10)
  shrinks : Bool
  power : Nat

namespace Numeral

def start? (c : Char) : Option Numeral :=
  if c = '-' then some ⟨.minus, true, 0, [], false, 0⟩
  else (digit? c).map fun k => ⟨if k = 0 then .zero else .whole, false, k.val, [], false, 0⟩

def next? (n : Numeral) (c : Char) : Option Numeral :=
  match n.part, digit? c with
  | .minus, some k => some { n with part := if k = 0 then .zero else .whole, whole := k.val }
  | .whole, some k => some { n with whole := n.whole * 10 + k.val }
  | .point, some k => some { n with part := .fraction, fraction := [k] }
  | .fraction, some k => some { n with fraction := k :: n.fraction }
  | .mark, some k => some { n with part := .power, power := k.val }
  | .markSign, some k => some { n with part := .power, power := k.val }
  | .power, some k => some { n with power := n.power * 10 + k.val }
  | .zero, none => if c = '.' then some { n with part := .point } else mark? n c
  | .whole, none => if c = '.' then some { n with part := .point } else mark? n c
  | .fraction, none => mark? n c
  | .mark, none =>
    if c = '+' then some { n with part := .markSign }
    else if c = '-' then some { n with part := .markSign, shrinks := true }
    else none
  | _, _ => none
where
  mark? (n : Numeral) (c : Char) : Option Numeral :=
    if c = 'e' ∨ c = 'E' then some { n with part := .mark } else none

/-- The number of a numeral that may end here. -/
def finish? (n : Numeral) : Option Decimal :=
  if n.part = .zero ∨ n.part = .whole ∨ n.part = .fraction ∨ n.part = .power then
    some ⟨n.negative, n.whole, n.fraction.reverse, if n.shrinks then -n.power else n.power⟩
  else none

end Numeral

/-- Where the reader stands; the units of an unfinished string are in reverse. -/
inductive Mode where
  | between
  | word (token : Token) (missing : List Char)
  | number (numeral : Numeral)
  | string (units : List UInt16)
  | escape (units : List UInt16)
  | hex (units : List UInt16) (missing : Nat) (value : Nat)

def stepBetween (c : Char) : Option (List Token × Mode) :=
  match c with
  | ' ' | '\t' | '\n' | '\r' => some ([], .between)
  | '[' => some ([.openList], .between)
  | ']' => some ([.closeList], .between)
  | '\x7b' => some ([.openRecord], .between)
  | '\x7d' => some ([.closeRecord], .between)
  | ',' => some ([.comma], .between)
  | ':' => some ([.colon], .between)
  | '\"' => some ([], .string [])
  | 'n' => some ([], .word .null ['u', 'l', 'l'])
  | 't' => some ([], .word (.bool true) ['r', 'u', 'e'])
  | 'f' => some ([], .word (.bool false) ['a', 'l', 's', 'e'])
  | c => (Numeral.start? c).map fun n => ([], .number n)

def escaped? (c : Char) : Option UInt16 :=
  match c with
  | '\"' => some 0x22
  | '\\' => some 0x5C
  | '/' => some 0x2F
  | 'b' => some 0x08
  | 'f' => some 0x0C
  | 'n' => some 0x0A
  | 'r' => some 0x0D
  | 't' => some 0x09
  | _ => none

/-- Reads one character: the tokens that it completes, and the mode after it. -/
def step (m : Mode) (c : Char) : Option (List Token × Mode) :=
  match m with
  | .between => stepBetween c
  | .word token missing =>
    match missing with
    | [] => none
    | [d] => if c = d then some ([token], .between) else none
    | d :: missing => if c = d then some ([], .word token missing) else none
  | .number n =>
    match n.next? c with
    | some n => some ([], .number n)
    | none => do
      let d ← n.finish?
      let (tokens, m) ← stepBetween c
      return (.number d :: tokens, m)
  | .string units =>
    if c = '\"' then some ([.string units.reverse], .between)
    else if c = '\\' then some ([], .escape units)
    else if c < ' ' then none
    else some ([], .string ((Text.Units.ofChar c).reverse ++ units))
  | .escape units =>
    if c = 'u' then some ([], .hex units 4 0)
    else (escaped? c).map fun u => ([], .string (u :: units))
  | .hex units missing value => do
    let k ← hexDigit? c
    let value := value * 16 + k
    match missing with
    | 0 | 1 => some ([], .string (value.toUInt16 :: units))
    | missing + 2 => some ([], .hex units (missing + 1) value)

def atEnd (m : Mode) : Option (List Token) :=
  match m with
  | .between => some []
  | .number n => n.finish?.map fun d => [.number d]
  | _ => none

def tokensFrom? (m : Mode) : List Char → Option (List Token)
  | [] => atEnd m
  | c :: rest => do
    let (tokens, m) ← step m c
    return tokens ++ (← tokensFrom? m rest)

def tokens? (s : List Char) : Option (List Token) := tokensFrom? .between s

end Autoescape.Json
