import Autoescape.Json.Printer
import Autoescape.Proofs.Hex
import Mathlib.Data.List.Forall2

/-!
# JSON texts

The grammar of JSON, as relations between a text and what it stands for. A value has many texts:
blanks may stand between its tokens, the characters of a string may be written as themselves or as
escapes, and an exponent may have needless zeros. The written form of a value is one of its texts.
-/
namespace Autoescape.Json

def blanks : List Char := [' ', '\t', '\n', '\r']

/-- The escapes of one letter, each with the unit that it stands for. -/
def letterEscapes : List (Char × UInt16) :=
  [('\"', 0x22), ('\\', 0x5C), ('/', 0x2F), ('b', 0x08), ('f', 0x0C), ('n', 0x0A), ('r', 0x0D),
    ('t', 0x09)]

def HexDigit (c : Char) (k : Nat) : Prop :=
  k < 16 ∧ (c = Nat.digitChar k ∨ c = (Nat.digitChar k).toUpper)

def hexValue (digits : List Nat) : Nat := digits.foldl (fun n k => n * 16 + k) 0

/-- What stands between the quotes of a string, and its units. -/
inductive StringText : List Char → List UInt16 → Prop where
  | nil : StringText [] []
  /-- A character that stands for itself. -/
  | plain {c : Char} {s : List Char} {units : List UInt16} (hprintable : ' ' ≤ c) (hquote : c ≠ '\"')
      (hslash : c ≠ '\\') (hrest : StringText s units) :
      StringText (c :: s) (Text.Units.ofChar c ++ units)
  | letter {c : Char} {u : UInt16} {s : List Char} {units : List UInt16} (hletter : (c, u) ∈ letterEscapes)
      (hrest : StringText s units) : StringText ('\\' :: c :: s) (u :: units)
  | hex {digits : List Char} {values : List Nat} {s : List Char} {units : List UInt16}
      (hdigits : List.Forall₂ HexDigit digits values) (hfour : values.length = 4)
      (hrest : StringText s units) :
      StringText ('\\' :: 'u' :: (digits ++ s)) ((hexValue values).toUInt16 :: units)

def signs : List (List Char × Int) := [([], 1), (['+'], 1), (['-'], -1)]

/-- The end of a numeral and the power of ten that it gives. -/
inductive ExponentText : List Char → Int → Prop where
  | absent : ExponentText [] 0
  | present {mark : Char} {sign : List Char} {factor : Int} (hmark : mark = 'e' ∨ mark = 'E')
      (hsign : (sign, factor) ∈ signs) (zeros power : Nat) :
      ExponentText (mark :: (sign ++ (List.replicate zeros '0' ++ Nat.toDigits 10 power)))
        (factor * power)

def mantissaText (d : Decimal) : List Char :=
  (if d.negative then ['-'] else []) ++ Nat.toDigits 10 d.whole
    ++ (if d.fraction = [] then [] else '.' :: d.fraction.map fun k => Nat.digitChar k.val)

/-- The texts of a token: brackets, separators and words have one, strings and numbers many. -/
def Token.Spelled : Token → List Char → Prop
  | .string units, s => ∃ inner, StringText inner units ∧ s = '\"' :: (inner ++ ['\"'])
  | .number d, s => ∃ exponent, ExponentText exponent d.exponent ∧ s = mantissaText d ++ exponent
  | t, s => s = t.text

inductive Written : List Token → List Char → Prop where
  | nil : Written [] []
  | blank {c : Char} {ts : List Token} {s : List Char} (hblank : c ∈ blanks) (hrest : Written ts s) :
      Written ts (c :: s)
  | token {t : Token} {r : List Char} {ts : List Token} {s : List Char} (htoken : t.Spelled r)
      (hrest : Written ts s) : Written (t :: ts) (r ++ s)

/-- A text denotes a value when it is written with the value's tokens. -/
def Denotes (text : String) (v : Json) : Prop := Written v.tokens text.toList

/-! ### The written form -/

theorem hexValue_append_singleton (digits : List Nat) (k : Nat) :
    hexValue (digits ++ [k]) = hexValue digits * 16 + k := by
  rw [hexValue, List.foldl_append]
  rfl

theorem hexDigits_lastDigits (width : Nat) {n : Nat} (h : n < 16 ^ width) :
    ∃ values, List.Forall₂ HexDigit (Text.Hex.lastDigits width n) values ∧ values.length = width ∧
      hexValue values = n := by
  induction width generalizing n with
  | zero => exact ⟨[], .nil, rfl, by rw [Nat.pow_zero] at h; simp [hexValue]; omega⟩
  | succ width ih =>
    have hdiv : n / 16 < 16 ^ width := by
      rw [Nat.div_lt_iff_lt_mul (by decide)]
      rwa [Nat.pow_succ] at h
    obtain ⟨values, hdigits, hlength, hvalue⟩ := ih hdiv
    have hlast : HexDigit (Nat.digitChar (n % 16)) (n % 16) := ⟨Nat.mod_lt n (by decide), .inl rfl⟩
    refine ⟨values ++ [n % 16], ?_, by simp [hlength], ?_⟩
    · exact List.rel_append hdigits (.cons hlast .nil)
    · rw [hexValue_append_singleton, hvalue]
      omega

/-- A unit that is the number of a character is that character's only unit. -/
theorem ofChar_ofNat {u : UInt16} (hvalid : u.toNat.isValidChar) :
    Text.Units.ofChar (Char.ofNat u.toNat) = [u] := by
  have hnumber : (Char.ofNat u.toNat).toNat = u.toNat := by
    rw [Char.ofNat, dif_pos hvalid]
    rfl
  have hlt : u.toNat < 0x10000 := u.toNat_lt
  rw [Text.Units.ofChar, hnumber, if_pos hlt]
  simp

/-- The other units are read as the character zero. -/
theorem ofChar_of_ofNat {u : UInt16} {c : Char} (hc : Char.ofNat u.toNat = c) (h : c ≠ '\x00') :
    Text.Units.ofChar c = [u] := by
  subst hc
  refine ofChar_ofNat ?_
  by_contra hinvalid
  rw [Char.ofNat, dif_neg hinvalid] at h
  exact h rfl

theorem StringText.unit_append (u : UInt16) {s : List Char} {units : List UInt16}
    (h : StringText s units) : StringText (unitText u ++ s) (u :: units) := by
  unfold unitText
  extract_lets c
  have hc : Char.ofNat u.toNat = c := rfl
  clear_value c
  by_cases hescaped : c = '\"' ∨ c = '\\'
  · rw [if_pos hescaped]
    refine .letter ?_ h
    rcases hescaped with hquote | hslash
    · have hunit := ofChar_of_ofNat (hc.trans hquote) (by decide)
      obtain rfl : 0x22 = u := by simpa [Text.Units.ofChar] using hunit
      rw [hquote]
      decide
    · have hunit := ofChar_of_ofNat (hc.trans hslash) (by decide)
      obtain rfl : 0x5C = u := by simpa [Text.Units.ofChar] using hunit
      rw [hslash]
      decide
  rw [if_neg hescaped]
  by_cases hplain : ' ' ≤ c ∧ c ≤ '~'
  · have hzero : c ≠ '\x00' := fun heq => absurd hplain.1 (by rw [heq]; decide)
    have htext := StringText.plain hplain.1 (fun heq => hescaped (.inl heq))
      (fun heq => hescaped (.inr heq)) h
    rw [ofChar_of_ofNat hc hzero] at htext
    rwa [if_pos hplain]
  · have hlt : u.toNat < 16 ^ 4 := u.toNat_lt
    obtain ⟨values, hdigits, hlength, hvalue⟩ := hexDigits_lastDigits 4 hlt
    have htext := StringText.hex hdigits hlength h
    rw [hvalue] at htext
    rw [if_neg hplain, Text.Hex.padded_eq_lastDigits 3 hlt]
    simpa using htext

theorem StringText.flatMap_unitText (units : List UInt16) :
    StringText (units.flatMap unitText) units := by
  induction units with
  | nil => exact .nil
  | cons u units ih => exact ih.unit_append u

theorem Token.spelled_text (t : Token) : t.Spelled t.text := by
  cases t with
  | string units => exact ⟨_, .flatMap_unitText units, rfl⟩
  | number d =>
    obtain ⟨negative, whole, fraction, exponent⟩ := d
    rcases exponent with (_ | n) | n
    · exact ⟨[], .absent, rfl⟩
    · refine ⟨'e' :: Nat.toDigits 10 (n + 1), ?_, rfl⟩
      have h := ExponentText.present (.inl rfl) (show ([], 1) ∈ signs by decide) 0 (n + 1)
      simpa using h
    · refine ⟨'e' :: '-' :: Nat.toDigits 10 (n + 1), ?_, rfl⟩
      have h := ExponentText.present (.inl rfl) (show (['-'], -1) ∈ signs by decide) 0 (n + 1)
      simpa [Int.negSucc_eq] using h
  | _ => rfl

/-- Tokens in their written form, before a text of others. -/
theorem Written.append_flatMap_text (ts : List Token) {ts' : List Token} {s : List Char}
    (h : Written ts' s) : Written (ts ++ ts') (ts.flatMap Token.text ++ s) := by
  induction ts with
  | nil => exact h
  | cons t ts ih =>
    rw [List.flatMap_cons, List.append_assoc]
    exact .token t.spelled_text ih

theorem denotes_render (v : Json) : Denotes (render v) v := by
  rw [Denotes, render, String.toList_ofList]
  simpa using Written.append_flatMap_text v.tokens .nil

end Autoescape.Json
