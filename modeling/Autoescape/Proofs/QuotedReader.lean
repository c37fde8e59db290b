import Autoescape.Literal.Quoted
import Autoescape.Proofs.CharClass.Reader
import Autoescape.Text.Units

/-!
# Reading a string literal

A text between single quotes, read as the emitted language reads it: up to the first quote that no
backslash escapes, and as sixteen-bit code units. What a backslash escapes is read as in a
character class. `read?_ofText` says that a text of single units is read back, whatever follows its
literal.
-/
namespace Autoescape.Literal.Quoted
open CharClass (Stage)
open Text

/-- What the reader makes of a character that does not close the literal. No line may end in one. -/
def next? (s : Stage) (c : Char) : Option (List UInt16 × Stage) :=
  match s with
  | .plain =>
    if c = '\\' then some ([], .escaped)
    else if c ∈ ['\n', '\r', '\''] then none
    else some (Units.ofChar c, .plain)
  | s => (s.read? c).map fun r => (r.1.map fun piece => piece.number.toUInt16, r.2)

def units? (s : Stage) : List Char → Option (List UInt16 × List Char)
  | [] => none
  | c :: rest =>
    if s = .plain ∧ c = '\'' then some ([], rest)
    else do
      let (first, s) ← next? s c
      let (later, rest) ← units? s rest
      return (first ++ later, rest)

/-- The value of the string literal that a text begins with, and what follows the literal. -/
def read? : List Char → Option (List UInt16 × List Char)
  | '\'' :: rest => units? .plain rest
  | _ => none

def through? (s : Stage) : List Char → Option (List UInt16 × Stage)
  | [] => some ([], s)
  | c :: rest => do
    let (first, s) ← next? s c
    let (later, s) ← through? s rest
    return (first ++ later, s)

section Append

variable {s t u : Stage} {a b rest : List Char} {front back : List UInt16} {c : Char}

theorem through?_cons : through? s (c :: rest) = some (front, t) ↔ ∃ first mid later,
    next? s c = some (first, mid) ∧ through? mid rest = some (later, t) ∧ first ++ later = front := by
  simp [through?, Option.bind_eq_some_iff]

theorem through?_append (ha : through? s a = some (front, t)) (hb : through? t b = some (back, u)) :
    through? s (a ++ b) = some (front ++ back, u) := by
  induction a generalizing s front with
  | nil =>
    obtain ⟨rfl, rfl⟩ : [] = front ∧ s = t := by simpa [through?] using ha
    exact hb
  | cons c a ih =>
    rcases through?_cons.mp ha with ⟨first, mid, later, hfirst, hlater, rfl⟩
    exact through?_cons.mpr ⟨first, mid, later ++ back, hfirst, ih hlater, by simp⟩

theorem units?_append (h : through? s a = some (front, t)) :
    units? s (a ++ rest) = (units? t rest).map fun r => (front ++ r.1, r.2) := by
  induction a generalizing s front with
  | nil =>
    obtain ⟨rfl, rfl⟩ : [] = front ∧ s = t := by simpa [through?] using h
    simp
  | cons c a ih =>
    rcases through?_cons.mp h with ⟨first, mid, later, hfirst, hlater, rfl⟩
    -- the plain stage reads no quote, so the literal is still open
    have hopen : ¬(s = .plain ∧ c = '\'') := by
      rintro ⟨rfl, rfl⟩
      simp [next?] at hfirst
    rw [List.cons_append, units?, if_neg hopen, hfirst]
    cases hrest : units? t rest with
    | none => simp [ih hlater, hrest]
    | some r => simp [ih hlater, hrest]

end Append

section Written

variable {c : Char} {text : List Char}

/-- As long as a numeral lacks digits it is read as in a class. -/
theorem through?_of_readAll? {missing value : Nat} {pieces : List CharClass.Piece} {t : Stage}
    (hlength : text.length ≤ missing + 1)
    (h : (Stage.numeral missing value).readAll? text = some (pieces, t)) :
    through? (.numeral missing value) text = some (pieces.map fun piece => piece.number.toUInt16, t) := by
  induction text generalizing missing value pieces with
  | nil =>
    obtain ⟨rfl, rfl⟩ : [] = pieces ∧ Stage.numeral missing value = t := by simpa [Stage.readAll?] using h
    rfl
  | cons c rest ih =>
    simp only [Stage.readAll?, Option.bind_eq_bind, Option.bind_eq_some_iff] at h
    rcases h with ⟨⟨first, mid⟩, hfirst, ⟨later, last⟩, hlater, heq⟩
    obtain ⟨rfl, rfl⟩ : first ++ later = pieces ∧ last = t := by simpa using heq
    have hnext : next? (.numeral missing value) c =
        some (first.map fun piece => piece.number.toUInt16, mid) := by
      simp [next?, hfirst]
    refine through?_cons.mpr ⟨_, mid, _, hnext, ?_, (List.map_append).symm⟩
    cases missing with
    | zero =>
      -- the last digit was read, so nothing is left
      obtain rfl : rest = [] := List.length_eq_zero_iff.mp (by simpa using hlength)
      obtain ⟨rfl, rfl⟩ : [] = later ∧ mid = last := by simpa [Stage.readAll?] using hlater
      rfl
    | succ missing =>
      simp only [Stage.read?, Option.bind_eq_bind, Option.bind_eq_some_iff] at hfirst
      rcases hfirst with ⟨k, -, heq⟩
      obtain ⟨rfl, rfl⟩ : [] = first ∧ Stage.numeral missing (value * 16 + k) = mid := by simpa using heq
      exact ih (by simpa using hlength) hlater

theorem ofChar_eq_single (h : c.toNat ≤ 0xFFFF) : Units.ofChar c = [c.toNat.toUInt16] := by
  rw [Units.ofChar, if_pos (by omega)]

theorem through?_byNumber (h : c.toNat ≤ 0xFFFF) :
    through? .plain (Character.byNumber c) = some (Units.ofChar c, .plain) := by
  rw [ofChar_eq_single h]
  unfold Character.byNumber
  split
  · have hdigits := CharClass.readAll?_lastDigits_four (n := c.toNat) (by omega)
    rw [Hex.padded_eq_lastDigits 3 (by omega)]
    exact through?_append (s := .plain) (a := ['\\', 'u']) rfl (through?_of_readAll? (Nat.le_refl _) hdigits)
  · have hdigits := CharClass.readAll?_lastDigits_two (n := c.toNat) (by omega)
    rw [Hex.padded_eq_lastDigits 1 (by omega)]
    exact through?_append (s := .plain) (a := ['\\', 'x']) rfl (through?_of_readAll? (Nat.le_refl _) hdigits)

theorem through?_stringEscape? (h : Character.stringEscape? c = some text) :
    through? .plain text = some (Units.ofChar c, .plain) := by
  unfold Character.stringEscape? at h
  split at h
  all_goals
    cases h
    try decide

theorem through?_inString (h : c.toNat ≤ 0xFFFF) :
    through? .plain (Character.inString c) = some (Units.ofChar c, .plain) := by
  unfold Character.inString
  split
  · next text htext => exact through?_stringEscape? htext
  · next hnone =>
    split
    · -- the characters with a meaning in a string all have escapes
      have hbackslash : c ≠ '\\' := by
        rintro rfl
        exact absurd hnone (by decide)
      have hother : c ∉ ['\n', '\r', '\''] := by
        simp only [List.mem_cons, List.not_mem_nil, or_false]
        rintro (rfl | rfl | rfl) <;> exact absurd hnone (by decide)
      rw [through?, next?, if_neg hbackslash, if_neg hother]
      simp [through?]
    · exact through?_byNumber h

theorem through?_alone (h : c.toNat ≤ 0xFFFF) :
    through? .plain (Character.alone c) = some (Units.ofChar c, .plain) := by
  unfold Character.alone
  split
  · exact through?_inString h
  · exact through?_byNumber h

theorem through?_body (h : ∀ c ∈ text, c.toNat ≤ 0xFFFF) :
    through? .plain (body text) = some (Units.encode text, .plain) := by
  induction text with
  | nil => rfl
  | cons c text ih =>
    rcases List.forall_mem_cons.mp h with ⟨hc, htext⟩
    exact through?_append (through?_inString hc) (ih htext)

theorem read?_quote {units : List UInt16} (h : through? .plain text = some (units, .plain))
    (rest : List Char) : read? (quote text ++ rest) = some (units, rest) := by
  change units? .plain (text ++ ['\''] ++ rest) = _
  rw [List.append_assoc, units?_append h]
  simp [units?]

/-- A text of single units is read back from its literal. -/
theorem read?_ofText {s : String} (h : ∀ c ∈ s.toList, c.toNat ≤ 0xFFFF) (rest : List Char) :
    read? ((ofText s).toList ++ rest) = some (Units.encode s.toList, rest) := by
  rw [ofText, String.toList_ofList]
  exact read?_quote (through?_body h) rest

theorem read?_ofChar (h : c.toNat ≤ 0xFFFF) (rest : List Char) :
    read? ((ofChar c).toList ++ rest) = some (Units.ofChar c, rest) := by
  rw [ofChar, String.toList_ofList]
  exact read?_quote (through?_alone h) rest

end Written

theorem encode_injective : Function.Injective Units.encode := by
  intro s t h
  have hread := congrArg Units.decode? h
  rw [Units.decode?_encode, Units.decode?_encode] at hread
  exact Option.some.inj hread

theorem ofText_append_inj {s t rest rest' : String} (hs : ∀ c ∈ s.toList, c.toNat ≤ 0xFFFF)
    (ht : ∀ c ∈ t.toList, c.toNat ≤ 0xFFFF) (h : ofText s ++ rest = ofText t ++ rest') :
    s = t ∧ rest = rest' := by
  have htext : (ofText s).toList ++ rest.toList = (ofText t).toList ++ rest'.toList := by
    rw [← String.toList_append, h, String.toList_append]
  have hread := congrArg read? htext
  rw [read?_ofText hs, read?_ofText ht, Option.some.injEq, Prod.mk.injEq] at hread
  exact ⟨String.toList_inj.mp (encode_injective hread.1), String.toList_inj.mp hread.2⟩

theorem ofText_inj {s t : String} (hs : ∀ c ∈ s.toList, c.toNat ≤ 0xFFFF)
    (ht : ∀ c ∈ t.toList, c.toNat ≤ 0xFFFF) (h : ofText s = ofText t) : s = t :=
  (ofText_append_inj hs ht (congrArg (· ++ "") h)).1

theorem ofChar_append_inj {c d : Char} {rest rest' : String} (hc : c.toNat ≤ 0xFFFF)
    (hd : d.toNat ≤ 0xFFFF) (h : ofChar c ++ rest = ofChar d ++ rest') : c = d ∧ rest = rest' := by
  have htext : (ofChar c).toList ++ rest.toList = (ofChar d).toList ++ rest'.toList := by
    rw [← String.toList_append, h, String.toList_append]
  have hread := congrArg read? htext
  rw [read?_ofChar hc, read?_ofChar hd, Option.some.injEq, Prod.mk.injEq] at hread
  have hencode : Units.encode [c] = Units.encode [d] := by simpa using hread.1
  exact ⟨List.singleton_inj.mp (encode_injective hencode), String.toList_inj.mp hread.2⟩

end Autoescape.Literal.Quoted
