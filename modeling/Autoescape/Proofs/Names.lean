import Autoescape.Registry
import Mathlib.Data.Char
import Mathlib.Order.Interval.Set.Basic

/-!
# Names that pass the check

A checked name is made of letters, digits, underscores and dollar signs, with dots between the parts
of a function's name. Capitals and underscores are all that the name of an owner adds.
-/
namespace Autoescape

/-! ### Letters and digits of ASCII -/

section Ascii

variable {c : Char}

theorem Char.isUpper_iff : c.isUpper = true ↔ c ∈ Set.Icc 'A' 'Z' := decide_eq_true_iff

theorem Char.isLower_iff : c.isLower = true ↔ c ∈ Set.Icc 'a' 'z' :=
  Bool.and_eq_true_iff.trans (and_congr decide_eq_true_iff decide_eq_true_iff)

theorem Char.isDigit_iff : c.isDigit = true ↔ c ∈ Set.Icc '0' '9' :=
  Bool.and_eq_true_iff.trans (and_congr decide_eq_true_iff decide_eq_true_iff)

theorem Char.isAlpha_iff : c.isAlpha = true ↔ c ∈ Set.Icc 'A' 'Z' ∪ Set.Icc 'a' 'z' :=
  Bool.or_eq_true_iff.trans (or_congr isUpper_iff isLower_iff)

theorem Char.isAlphanum_iff :
    c.isAlphanum = true ↔ c ∈ Set.Icc 'A' 'Z' ∪ Set.Icc 'a' 'z' ∪ Set.Icc '0' '9' :=
  Bool.or_eq_true_iff.trans (or_congr isAlpha_iff isDigit_iff)

end Ascii

theorem Text.Split.mem_pieces {separator : Char} {s : List Char} {c : Char} (h : c ∈ s) :
    c = separator ∨ ∃ piece ∈ pieces separator s, c ∈ piece := by
  induction s with
  | nil => simp at h
  | cons first rest ih =>
    by_cases hfirst : first = separator
    · rcases List.mem_cons.mp h with rfl | h
      · exact .inl hfirst
      · rcases ih h with heq | ⟨piece, hpiece, hc⟩
        · exact .inl heq
        · refine .inr ⟨piece, ?_, hc⟩
          simp [pieces, hfirst, hpiece]
    · rw [pieces, if_neg hfirst]
      cases hrest : pieces separator rest with
      | nil => exact absurd hrest (pieces_ne_nil separator rest)
      | cons head tail =>
        rw [hrest] at ih
        simp only [prepend, List.mem_cons, exists_eq_or_imp] at ih ⊢
        rcases List.mem_cons.mp h with rfl | h
        · exact .inr (.inl (.inl rfl))
        · rcases ih h with heq | hc | hlater
          · exact .inl heq
          · exact .inr (.inl (.inr hc))
          · exact .inr (.inr hlater)

namespace Registry

theorem toNat_lt_of_isIdentPart {c : Char} (h : isIdentPart c = true) : c.toNat < 128 := by
  have hrange {first last : Char} (hlast : last.toNat < 128) (h : c ∈ Set.Icc first last) : c.toNat < 128 :=
    Nat.lt_of_le_of_lt (UInt32.le_iff_toNat_le.mp h.2) hlast
  simp only [isIdentPart, isIdentStart, Bool.or_eq_true, decide_eq_true_eq, Char.isAlpha_iff,
    Char.isDigit_iff] at h
  rcases h with (((hupper | hlower) | rfl) | rfl) | hdigit
  · exact hrange (by decide) hupper
  · exact hrange (by decide) hlower
  · decide
  · decide
  · exact hrange (by decide) hdigit

/-- What holds of every character of ASCII that may stand in a name can be checked one by one. -/
theorem forall_isIdentPart {p : Char → Prop}
    (h : ∀ n < 128, isIdentPart (Char.ofNat n) = true → p (Char.ofNat n)) {c : Char}
    (hc : isIdentPart c = true) : p c := by
  have hp := h c.toNat (toNat_lt_of_isIdentPart hc)
  rw [Char.ofNat_toNat] at hp
  exact hp hc

theorem isIdentPart_toUpper {c : Char} (h : isIdentPart c = true) : isIdentPart c.toUpper = true :=
  forall_isIdentPart (p := fun c => isIdentPart c.toUpper = true) (by decide) h

theorem isIdentPart_of_isIdent {name : List Char} (h : isIdent name = true) :
    ∀ c ∈ name, isIdentPart c = true := by
  cases name with
  | nil => simp
  | cons first rest =>
    simp only [isIdent, Bool.and_eq_true, List.all_eq_true] at h
    intro c hc
    rcases List.mem_cons.mp hc with rfl | hc
    · simp [isIdentPart, h.1]
    · exact h.2 c hc

theorem isIdentPart_of_isQualified {name : List Char} (h : isQualified name = true) :
    ∀ c ∈ name, c = '.' ∨ isIdentPart c = true := by
  intro c hc
  rcases Text.Split.mem_pieces hc with heq | ⟨piece, hpiece, hmem⟩
  · exact .inl heq
  · exact .inr (isIdentPart_of_isIdent (List.all_eq_true.mp h piece hpiece) c hmem)

theorem isIdentPart_underscored {name : List Char} (h : ∀ c ∈ name, isIdentPart c = true) :
    ∀ c ∈ Text.Case.underscored name, isIdentPart c = true := by
  cases name with
  | nil => simp [Text.Case.underscored]
  | cons first rest =>
    intro c hc
    rcases List.mem_cons.mp hc with rfl | hc
    · exact isIdentPart_toUpper (h first List.mem_cons_self)
    · rcases List.mem_flatMap.mp hc with ⟨d, hd, hc⟩
      have hpart := h d (List.mem_cons_of_mem first hd)
      by_cases hupper : d.isUpper
      · rw [if_pos hupper] at hc
        obtain rfl | rfl : c = '_' ∨ c = d := by simpa using hc
        · decide
        · exact hpart
      · rw [if_neg hupper] at hc
        obtain rfl : c = d.toUpper := by simpa using hc
        exact isIdentPart_toUpper hpart

theorem vetNames_eq_ok {path : String} {d : Directive} :
    vetNames path d = .ok () ↔ isIdent d.identifier.toList = true ∧
      ∀ name ∈ d.functions, isQualified name.toList = true := by
  unfold vetNames
  by_cases hident : isIdent d.identifier.toList = true
  · rw [if_neg (by simpa using hident)]
    cases hfind : d.functions.find? fun name => !isQualified name.toList with
    | none =>
      have hall : ∀ name ∈ d.functions, isQualified name.toList = true := by
        simpa using hfind
      simpa [hident] using hall
    | some name =>
      have hname := List.find?_some hfind
      have hmem := List.mem_of_find?_eq_some hfind
      simp only [Bool.not_eq_true'] at hname
      simp only [reduceCtorEq, false_iff, not_and, not_forall]
      exact fun _ => ⟨name, hmem, by simp [hname]⟩
  · simp [hident]

end Registry
end Autoescape
