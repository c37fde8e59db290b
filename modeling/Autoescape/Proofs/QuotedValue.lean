import Autoescape.Proofs.QuotedReader

/-!
# What a string literal denotes

The literal of every text is complete: it is read to its closing quote, and some units come of it.
They are the units of the text unless the text holds a character above U+FFFF. Such a character is
written with five or six digits behind one backslash, of which the reader takes four; the others
stand for themselves.
-/
namespace Autoescape.Literal.Quoted
open Text

variable {c : Char} {text digits : List Char}

/-- A hexadecimal digit stands for itself, and it is below the surrogates. -/
theorem next?_digitChar {k : Nat} (h : k < 16) :
    next? .plain (Nat.digitChar k) = some (Units.ofChar (Nat.digitChar k), .plain) ∧
      (Nat.digitChar k).toNat < 0x80 := by
  have hall : ∀ k < 16, next? .plain (Nat.digitChar k) = some (Units.ofChar (Nat.digitChar k), .plain) ∧
      (Nat.digitChar k).toNat < 0x80 := by decide
  exact hall k h

theorem through?_digits (h : ∀ d ∈ digits, ∃ k < 16, d = Nat.digitChar k) :
    through? .plain digits = some (Units.encode digits, .plain) := by
  induction digits with
  | nil => rfl
  | cons d digits ih =>
    obtain ⟨⟨k, hk, rfl⟩, hdigits⟩ := List.forall_mem_cons.mp h
    exact through?_cons.mpr ⟨_, _, _, (next?_digitChar hk).1, ih hdigits, rfl⟩

theorem stringEscape?_eq_none (h : 0xFFFF < c.toNat) : Character.stringEscape? c = none := by
  unfold Character.stringEscape?
  split
  all_goals first
    | rfl
    | exact absurd h (by decide)

theorem inString_eq_byNumber (h : 0xFFFF < c.toNat) : Character.inString c = Character.byNumber c := by
  have hprintable : Character.isPrintable c = false := by
    simp only [Character.isPrintable, Bool.and_eq_false_iff, decide_eq_false_iff_not, Char.le_def,
      UInt32.le_iff_toNat_le]
    right
    intro hle
    have hle : c.toNat ≤ 0x7E := hle
    omega
  simp [Character.inString, stringEscape?_eq_none h, hprintable]

/-- Of the number of a character above U+FFFF the reader takes four digits. The next one is left over
and stands for itself. -/
theorem through?_inString_astral (h : 0xFFFF < c.toNat) : ∃ u d, ∃ later, d.toNat < 0x80 ∧
    through? .plain (Character.inString c) = some (u :: Units.ofChar d ++ later, .plain) := by
  obtain ⟨m, hm, d, digits, hpadded⟩ := Hex.exists_padded_eq_append 3 (n := c.toNat) (by omega)
  have hdigit : ∀ e ∈ d :: digits, ∃ k < 16, e = Nat.digitChar k := fun e he =>
    Hex.exists_of_mem_padded (hpadded ▸ List.mem_append_right _ he)
  obtain ⟨k, hk, hd⟩ := hdigit d List.mem_cons_self
  have hnumber : through? .plain ('\\' :: 'u' :: Hex.lastDigits 4 m) = some ([m.toUInt16], .plain) :=
    through?_append (s := .plain) (a := ['\\', 'u']) rfl
      (through?_of_readAll? (Nat.le_refl _) (CharClass.readAll?_lastDigits_four hm))
  refine ⟨m.toUInt16, d, Units.encode digits, hd ▸ (next?_digitChar hk).2, ?_⟩
  rw [inString_eq_byNumber h, Character.byNumber, if_pos (by omega), hpadded]
  exact through?_append hnumber (through?_digits hdigit)

theorem ofChar_append_ne {u : UInt16} {d : Char} {later units : List UInt16} (h : 0xFFFF < c.toNat)
    (hd : d.toNat < 0x80) : u :: Units.ofChar d ++ later ≠ Units.ofChar c ++ units := by
  intro heq
  have hd' : d.toNat < 0x10000 := by omega
  have hc' : ¬c.toNat < 0x10000 := by omega
  simp only [Units.ofChar, if_pos hd', if_neg hc', List.cons_append, List.nil_append,
    List.cons.injEq] at heq
  have hlow := congrArg UInt16.toNat heq.2.1
  simp at hlow
  omega

/-- What is written between the quotes is read to its end. It denotes the text exactly when every
character is a single unit. -/
theorem exists_through?_body (text : List Char) : ∃ units,
    through? .plain (body text) = some (units, .plain) ∧
      (units = Units.encode text ↔ ∀ c ∈ text, c.toNat ≤ 0xFFFF) := by
  induction text with
  | nil => exact ⟨[], rfl, by simp⟩
  | cons c text ih =>
    obtain ⟨units, hunits, hiff⟩ := ih
    rw [body_cons, Units.encode_cons, List.forall_mem_cons]
    by_cases hc : c.toNat ≤ 0xFFFF
    · refine ⟨_, through?_append (through?_inString hc) hunits, ?_⟩
      rw [List.append_cancel_left_eq, hiff]
      simp [hc]
    · obtain ⟨u, d, later, hd, hfirst⟩ := through?_inString_astral (Nat.lt_of_not_le hc)
      refine ⟨_, through?_append hfirst hunits, ?_⟩
      rw [List.append_assoc]
      exact iff_of_false (ofChar_append_ne (Nat.lt_of_not_le hc) hd) (fun h => hc h.1)

/-- The literal of a text is complete whatever follows it, and its value is the text in sixteen-bit
units exactly when every character of the text is a single unit. -/
theorem literal_denotes_iff (s : String) (rest : List Char) : ∃ units,
    read? ((ofText s).toList ++ rest) = some (units, rest) ∧
      (units = Units.encode s.toList ↔ ∀ c ∈ s.toList, c.toNat ≤ 0xFFFF) := by
  obtain ⟨units, hbody, hiff⟩ := exists_through?_body s.toList
  refine ⟨units, ?_, hiff⟩
  rw [ofText, String.toList_ofList]
  exact read?_quote hbody rest

/-- The literal of U+1F600 denotes U+1F60 and the digit zero. -/
theorem astral_text_denotes_other : (ofText "😀").toList = "'\\u1f600'".toList ∧
    read? (ofText "😀").toList = some ([0x1F60, 0x30], []) ∧
      Units.encode "😀".toList = [0xD83D, 0xDE00] := by
  decide +kernel

end Autoescape.Literal.Quoted
