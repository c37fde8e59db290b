import Autoescape.Json.Lexer
import Autoescape.Text.Hex
import Mathlib.Algebra.Group.Nat.Defs

/-!
# Numerals of a fixed width

A padded numeral of a number below `16 ^ width` has exactly `width` digits, and every digit reads
back as its value.
-/
namespace Autoescape.Text.Hex

/-- The last hexadecimal digits of a number, as many as asked for. -/
def lastDigits : Nat → Nat → List Char
  | 0, _ => []
  | width + 1, n => lastDigits width (n / 16) ++ [Nat.digitChar (n % 16)]

theorem lastDigits_zero (width : Nat) : lastDigits width 0 = List.replicate width '0' := by
  induction width with
  | zero => rfl
  | succ width ih =>
    rw [lastDigits, ih, List.replicate_succ']
    rfl

/-- A number that the width has room for is written with as many digits as the width. -/
theorem padded_eq_lastDigits (width : Nat) {n : Nat} (h : n < 16 ^ (width + 1)) :
    padded (width + 1) n = lastDigits (width + 1) n := by
  induction width generalizing n with
  | zero =>
    have hn : n < 16 := by simpa using h
    simp [padded, lastDigits, Nat.toDigits_of_lt_base hn, Nat.mod_eq_of_lt hn, List.leftpad]
  | succ width ih =>
    by_cases hn : n < 16
    · rw [lastDigits, Nat.div_eq_of_lt hn, lastDigits_zero, Nat.mod_eq_of_lt hn, padded,
        Nat.toDigits_of_lt_base hn]
      simp [List.leftpad]
    · have hdiv : n / 16 < 16 ^ (width + 1) := by
        rw [Nat.div_lt_iff_lt_mul (by decide)]
        rwa [Nat.pow_succ] at h
      have hpad := ih hdiv
      rw [padded] at hpad
      rw [lastDigits, ← hpad, padded, Nat.toDigits_of_base_le (by decide) (by omega)]
      simp [List.leftpad]

theorem hexDigit?_digitChar {n : Nat} (h : n < 16) : Json.hexDigit? (Nat.digitChar n) = some n := by
  have hall : ∀ n < 16, Json.hexDigit? (Nat.digitChar n) = some n := by decide
  exact hall n h

theorem hexDigit?_toUpper_digitChar {n : Nat} (h : n < 16) :
    Json.hexDigit? (Nat.digitChar n).toUpper = some n := by
  have hall : ∀ n < 16, Json.hexDigit? (Nat.digitChar n).toUpper = some n := by decide
  exact hall n h

theorem exists_of_mem_toDigits {n : Nat} {c : Char} (h : c ∈ Nat.toDigits 16 n) :
    ∃ k < 16, c = Nat.digitChar k := by
  induction n using Nat.strongRecOn with
  | ind n ih =>
    by_cases hn : n < 16
    · rw [Nat.toDigits_of_lt_base hn, List.mem_singleton] at h
      exact ⟨n, hn, h⟩
    · rw [Nat.toDigits_of_base_le (by decide) (by omega), List.mem_append, List.mem_singleton] at h
      rcases h with h | h
      · exact ih (n / 16) (by omega) h
      · exact ⟨n % 16, Nat.mod_lt n (by decide), h⟩

theorem exists_of_mem_padded {width n : Nat} {c : Char} (h : c ∈ padded width n) :
    ∃ k < 16, c = Nat.digitChar k := by
  rw [padded, List.leftpad, List.mem_append] at h
  rcases h with h | h
  · exact ⟨0, by decide, (List.mem_replicate.mp h).2⟩
  · exact exists_of_mem_toDigits h

/-- A number that the width has no room for has more digits than the width. The first of them are those
of a number that it has room for. -/
theorem exists_padded_eq_append (width : Nat) {n : Nat} (h : 16 ^ (width + 1) ≤ n) :
    ∃ m < 16 ^ (width + 1), ∃ d digits, padded (width + 1) n = lastDigits (width + 1) m ++ d :: digits := by
  induction n using Nat.strongRecOn with
  | ind n ih =>
    have hbase : 16 ≤ n := by
      have hpos : 0 < 16 ^ width := Nat.pow_pos (by decide)
      rw [Nat.pow_succ] at h
      omega
    have hdigits := Nat.toDigits_of_base_le (by decide) hbase
    have hlong : ¬(Nat.toDigits 16 n).length ≤ width + 1 := by
      rw [Nat.length_toDigits_le_iff (by decide) (by omega)]
      omega
    -- neither numeral is filled up, so the longer one is the shorter one and the last digit
    have hpadded : padded (width + 1) n = padded (width + 1) (n / 16) ++ [(n % 16).digitChar] := by
      rw [hdigits, List.length_append, List.length_singleton] at hlong
      have hn : width + 1 - ((Nat.toDigits 16 (n / 16)).length + 1) = 0 := by omega
      have hq : width + 1 - (Nat.toDigits 16 (n / 16)).length = 0 := by omega
      simp [padded, List.leftpad, hdigits, hn, hq]
    by_cases hq : n / 16 < 16 ^ (width + 1)
    · refine ⟨n / 16, hq, (n % 16).digitChar, [], ?_⟩
      rw [hpadded, padded_eq_lastDigits width hq]
    · obtain ⟨m, hm, d, digits, heq⟩ := ih (n / 16) (by omega) (Nat.le_of_not_lt hq)
      refine ⟨m, hm, d, digits ++ [(n % 16).digitChar], ?_⟩
      rw [hpadded, heq, List.append_assoc, List.cons_append]

end Autoescape.Text.Hex
