import Autoescape.Literal.CharClass
import Mathlib.Data.List.Basic

/-!
# The runs of a set of characters

The runs of some characters cover exactly their numbers. Each run begins where it does not end
later, and between two runs at least one number is left out.
-/
namespace Autoescape.Literal.CharClass

def Run.Covers (r : Run) (n : Nat) : Prop := r.first.toNat ≤ n ∧ n ≤ r.last.toNat

/-- Runs that are in order and cannot be put together. -/
structure Tidy (runs : List Run) : Prop where
  first_le_last : ∀ r ∈ runs, r.first.toNat ≤ r.last.toNat
  apart : runs.Pairwise fun r s => r.last.toNat + 1 < s.first.toNat

theorem tidy_cons_iff (r : Run) (runs : List Run) :
    Tidy (r :: runs) ↔ r.first.toNat ≤ r.last.toNat ∧
      (∀ s ∈ runs, r.last.toNat + 1 < s.first.toNat) ∧ Tidy runs := by
  constructor
  · rintro ⟨hle, hapart⟩
    obtain ⟨hr, hruns⟩ := List.pairwise_cons.mp hapart
    exact ⟨hle r List.mem_cons_self, hr, fun s hs => hle s (List.mem_cons_of_mem _ hs), hruns⟩
  · rintro ⟨hr, hbefore, hle, hapart⟩
    exact ⟨by simpa using ⟨hr, hle⟩, List.pairwise_cons.mpr ⟨hbefore, hapart⟩⟩

theorem tidy_extend {c : Char} {runs : List Run} (h : Tidy runs)
    (hc : ∀ r ∈ runs, c.toNat ≤ r.first.toNat) : Tidy (extend c runs) := by
  cases runs with
  | nil => exact ⟨by simp [extend], by simp [extend]⟩
  | cons r rest =>
    obtain ⟨hr, hbefore, hrest⟩ := (tidy_cons_iff r rest).mp h
    have hcr := hc r List.mem_cons_self
    rw [extend]
    split
    · exact h
    · next hne =>
      have hne : c.toNat ≠ r.first.toNat := fun heq => hne (Char.toNat_inj.mp heq)
      split
      · exact (tidy_cons_iff _ _).mpr ⟨Nat.le_trans hcr hr, hbefore, hrest⟩
      · refine (tidy_cons_iff _ _).mpr ⟨Nat.le_refl _, ?_, h⟩
        intro s hs
        rcases List.mem_cons.mp hs with rfl | hs
        · change c.toNat + 1 < s.first.toNat
          omega
        · have hlt := hbefore s hs
          change c.toNat + 1 < s.first.toNat
          omega

theorem covers_extend {c : Char} {runs : List Run} (h : Tidy runs) (n : Nat) :
    (∃ r ∈ extend c runs, r.Covers n) ↔ n = c.toNat ∨ ∃ r ∈ runs, r.Covers n := by
  cases runs with
  | nil =>
    simp only [extend, List.mem_singleton, exists_eq_left, Run.Covers, List.not_mem_nil, false_and,
      exists_false, or_false]
    omega
  | cons r rest =>
    have hr := h.first_le_last r List.mem_cons_self
    rw [extend]
    split
    · next heq =>
      subst heq
      have hcovers : r.Covers r.first.toNat := ⟨Nat.le_refl _, hr⟩
      constructor
      · exact .inr
      · rintro (rfl | hcov)
        · exact ⟨r, List.mem_cons_self, hcovers⟩
        · exact hcov
    · split
      · next hnext =>
        have hrun : (⟨c, r.last⟩ : Run).Covers n ↔ n = c.toNat ∨ r.Covers n := by
          simp only [Run.Covers]
          omega
        simp only [List.exists_mem_cons_iff, hrun, or_assoc]
      · have hrun : (⟨c, c⟩ : Run).Covers n ↔ n = c.toNat := by
          simp only [Run.Covers]
          omega
        simp only [List.exists_mem_cons_iff, hrun]

/-- The runs of characters in order are tidy and cover exactly the numbers of the characters. -/
theorem runs_of_pairwise {chars : List Char} (h : chars.Pairwise (·.toNat ≤ ·.toNat)) :
    Tidy (chars.foldr extend []) ∧
      ∀ n, (∃ r ∈ chars.foldr extend [], r.Covers n) ↔ ∃ c ∈ chars, c.toNat = n := by
  induction chars with
  | nil => exact ⟨⟨by simp, .nil⟩, by simp⟩
  | cons c rest ih =>
    obtain ⟨hc, hrest⟩ := List.pairwise_cons.mp h
    obtain ⟨htidy, hcovers⟩ := ih hrest
    rw [List.foldr_cons]
    refine ⟨tidy_extend htidy fun r hr => ?_, fun n => ?_⟩
    · -- the first character of a run is one of the characters behind `c`
      have hfirst : r.Covers r.first.toNat := ⟨Nat.le_refl _, htidy.first_le_last r hr⟩
      obtain ⟨d, hd, heq⟩ := (hcovers _).mp ⟨r, hr, hfirst⟩
      rw [← heq]
      exact hc d hd
    · rw [covers_extend htidy, hcovers]
      simp [eq_comm]

theorem pairwise_sorted (chars : List Char) :
    (chars.mergeSort (· ≤ ·)).Pairwise (·.toNat ≤ ·.toNat) := by
  have hsorted : (chars.mergeSort (· ≤ ·)).Pairwise fun a b => decide (a ≤ b) = true :=
    List.pairwise_mergeSort
      (fun a b c hab hbc => by simpa using Char.le_trans (by simpa using hab) (by simpa using hbc))
      (fun a b => by simpa using Char.le_total a b) chars
  exact hsorted.imp fun hab => UInt32.le_iff_toNat_le.mp (by simpa [Char.le_def] using hab)

theorem tidy_runs (chars : List Char) : Tidy (runs chars) := (runs_of_pairwise (pairwise_sorted chars)).1

theorem covers_runs (chars : List Char) (n : Nat) :
    (∃ r ∈ runs chars, r.Covers n) ↔ ∃ c ∈ chars, c.toNat = n := by
  rw [runs, (runs_of_pairwise (pairwise_sorted chars)).2]
  simp

end Autoescape.Literal.CharClass
