import Autoescape.Proofs.CharClass.Reader
import Autoescape.Text.Units

/-!
# The one written form of a set of characters

The class of a matcher consists of spans in order that neither overlap nor touch, so it is
determined by the units that it accepts: `Tidy.eq_of_covers`. Two collections of characters have
the same matcher exactly when they hold the same characters, in whatever order and however often.
-/
namespace Autoescape.Literal.CharClass
open Text

attribute [ext] Run

section Covers

variable {r s : Run} {runs others : List Run} {n : Nat}

theorem Tidy.first_le (h : Tidy (r :: runs)) (hn : ∃ t ∈ r :: runs, t.Covers n) : r.first.toNat ≤ n := by
  obtain ⟨hr, hbefore, -⟩ := (tidy_cons_iff r runs).mp h
  obtain ⟨t, ht, hfirst, -⟩ := hn
  rcases List.mem_cons.mp ht with rfl | ht
  · exact hfirst
  · have hlt := hbefore t ht
    omega

/-- A number that the first of tidy runs covers is covered by no other, and the number behind its
last one by none at all. -/
theorem Tidy.not_covers_tail (h : Tidy (r :: runs)) (hn : n ≤ r.last.toNat + 1) : ¬∃ t ∈ runs, t.Covers n := by
  obtain ⟨-, hbefore, -⟩ := (tidy_cons_iff r runs).mp h
  rintro ⟨t, ht, hfirst, -⟩
  have hlt := hbefore t ht
  omega

theorem Tidy.first_le_first (h : Tidy (r :: runs)) (h' : Tidy (s :: others))
    (hcovers : ∀ n, (∃ t ∈ r :: runs, t.Covers n) ↔ ∃ t ∈ s :: others, t.Covers n) :
    r.first.toNat ≤ s.first.toNat := by
  have hs : s.Covers s.first.toNat := ⟨Nat.le_refl _, h'.first_le_last s List.mem_cons_self⟩
  apply h.first_le
  exact (hcovers _).mpr ⟨s, List.mem_cons_self, hs⟩

/-- A first run cannot go on where another one that begins at the same number has ended. -/
theorem Tidy.last_le_last (h' : Tidy (s :: others))
    (hcovers : ∀ n, (∃ t ∈ r :: runs, t.Covers n) ↔ ∃ t ∈ s :: others, t.Covers n)
    (hfirst : r.first.toNat = s.first.toNat) : r.last.toNat ≤ s.last.toNat := by
  by_contra hlt
  have hs := h'.first_le_last s List.mem_cons_self
  have hr : r.Covers (s.last.toNat + 1) := by
    constructor <;> omega
  obtain ⟨t, ht, hbegins, hends⟩ := (hcovers _).mp ⟨r, List.mem_cons_self, hr⟩
  rcases List.mem_cons.mp ht with rfl | ht
  · omega
  · exact h'.not_covers_tail (Nat.le_refl _) ⟨t, ht, hbegins, hends⟩

theorem Tidy.eq_of_covers (h : Tidy runs) (h' : Tidy others)
    (hcovers : ∀ n, (∃ t ∈ runs, t.Covers n) ↔ ∃ t ∈ others, t.Covers n) : runs = others := by
  induction runs generalizing others with
  | nil =>
    cases others with
    | nil => rfl
    | cons s others =>
      have hs : s.Covers s.first.toNat := ⟨Nat.le_refl _, h'.first_le_last s List.mem_cons_self⟩
      obtain ⟨t, ht, -⟩ := (hcovers _).mpr ⟨s, List.mem_cons_self, hs⟩
      exact absurd ht List.not_mem_nil
  | cons r runs ih =>
    cases others with
    | nil =>
      have hr : r.Covers r.first.toNat := ⟨Nat.le_refl _, h.first_le_last r List.mem_cons_self⟩
      obtain ⟨t, ht, -⟩ := (hcovers _).mp ⟨r, List.mem_cons_self, hr⟩
      exact absurd ht List.not_mem_nil
    | cons s others =>
      have hsymm := fun n => (hcovers n).symm
      have hfirst : r.first.toNat = s.first.toNat :=
        Nat.le_antisymm (h.first_le_first h' hcovers) (h'.first_le_first h hsymm)
      have hlast : r.last.toNat = s.last.toNat :=
        Nat.le_antisymm (h'.last_le_last hcovers hfirst) (h.last_le_last hsymm hfirst.symm)
      obtain rfl : r = s := Run.ext (Char.toNat_inj.mp hfirst) (Char.toNat_inj.mp hlast)
      -- what the common first run covers is covered by neither rest
      have hrest (n : Nat) : (∃ t ∈ runs, t.Covers n) ↔ ∃ t ∈ others, t.Covers n := by
        by_cases hn : r.Covers n
        · have hle : n ≤ r.last.toNat + 1 := Nat.le_succ_of_le hn.2
          exact iff_of_false (h.not_covers_tail hle) (h'.not_covers_tail hle)
        · simpa [hn] using hcovers n
      rw [ih ((tidy_cons_iff r runs).mp h).2.2 ((tidy_cons_iff r others).mp h').2.2 hrest]

end Covers

theorem runs_eq_of_mem_iff {chars others : List Char} (h : ∀ c, c ∈ chars ↔ c ∈ others) :
    runs chars = runs others := by
  apply (tidy_runs chars).eq_of_covers (tidy_runs others)
  intro n
  rw [covers_runs, covers_runs]
  simp only [h]

/-- A class that is written as plainly as it can be: each span ends where it does not begin later,
and between two spans, which stand in order, at least one unit is left out. -/
structure Class.Canonical (k : Class) : Prop where
  not_negated : k.negated = false
  first_le_last : ∀ s ∈ k.spans, s.first ≤ s.last
  apart : k.spans.Pairwise fun s t => s.last + 1 < t.first

theorem Tidy.canonical {runs : List Run} (h : Tidy runs) : Class.Canonical ⟨false, runs.map Run.span⟩ := by
  refine ⟨rfl, ?_, ?_⟩
  · intro s hs
    obtain ⟨r, hr, rfl⟩ := List.mem_map.mp hs
    exact h.first_le_last r hr
  · exact List.pairwise_map.mpr h.apart

/-- No character is a surrogate, so the units that stand for single characters are none either. -/
theorem not_surrogate_of_toNat_eq {c : Char} {u : UInt16} (h : c.toNat = u.toNat) :
    (Units.isHigh u || Units.isLow u) = false := by
  have hc := Units.toNat_bounds c
  simp only [Units.isHigh, Units.isLow, ← h, Bool.or_eq_false_iff, Bool.and_eq_false_iff,
    decide_eq_false_iff_not]
  omega

theorem mem_of_matcher_eq {chars others : List Char} (h : ∀ c ∈ chars, c.toNat ≤ 0xFFFF)
    (hothers : ∀ c ∈ others, c.toNat ≤ 0xFFFF) (heq : matcher chars = matcher others) {c : Char}
    (hc : c ∈ chars) : c ∈ others := by
  obtain ⟨k, hread, haccepts⟩ := accepts_matcher h
  obtain ⟨k', hread', haccepts'⟩ := accepts_matcher hothers
  obtain rfl : k = k' := by
    rw [heq, hread'] at hread
    exact (Option.some.inj hread).symm
  have hunit : c.toNat = c.toNat.toUInt16.toNat := by
    have hle := h c hc
    simp
    omega
  have haccepted := (haccepts _).mpr ⟨c, hc, hunit⟩
  obtain ⟨d, hd, hdc⟩ := (haccepts' _).mp haccepted
  rwa [Char.toNat_inj.mp (hdc.trans hunit.symm)] at hd

/-- The matcher of characters up to U+FFFF is a canonical class that accepts exactly their units, no
surrogate among them. It tells which characters they are, and nothing else of the list. -/
theorem matcher_canonical {chars : List Char} (h : ∀ c ∈ chars, c.toNat ≤ 0xFFFF) :
    (∃ k, read? (matcher chars) = some k ∧ k.Canonical ∧
      (∀ u : UInt16, k.accepts u = true ↔ ∃ c ∈ chars, c.toNat = u.toNat) ∧
      ∀ u : UInt16, (Units.isHigh u || Units.isLow u) = true → k.accepts u = false) ∧
    ∀ others : List Char, (∀ c ∈ others, c.toNat ≤ 0xFFFF) →
      (matcher chars = matcher others ↔ ∀ c, c ∈ chars ↔ c ∈ others) := by
  obtain ⟨k, hread, haccepts⟩ := accepts_matcher h
  have hclass : k = ⟨false, (runs chars).map Run.span⟩ :=
    Option.some.inj (hread.symm.trans (read?_matcher h))
  refine ⟨⟨k, hread, hclass ▸ (tidy_runs chars).canonical, haccepts, ?_⟩, ?_⟩
  · intro u hu
    by_contra haccepted
    obtain ⟨c, -, heq⟩ := (haccepts u).mp (by simpa using haccepted)
    rw [not_surrogate_of_toNat_eq heq] at hu
    cases hu
  · intro others hothers
    constructor
    · intro heq c
      exact ⟨mem_of_matcher_eq h hothers heq, mem_of_matcher_eq hothers h heq.symm⟩
    · intro hmem
      rw [matcher, matcher, runs_eq_of_mem_iff hmem]

/-- The characters on both sides of the surrogates, and members that have to be escaped, out of order
and repeated. -/
theorem matcher_canonical_around_surrogates :
    let chars := ['\uE000', 'b', '-', '\uD7FF', ']', 'a', '^', 'b', '\\']
    (∀ c ∈ chars, c.toNat ≤ 0xFFFF) ∧
    (∃ k, read? (matcher chars) = some k ∧ k.Canonical ∧
      (∀ u : UInt16, k.accepts u = true ↔ ∃ c ∈ chars, c.toNat = u.toNat) ∧
      ∀ u : UInt16, (Units.isHigh u || Units.isLow u) = true → k.accepts u = false) ∧
    ∀ others : List Char, (∀ c ∈ others, c.toNat ≤ 0xFFFF) →
      (matcher chars = matcher others ↔ ∀ c, c ∈ chars ↔ c ∈ others) := by
  intro chars
  have hsingle : ∀ c ∈ chars, c.toNat ≤ 0xFFFF := by simp [chars]
  exact ⟨hsingle, matcher_canonical hsingle⟩

end Autoescape.Literal.CharClass
