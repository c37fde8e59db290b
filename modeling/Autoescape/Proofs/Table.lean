import Autoescape.Proofs.Except
import Autoescape.Table.Build

/-!
# Tables as partial functions

A table is what `get?` gives. Two tables are compatible when some character is in both and no
character has two texts; that is what `agrees` decides. The table of a directive holds exactly
the escapes of the directive.
-/
namespace Autoescape.Table

/-- Every character of one table has the same text in the other. -/
def Within (t u : Table) : Prop := ∀ c text, t.get? c = some text → u.get? c = some text

theorem Within.refl (t : Table) : t.Within t := fun _ _ h => h

theorem Within.trans {t u v : Table} (h : t.Within u) (h' : u.Within v) : t.Within v :=
  fun c text hc => h' c text (h c text hc)

/-- Some character is in both tables, and no character has a different text in each. -/
def Compatible (t u : Table) : Prop :=
  (∃ c, (t.get? c).isSome ∧ (u.get? c).isSome) ∧
    ∀ c x y, t.get? c = some x → u.get? c = some y → x = y

theorem Compatible.symm {t u : Table} (h : t.Compatible u) : u.Compatible t := by
  obtain ⟨⟨c, ht, hu⟩, hagree⟩ := h
  exact ⟨⟨c, hu, ht⟩, fun c x y hx hy => (hagree c y x hy hx).symm⟩

theorem find?_eq_some_iff {entries : List (Char × String)} (h : Ascending entries) (c : Char)
    (text : String) : find? c entries = some text ↔ (c, text) ∈ entries := by
  induction entries with
  | nil => simp [find?]
  | cons e rest ih =>
    obtain ⟨d, y⟩ := e
    obtain ⟨he, hrest⟩ := List.pairwise_cons.mp h
    rw [find?, List.mem_cons]
    by_cases hc : c = d
    · subst hc
      have hnot : (c, text) ∉ rest := fun hmem => Char.lt_irrefl _ (he (c, text) hmem)
      simpa [hnot] using eq_comm
    · simp [hc, ih hrest]

theorem get?_eq_some_iff (t : Table) (c : Char) (text : String) :
    t.get? c = some text ↔ (c, text) ∈ t.entries :=
  find?_eq_some_iff t.ascending c text

theorem mem_keys_iff (t : Table) (c : Char) : c ∈ t.keys ↔ ∃ text, t.get? c = some text := by
  simp [keys, get?_eq_some_iff]

theorem agreesFrom_iff (u : Table) (overlap : Bool) (entries : List (Char × String)) :
    u.agreesFrom overlap entries = true ↔
      (overlap = true ∨ ∃ e ∈ entries, (u.get? e.1).isSome) ∧
        ∀ e ∈ entries, ∀ text, u.get? e.1 = some text → text = e.2 := by
  induction entries generalizing overlap with
  | nil => simp [agreesFrom]
  | cons e rest ih =>
    rw [agreesFrom]
    cases hu : u.get? e.1 with
    | none => simp [hu, ih]
    | some text =>
      by_cases htext : text = e.2
      · simp [hu, ih, htext]
      · simp [hu, htext]

theorem agreesFrom_entries (t u : Table) : u.agreesFrom false t.entries = true ↔ t.Compatible u := by
  rw [agreesFrom_iff]
  -- a shared character, and then no character with two texts
  refine and_congr ⟨?_, ?_⟩ ⟨?_, ?_⟩
  · rintro (hfalse | ⟨⟨c, text⟩, he, hu⟩)
    · cases hfalse
    · exact ⟨c, by simp [(t.get?_eq_some_iff c text).mpr he], hu⟩
  · rintro ⟨c, ht, hu⟩
    obtain ⟨text, ht⟩ := Option.isSome_iff_exists.mp ht
    exact .inr ⟨(c, text), (t.get?_eq_some_iff c text).mp ht, hu⟩
  · intro hall c x y hx hy
    exact (hall (c, x) ((t.get?_eq_some_iff c x).mp hx) y hy).symm
  · rintro hagree ⟨c, x⟩ he y hy
    exact (hagree c x y ((t.get?_eq_some_iff c x).mpr he) hy).symm

/-- Whichever table is the smaller one, the test decides compatibility. -/
theorem agrees_iff (t u : Table) : t.agrees u = true ↔ t.Compatible u := by
  unfold agrees
  split
  · exact agreesFrom_entries t u
  · rw [agreesFrom_entries]
    exact ⟨Compatible.symm, Compatible.symm⟩

theorem within_merge {t u : Table} (h : u.Compatible t) : u.Within (u.merge t) := by
  intro c text hc
  rw [get?_merge]
  cases ht : t.get? c with
  | none => simpa using hc
  | some x => simp [h.2 c text x hc ht]

theorem within_merge_right (t u : Table) : t.Within (u.merge t) := by
  intro c text hc
  simp [hc]

end Autoescape.Table

namespace Autoescape.Directive

/-- One escape is taken when its character is a single unit that has no text yet. -/
theorem addEscape_eq_ok {ident : String} {t u : Table} {e : Escape} :
    addEscape ident t e = .ok u ↔
      e.plain.toNat ≤ 0xFFFF ∧ t.get? e.plain = none ∧ u = t.insert e.plain e.escaped := by
  unfold addEscape
  split
  · next hastral => simp; omega
  · next hplain =>
    split
    · next htwice =>
      have hne : t.get? e.plain ≠ none := Option.isSome_iff_ne_none.mp htwice
      simp [hne]
    · next hfresh =>
      have hnone : t.get? e.plain = none := by simpa using hfresh
      simp only [Except.ok.injEq, hnone, true_and]
      exact ⟨fun h => ⟨by omega, h.symm⟩, fun h => h.2.symm⟩

theorem foldlM_addEscape {ident : String} {escapes : List Escape} {t : Table}
    (h : escapes.foldlM (addEscape ident) Table.empty = .ok t) :
    (∀ c text, t.get? c = some text ↔ ⟨c, text⟩ ∈ escapes) ∧
      ∀ e ∈ escapes, e.plain.toNat ≤ 0xFFFF := by
  refine Except.foldlM_induction (motive := fun escapes t =>
    (∀ c text, t.get? c = some text ↔ (⟨c, text⟩ : Escape) ∈ escapes) ∧
      ∀ e ∈ escapes, e.plain.toNat ≤ 0xFFFF) ⟨by simp, by simp⟩ ?_ h
  rintro escapes ⟨plain, escaped⟩ t u ⟨hget, hunit⟩ hadd
  obtain ⟨hplain, hfresh, rfl⟩ := addEscape_eq_ok.mp hadd
  refine ⟨fun c text => ?_, ?_⟩
  · rw [Table.get?_insert, List.mem_append, List.mem_singleton, ← hget, Escape.mk.injEq]
    by_cases hc : c = plain
    · subst hc
      simpa [hfresh] using eq_comm
    · simp [hc]
  · simpa [or_imp, forall_and] using ⟨hunit, hplain⟩

theorem table?_eq_ok {d : Directive} {found : Option Table} (h : d.table? = .ok found) :
    (d.escapes = [] ∧ found = none) ∨
      ∃ t, found = some t ∧ d.escapes ≠ [] ∧
        (∀ c text, t.get? c = some text ↔ ⟨c, text⟩ ∈ d.escapes) ∧
        ∀ e ∈ d.escapes, e.plain.toNat ≤ 0xFFFF := by
  unfold table? at h
  split at h
  · next hnone =>
    exact .inl ⟨List.isEmpty_iff.mp hnone, by simpa using h.symm⟩
  · next hsome =>
    obtain ⟨t, ht, rfl⟩ := Except.map_eq_ok.mp h
    exact .inr ⟨t, rfl, by simpa using hsome, foldlM_addEscape ht⟩

end Autoescape.Directive
