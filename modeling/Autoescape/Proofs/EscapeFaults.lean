import Autoescape.Proofs.EscapeOrder

/-!
# Which escape is at fault

Escapes make a table when their characters are single units and each comes once. Otherwise the first
escape is reported that is outside the single units or has the character of an earlier one. Where both
hold of it, the former counts.
-/
namespace Autoescape.Directive

variable {ident : String} {escapes earlier : List Escape} {e : Escape} {t : Table} {fault : Fault}

/-- Why an escape cannot come after others. A character outside the single units is refused wherever it
stands, and any other one where it stands again, whatever its text. -/
inductive Rejected (ident : String) (earlier : List Escape) (e : Escape) : Fault → Prop where
  | astral (h : 0xFFFF < e.plain.toNat) : Rejected ident earlier e (.astral ident e.plain)
  | ambiguous (hunit : e.plain.toNat ≤ 0xFFFF) (htwice : e.plain ∈ earlier.map (·.plain)) :
      Rejected ident earlier e (.ambiguous ident e.plain e.escaped)

theorem forall_not_rejected_iff (ident : String) : (∀ fault, ¬Rejected ident earlier e fault) ↔
    e.plain.toNat ≤ 0xFFFF ∧ e.plain ∉ earlier.map (·.plain) := by
  constructor
  · intro hnone
    have hunit : e.plain.toNat ≤ 0xFFFF := Nat.le_of_not_lt fun h => hnone _ (.astral h)
    exact ⟨hunit, fun h => hnone _ (.ambiguous hunit h)⟩
  · rintro ⟨hunit, hnew⟩ fault hrejected
    cases hrejected with
    | astral h => exact Nat.not_lt.mpr hunit h
    | ambiguous _ htwice => exact hnew htwice

theorem tabular_iff_forall_not_rejected (ident : String) : Tabular escapes ↔
    ∀ before e after, escapes = before ++ e :: after → ∀ fault, ¬Rejected ident before e fault := by
  induction escapes using List.reverseRecOn with
  | nil => exact iff_of_true ⟨by simp, by simp⟩ (by simp)
  | append_singleton escapes last ih =>
    rw [tabular_append_singleton, ← forall_not_rejected_iff ident, ih]
    constructor
    · rintro ⟨hbefore, hlast⟩ before e after hsplit
      -- the last escape comes after all the others, and any other one after the same as before
      rcases List.eq_nil_or_concat' after with rfl | ⟨after, e', rfl⟩
      · obtain ⟨rfl, ⟨⟩⟩ := List.append_inj' hsplit rfl
        exact hlast
      · rw [← List.cons_append, ← List.append_assoc] at hsplit
        exact hbefore before e after (List.append_inj' hsplit rfl).1
    · intro hall
      refine ⟨fun before e after hsplit => hall before e (after ++ [last]) ?_, hall escapes last [] rfl⟩
      rw [hsplit, List.append_assoc, List.cons_append]

theorem isSome_get?_iff (hget : ∀ c text, t.get? c = some text ↔ ⟨c, text⟩ ∈ escapes) (c : Char) :
    (t.get? c).isSome ↔ c ∈ escapes.map (·.plain) := by
  simp only [Option.isSome_iff_exists, hget, List.mem_map]
  constructor
  · rintro ⟨text, h⟩
    exact ⟨_, h, rfl⟩
  · rintro ⟨⟨_, text⟩, h, rfl⟩
    exact ⟨text, h⟩

/-- An escape is refused by the table of those before it as it is by them. -/
theorem addEscape_eq_error (hget : ∀ c text, t.get? c = some text ↔ ⟨c, text⟩ ∈ earlier) :
    addEscape ident t e = .error fault ↔ Rejected ident earlier e fault := by
  have htwice := isSome_get?_iff hget e.plain
  unfold addEscape
  constructor
  · intro h
    split at h
    · next hastral =>
      cases h
      exact .astral hastral
    · next hunit =>
      split at h
      · next hthere =>
        cases h
        exact .ambiguous (Nat.le_of_not_lt hunit) (htwice.mp hthere)
      · cases h
  · intro h
    cases h with
    | astral h => rw [if_pos h]
    | ambiguous hunit h => rw [if_neg (Nat.not_lt.mpr hunit), if_pos (htwice.mpr h)]

theorem foldlM_addEscape_eq_error : escapes.foldlM (addEscape ident) Table.empty = .error fault ↔
    ∃ before e after, escapes = before ++ e :: after ∧ Tabular before ∧ Rejected ident before e fault := by
  rw [Except.foldlM_eq_error]
  constructor
  · rintro ⟨before, e, after, t, hsplit, hbefore, he⟩
    exact ⟨before, e, after, hsplit, tabular_of_foldlM hbefore,
      (addEscape_eq_error (foldlM_addEscape hbefore).1).mp he⟩
  · rintro ⟨before, e, after, hsplit, hbefore, he⟩
    obtain ⟨t, ht⟩ := exists_foldlM_addEscape ident hbefore (t := Table.empty) (by simp)
    exact ⟨before, e, after, t, hsplit, ht, (addEscape_eq_error (foldlM_addEscape ht).1).mpr he⟩

theorem table?_eq_error {d : Directive} : d.table? = .error fault ↔
    ∃ before e after, d.escapes = before ++ e :: after ∧ Tabular before ∧
      Rejected d.identifier before e fault := by
  rw [← foldlM_addEscape_eq_error]
  unfold table?
  by_cases hempty : d.escapes = []
  · simp [hempty, Except.pure_eq_ok]
  · rw [if_neg (by simpa using hempty)]
    cases d.escapes.foldlM (addEscape d.identifier) Table.empty <;> simp

theorem entries_perm (h : Tabular escapes)
    (hget : ∀ c text, t.get? c = some text ↔ ⟨c, text⟩ ∈ escapes) :
    t.entries.Perm (escapes.map fun e => (e.plain, e.escaped)) := by
  have honce : (escapes.map fun e => (e.plain, e.escaped)).Nodup := by
    refine List.Nodup.of_map Prod.fst ?_
    rw [List.map_map]
    exact h.once
  refine (List.perm_ext_iff_of_nodup t.ascending.nodup honce).mpr fun ⟨c, text⟩ => ?_
  rw [← Table.get?_eq_some_iff, hget, List.mem_map]
  constructor
  · exact fun hmem => ⟨_, hmem, rfl⟩
  · rintro ⟨e, hmem, ⟨⟩⟩
    exact hmem

theorem exists_table?_iff {d : Directive} :
    (∃ t, d.table? = .ok (some t)) ↔ d.escapes ≠ [] ∧ Tabular d.escapes := by
  constructor
  · rintro ⟨t, ht⟩
    obtain ⟨-, ⟨⟩⟩ | ⟨_, -, hsome, htabular, -⟩ := table?_eq_ok_iff.mp ht
    exact ⟨hsome, htabular⟩
  · rintro ⟨hsome, htabular⟩
    obtain ⟨t, ht⟩ := exists_foldlM_addEscape d.identifier htabular (t := Table.empty) (by simp)
    exact ⟨t, table?_eq_ok_iff.mpr (.inr ⟨t, rfl, hsome, htabular, (foldlM_addEscape ht).1⟩)⟩

/-- The table of a directive, in every case. There is none to make exactly where nothing is escaped.
Otherwise there is one exactly when all characters are single units and no character comes twice, and
it holds the pairs of the escapes and no others. In all other cases the fault is that of the first
escape that cannot come after those before it. -/
theorem table_exact (d : Directive) :
    (d.table? = .ok none ↔ d.escapes = []) ∧
    ((∃ t, d.table? = .ok (some t)) ↔ d.escapes ≠ [] ∧
      (∀ e ∈ d.escapes, e.plain.toNat ≤ 0xFFFF) ∧ (d.escapes.map (·.plain)).Nodup) ∧
    (∀ t, d.table? = .ok (some t) →
      (∀ c text, t.get? c = some text ↔ ⟨c, text⟩ ∈ d.escapes) ∧
        t.entries.Perm (d.escapes.map fun e => (e.plain, e.escaped))) ∧
    ∀ fault, d.table? = .error fault ↔ ∃ before e after, d.escapes = before ++ e :: after ∧
      (∀ earlier e' later, before = earlier ++ e' :: later →
        ∀ fault', ¬Rejected d.identifier earlier e' fault') ∧
      Rejected d.identifier before e fault := by
  have htabular : Tabular d.escapes ↔
      (∀ e ∈ d.escapes, e.plain.toNat ≤ 0xFFFF) ∧ (d.escapes.map (·.plain)).Nodup :=
    ⟨fun h => ⟨h.units, h.once⟩, fun h => ⟨h.1, h.2⟩⟩
  refine ⟨?_, by rw [exists_table?_iff, htabular], fun t ht => ?_, fun fault => ?_⟩
  · rw [table?_eq_ok_iff]
    simp
  · obtain ⟨-, ⟨⟩⟩ | ⟨_, ⟨⟩, -, htabular, hget⟩ := table?_eq_ok_iff.mp ht
    exact ⟨hget, entries_perm htabular hget⟩
  · simp only [table?_eq_error, tabular_iff_forall_not_rejected d.identifier]

/-- Two escapes out of order, and the same with one of them again before one outside the single units. -/
theorem table_exact_for_swapped_and_repeated :
    let swapped := (ofName "escapeHtml").escape '<' "&lt;" |>.escape '&' "&amp;"
    let repeated := swapped.escape '<' "&lt;" |>.escape (Char.ofNat 0x1F600) ":-)"
    (∃ t, swapped.table? = .ok (some t) ∧
      (∀ c text, t.get? c = some text ↔ ⟨c, text⟩ ∈ swapped.escapes) ∧
      t.entries.Perm [('<', "&lt;"), ('&', "&amp;")]) ∧
    repeated.table? = .error (.ambiguous "escapeHtml" '<' "&lt;") := by
  intro swapped repeated
  obtain ⟨-, hexists, hheld, -⟩ := table_exact swapped
  obtain ⟨-, -, -, hfault⟩ := table_exact repeated
  obtain ⟨t, ht⟩ := hexists.mpr ⟨by decide, by decide, by decide⟩
  have hfirst : Tabular swapped.escapes := ⟨by decide, by decide⟩
  refine ⟨⟨t, ht, hheld t ht⟩, (hfault _).mpr ⟨swapped.escapes, ⟨'<', "&lt;"⟩, _, rfl, ?_, ?_⟩⟩
  · exact (tabular_iff_forall_not_rejected repeated.identifier).mp hfirst
  · have hname : repeated.identifier = "escapeHtml" := by decide
    rw [hname]
    exact .ambiguous (by decide) (by decide)

end Autoescape.Directive
