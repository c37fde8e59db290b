import Autoescape.Proofs.Provenance
import Mathlib.Data.List.Nodup

/-!
# The order of escapes

The escapes of a directive are a set of pairs. Whether there is a table, and which one, depends on
the pairs alone: no character may be outside the single units, and none may come twice. All that
follows sees the table only, so directives with their escapes in another order give the same block.
-/
namespace Autoescape

theorem Ascending.nodup {entries : List (Char × String)} (h : Ascending entries) : entries.Nodup := by
  refine List.Pairwise.imp (fun {e e'} hlt heq => ?_) h
  rw [heq] at hlt
  exact Char.lt_irrefl _ hlt

theorem Table.eq_of_get?_eq {t u : Table} (h : ∀ c text, t.get? c = some text ↔ u.get? c = some text) :
    t = u := by
  obtain ⟨entries, hentries⟩ := t
  obtain ⟨entries', hentries'⟩ := u
  have hmem : ∀ e, e ∈ entries ↔ e ∈ entries' := fun e =>
    calc
      _ ↔ find? e.1 entries = some e.2 := (find?_eq_some_iff hentries e.1 e.2).symm
      _ ↔ find? e.1 entries' = some e.2 := h e.1 e.2
      _ ↔ _ := find?_eq_some_iff hentries' e.1 e.2
  have hperm := (List.perm_ext_iff_of_nodup hentries.nodup hentries'.nodup).mpr hmem
  obtain rfl : entries = entries' :=
    hperm.eq_of_pairwise (fun _ _ _ _ hlt hgt => absurd hgt (Char.lt_asymm hlt)) hentries hentries'
  rfl

namespace Directive

/-- Escapes that a table can be made of: single units only, and each character once. -/
structure Tabular (escapes : List Escape) : Prop where
  units : ∀ e ∈ escapes, e.plain.toNat ≤ 0xFFFF
  once : (escapes.map (·.plain)).Nodup

theorem Tabular.perm {escapes escapes' : List Escape} (hperm : escapes.Perm escapes')
    (h : Tabular escapes) : Tabular escapes' where
  units e he := h.units e (hperm.mem_iff.mpr he)
  once := (hperm.map _).nodup_iff.mp h.once

/-- One more escape keeps the others fit for a table when its character is a new single unit. -/
theorem tabular_append_singleton {escapes : List Escape} {e : Escape} : Tabular (escapes ++ [e]) ↔
    Tabular escapes ∧ e.plain.toNat ≤ 0xFFFF ∧ e.plain ∉ escapes.map (·.plain) := by
  have honce : ((escapes ++ [e]).map (·.plain)).Nodup ↔
      (escapes.map (·.plain)).Nodup ∧ e.plain ∉ escapes.map (·.plain) := by
    rw [List.map_append, List.nodup_append_comm, List.map_singleton, List.singleton_append,
      List.nodup_cons, and_comm]
  constructor
  · rintro ⟨hunits, hdistinct⟩
    obtain ⟨hbefore, hunit⟩ := List.forall_mem_append.mp hunits
    obtain ⟨hdistinct, hnew⟩ := honce.mp hdistinct
    exact ⟨⟨hbefore, hdistinct⟩, hunit e (List.mem_singleton_self e), hnew⟩
  · rintro ⟨⟨hunits, hdistinct⟩, hunit, hnew⟩
    exact ⟨List.forall_mem_append.mpr ⟨hunits, by simpa using hunit⟩, honce.mpr ⟨hdistinct, hnew⟩⟩

theorem tabular_of_foldlM {ident : String} {escapes : List Escape} {t : Table}
    (h : escapes.foldlM (addEscape ident) Table.empty = .ok t) : Tabular escapes := by
  -- a character is free as long as no escape has it
  refine (Except.foldlM_induction (motive := fun escapes t =>
    (∀ c, t.get? c = none ↔ c ∉ escapes.map (·.plain)) ∧ Tabular escapes)
    ⟨by simp, by simp, by simp⟩ ?_ h).2
  rintro escapes e t u ⟨hfree, htabular⟩ hadd
  obtain ⟨hunit, hfresh, rfl⟩ := addEscape_eq_ok.mp hadd
  refine ⟨fun c => ?_, tabular_append_singleton.mpr ⟨htabular, hunit, (hfree _).mp hfresh⟩⟩
  by_cases hc : c = e.plain
  · simp [hc]
  · simpa [hc] using hfree c

theorem exists_foldlM_addEscape (ident : String) {escapes : List Escape} (h : Tabular escapes) {t : Table}
    (hfree : ∀ e ∈ escapes, t.get? e.plain = none) :
    ∃ u, escapes.foldlM (addEscape ident) t = .ok u := by
  induction escapes generalizing t with
  | nil => exact ⟨t, rfl⟩
  | cons e escapes ih =>
    obtain ⟨hunit, hunits⟩ := List.forall_mem_cons.mp h.units
    obtain ⟨hnot, honce⟩ := List.nodup_cons.mp h.once
    obtain ⟨hfirst, hrest⟩ := List.forall_mem_cons.mp hfree
    have hadd : addEscape ident t e = .ok (t.insert e.plain e.escaped) :=
      addEscape_eq_ok.mpr ⟨hunit, hfirst, rfl⟩
    have hfree' : ∀ e' ∈ escapes, (t.insert e.plain e.escaped).get? e'.plain = none := by
      intro e' he'
      have hne : e'.plain ≠ e.plain := fun heq => hnot (List.mem_map.mpr ⟨e', he', heq⟩)
      rw [Table.get?_insert, if_neg hne]
      exact hrest e' he'
    obtain ⟨u, hu⟩ := ih ⟨hunits, honce⟩ hfree'
    exact ⟨u, by rw [List.foldlM_cons, hadd]; exact hu⟩

/-- Which table a directive has, told by its escapes as a set. -/
theorem table?_eq_ok_iff {d : Directive} {found : Option Table} :
    d.table? = .ok found ↔ (d.escapes = [] ∧ found = none) ∨
      ∃ t, found = some t ∧ d.escapes ≠ [] ∧ Tabular d.escapes ∧
        ∀ c text, t.get? c = some text ↔ ⟨c, text⟩ ∈ d.escapes := by
  unfold table?
  by_cases hempty : d.escapes = []
  · simp [hempty, eq_comm]
  · rw [if_neg (by simpa using hempty), Except.map_eq_ok]
    simp only [hempty, false_and, false_or, ne_eq, not_false_eq_true, true_and]
    constructor
    · rintro ⟨t, ht, rfl⟩
      exact ⟨t, rfl, tabular_of_foldlM ht, (foldlM_addEscape ht).1⟩
    · rintro ⟨t, rfl, htabular, hget⟩
      obtain ⟨u, hu⟩ := exists_foldlM_addEscape d.identifier htabular (t := Table.empty) (by simp)
      obtain rfl : u = t := Table.eq_of_get?_eq fun c text =>
        ((foldlM_addEscape hu).1 c text).trans (hget c text).symm
      exact ⟨u, hu, rfl⟩

structure Rearranged (d d' : Directive) : Prop where
  escapes : d.escapes.Perm d'.escapes
  others : d' = { d with escapes := d'.escapes }

namespace Rearranged

variable {d d' : Directive} (h : Rearranged d d')

include h

theorem identifier : d'.identifier = d.identifier := by
  rw [h.others]
  rfl

theorem owner : d'.owner = d.owner := by
  rw [h.others]
  rfl

theorem table?_eq_ok {found : Option Table} : d'.table? = .ok found ↔ d.table? = .ok found := by
  have hempty : d'.escapes = [] ↔ d.escapes = [] := by
    rw [← List.length_eq_zero_iff, ← h.escapes.length_eq, List.length_eq_zero_iff]
  have htabular : Tabular d'.escapes ↔ Tabular d.escapes := ⟨.perm h.escapes.symm, .perm h.escapes⟩
  have hmem (c : Char) (text : String) : ⟨c, text⟩ ∈ d'.escapes ↔ ⟨c, text⟩ ∈ d.escapes :=
    h.escapes.mem_iff.symm
  simp only [table?_eq_ok_iff, hempty, ne_eq, htabular, hmem]

end Rearranged
end Directive

namespace Plan

variable {available : String → Bool} {r r' : Resources} {d d' : Directive} {p q : Plan}
  {directives directives' : List Directive}

theorem addTable_rearranged (h : d.Rearranged d') {table matcher : Option Nat} :
    addTable r d' = .ok (r', table, matcher) ↔ addTable r d = .ok (r', table, matcher) := by
  simp only [addTable_eq_ok, h.table?_eq_ok, h.owner]

theorem addFilter_rearranged (h : d.Rearranged d') : addFilter r d' = addFilter r d := by
  have hfilter : d'.filter = d.filter := by rw [h.others]
  rw [addFilter, addFilter, hfilter, h.identifier, h.owner]

theorem wire_rearranged (h : d.Rearranged d') {w : Wiring} :
    wire r d' = .ok (r', w) ↔ wire r d = .ok (r', w) := by
  have hlead : d'.nonAsciiLead = d.nonAsciiLead := by rw [h.others]
  have hinnocuous : d'.innocuous = d.innocuous := by rw [h.others]
  simp only [wire_eq_ok, addTable_rearranged h, addFilter_rearranged h, hlead, hinnocuous, h.identifier]

theorem add_rearranged (h : d.Rearranged d') :
    add available p d' = .ok q ↔ add available p d = .ok q := by
  have hstand : standIn? available d' = standIn? available d := by rw [h.others]; rfl
  simp only [add_eq_ok, hstand, wire_rearranged h, h.identifier]

/-- Whatever the plan before them, rearranged directives lead to the same plan. -/
theorem foldlM_add_rearranged (h : List.Forall₂ Directive.Rearranged directives directives') :
    directives'.foldlM (add available) p = .ok q ↔ directives.foldlM (add available) p = .ok q := by
  induction h generalizing p with
  | nil => rfl
  | cons hfirst _ ih =>
    rw [List.foldlM_cons, List.foldlM_cons, Except.bind_eq_ok, Except.bind_eq_ok]
    simp only [add_rearranged hfirst, ih]

end Plan

namespace Generation

variable {available : String → Bool} {directives directives' : List Directive}

theorem generate_eq_ok_rearranged (h : List.Forall₂ Directive.Rearranged directives directives')
    {block : String} : generate available directives' = .ok block ↔ generate available directives = .ok block := by
  simp only [generate_eq_ok, Plan.ofDirectives, Plan.foldlM_add_rearranged h]

/-- The order of the escapes of a directive does not matter: with the escapes of any directives in
another order, both registries are refused, or both give the same block. -/
theorem generate_rearranged (h : List.Forall₂ Directive.Rearranged directives directives') :
    (∃ fault fault', generate available directives = .error fault ∧
      generate available directives' = .error fault') ∨
      ∃ block, generate available directives = .ok block ∧ generate available directives' = .ok block := by
  have hsame (block : String) :
      generate available directives' = .ok block ↔ generate available directives = .ok block :=
    generate_eq_ok_rearranged h
  rcases hleft : generate available directives with fault | block
  · rcases hright : generate available directives' with fault' | block
    · exact .inl ⟨fault, fault', rfl, rfl⟩
    · rw [(hsame block).mp hright] at hleft
      cases hleft
  · exact .inr ⟨block, rfl, (hsame block).mpr hleft⟩

/-- Two directives that share a table, each with its escapes turned round. -/
theorem generate_rearranged_for_shared :
    let html := [Escape.mk '<' "&lt;", ⟨'&', "&amp;"⟩, ⟨'>', "&gt;"⟩]
    let angles := [Escape.mk '<' "&lt;", ⟨'>', "&gt;"⟩]
    let registry (html angles : List Escape) := [{ Directive.ofName "escapeHtml" with escapes := html },
      { Directive.ofName "escapeAngles" with escapes := angles }]
    List.Forall₂ Directive.Rearranged (registry html angles) (registry html.reverse angles.reverse) ∧
      (∃ p, Plan.ofDirectives (fun _ => false) (registry html angles) = .ok p ∧
        p.resources.tables.length = 1) ∧
      ((∃ fault fault', generate (fun _ => false) (registry html angles) = .error fault ∧
        generate (fun _ => false) (registry html.reverse angles.reverse) = .error fault') ∨
        ∃ block, generate (fun _ => false) (registry html angles) = .ok block ∧
          generate (fun _ => false) (registry html.reverse angles.reverse) = .ok block) := by
  intro html angles registry
  have hrearranged : List.Forall₂ Directive.Rearranged (registry html angles)
      (registry html.reverse angles.reverse) :=
    .cons ⟨html.reverse_perm.symm, rfl⟩ (.cons ⟨angles.reverse_perm.symm, rfl⟩ .nil)
  exact ⟨hrearranged, ⟨_, rfl, rfl⟩, generate_rearranged hrearranged⟩

end Generation
end Autoescape
