import Autoescape.Plan.Build
import Autoescape.Proofs.Merging
import Mathlib.Data.List.Forall2

/-!
# How a plan comes about

One lemma for each step of a plan says all that the step can have done when it succeeded. From
these comes what every step keeps: resources only grow, so what a wiring was given stays there.
-/
namespace Autoescape

/-- Every table, matcher and filter is still at its place; tables may have more entries. -/
structure Resources.Grow (old new : Resources) : Prop where
  tables : Pool.Grows Table.Within old.tables new.tables
  matchers : Pool.Grows (· = ·) old.matchers new.matchers
  filters : Pool.Grows (· = ·) old.filters new.filters

namespace Resources.Grow

theorem refl (r : Resources) : r.Grow r :=
  ⟨.refl Table.Within.refl _, .refl (fun _ => rfl) _, .refl (fun _ => rfl) _⟩

theorem trans {a b c : Resources} (h : a.Grow b) (h' : b.Grow c) : a.Grow c :=
  ⟨h.tables.trans (fun _ _ _ => Table.Within.trans) h'.tables,
    h.matchers.trans (fun _ _ _ => Eq.trans) h'.matchers,
    h.filters.trans (fun _ _ _ => Eq.trans) h'.filters⟩

end Resources.Grow

namespace Plan

variable {available : String → Bool} {r r' : Resources} {d : Directive}

theorem addTable_eq_ok {table matcher : Option Nat} :
    addTable r d = .ok (r', table, matcher) ↔
      (d.table? = .ok none ∧ r' = r ∧ table = none ∧ matcher = none) ∨
      ∃ t, d.table? = .ok (some t) ∧ r' = (r.addTable d.owner t).1 ∧
        table = some (r.addTable d.owner t).2.1 ∧ matcher = some (r.addTable d.owner t).2.2 := by
  rw [addTable, Except.bind_eq_ok]
  constructor
  · rintro ⟨_ | t, ht, heq⟩
    · obtain ⟨rfl, rfl, rfl⟩ : r = r' ∧ none = table ∧ none = matcher := by
        simpa [Except.pure_eq_ok] using heq
      exact .inl ⟨ht, rfl, rfl, rfl⟩
    · obtain ⟨rfl, rfl, rfl⟩ : _ = r' ∧ _ = table ∧ _ = matcher := by
        simpa [Except.pure_eq_ok] using heq
      exact .inr ⟨t, ht, rfl, rfl, rfl⟩
  · rintro (⟨ht, rfl, rfl, rfl⟩ | ⟨t, ht, rfl, rfl, rfl⟩)
    · exact ⟨none, ht, rfl⟩
    · exact ⟨some t, ht, rfl⟩

theorem addFilter_eq_ok {filter : Option Nat} :
    addFilter r d = .ok (r', filter) ↔
      (d.filter = none ∧ r' = r ∧ filter = none) ∨
      ∃ pattern literal, d.filter = some pattern ∧ pattern.literal d.identifier = .ok literal ∧
        r' = { r with filters := (r.filters.share literal d.owner).1 } ∧
        filter = some (r.filters.share literal d.owner).2 := by
  unfold addFilter
  cases hfilter : d.filter with
  | none => simp [Except.pure_eq_ok, eq_comm]
  | some pattern =>
    cases hliteral : pattern.literal d.identifier with
    | error fault => simp [Resources.addFilter_of_error hliteral, hliteral]
    | ok literal =>
      simp [Resources.addFilter_of_ok hliteral, hliteral, Except.pure_eq_ok, eq_comm]

theorem wire_eq_ok {w : Wiring} :
    wire r d = .ok (r', w) ↔ ∃ mid, addTable r d = .ok (mid, w.table, w.matcher) ∧
      addFilter mid d = .ok (r', w.filter) ∧ d.nonAsciiLead = none ∧
      w.directive = d.identifier ∧ w.innocuous = d.innocuous := by
  rw [wire, Except.bind_eq_ok]
  constructor
  · rintro ⟨⟨mid, table, matcher⟩, htable, h⟩
    obtain ⟨⟨last, filter⟩, hfilter, h⟩ := Except.bind_eq_ok.mp h
    by_cases hlead : d.nonAsciiLead.isSome = true
    · simp [hlead] at h
    · obtain ⟨rfl, rfl⟩ : last = r' ∧ _ = w := by simpa [hlead, Except.pure_eq_ok] using h
      exact ⟨mid, htable, hfilter, by simpa using hlead, rfl, rfl⟩
  · rintro ⟨mid, htable, hfilter, hlead, hdirective, hinnocuous⟩
    obtain ⟨directive, table, matcher, filter, innocuous⟩ := w
    obtain rfl : directive = d.identifier := hdirective
    obtain rfl : innocuous = d.innocuous := hinnocuous
    refine ⟨_, htable, Except.bind_eq_ok.mpr ⟨_, hfilter, ?_⟩⟩
    simp [hlead, Except.pure_eq_ok]

/-- One directive adds the helper that hands on to the first available function, or a wiring. -/
theorem add_eq_ok {p p' : Plan} :
    add available p d = .ok p' ↔
      (∃ function, standIn? available d = some function ∧
        p' = ⟨p.resources, p.helpers ++ [.forwarding ⟨d.identifier, function⟩]⟩) ∨
      (standIn? available d = none ∧ ∃ resources w, wire p.resources d = .ok (resources, w) ∧
        p' = ⟨resources, p.helpers ++ [.wiring w]⟩) := by
  unfold add
  cases hstand : standIn? available d with
  | some function => simp [eq_comm]
  | none =>
    simp only [reduceCtorEq, false_and, exists_false, true_and, false_or]
    rw [Except.bind_eq_ok]
    simp [Except.pure_eq_ok, eq_comm]

theorem grow_addTable {table matcher : Option Nat} (h : addTable r d = .ok (r', table, matcher)) :
    r.Grow r' := by
  rcases addTable_eq_ok.mp h with ⟨-, rfl, -⟩ | ⟨t, -, rfl, -⟩
  · exact .refl _
  · exact ⟨r.grows_tables_addTable d.owner t, Pool.grows_share _ _ _, .refl (fun _ => rfl) _⟩

theorem grow_addFilter {filter : Option Nat} (h : addFilter r d = .ok (r', filter)) : r.Grow r' := by
  rcases addFilter_eq_ok.mp h with ⟨-, rfl, -⟩ | ⟨pattern, literal, -, -, rfl, -⟩
  · exact .refl _
  · exact ⟨.refl Table.Within.refl _, .refl (fun _ => rfl) _, Pool.grows_share _ _ _⟩

theorem grow_wire {w : Wiring} (h : wire r d = .ok (r', w)) : r.Grow r' := by
  obtain ⟨mid, htable, hfilter, -⟩ := wire_eq_ok.mp h
  exact (grow_addTable htable).trans (grow_addFilter hfilter)

theorem ofDirectives_induction {motive : List Directive → Plan → Prop} (nil : motive [] empty)
    (snoc : ∀ directives d p p', motive directives p → add available p d = .ok p' →
      motive (directives ++ [d]) p') {directives : List Directive} {p : Plan}
    (h : ofDirectives available directives = .ok p) : motive directives p :=
  Except.foldlM_induction nil snoc h

/-- What holds of a directive and its helper as soon as the helper is there, and does not mind
more resources, holds of every directive of a plan and its helper. -/
theorem forall₂_helpers (serves : Resources → Directive → Helper → Prop)
    (mono : ∀ {r r' : Resources} {d helper}, r.Grow r' → serves r d helper → serves r' d helper)
    (forwarding : ∀ r d function, standIn? available d = some function →
      serves r d (.forwarding ⟨d.identifier, function⟩))
    (wiring : ∀ r r' d w, standIn? available d = none → wire r d = .ok (r', w) →
      serves r' d (.wiring w))
    {directives : List Directive} {p : Plan} (h : ofDirectives available directives = .ok p) :
    List.Forall₂ (serves p.resources) directives p.helpers := by
  refine ofDirectives_induction (motive := fun directives p =>
    List.Forall₂ (serves p.resources) directives p.helpers) .nil ?_ h
  intro directives d p p' hserves hadd
  rcases add_eq_ok.mp hadd with ⟨function, hstand, rfl⟩ | ⟨hstand, resources, w, hwire, rfl⟩
  · exact List.rel_append hserves (.cons (forwarding _ _ _ hstand) .nil)
  · refine List.rel_append ?_ (.cons (wiring _ _ _ _ hstand hwire) .nil)
    exact hserves.imp fun _ _ => mono (grow_wire hwire)

end Plan
end Autoescape
