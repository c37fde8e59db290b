import Autoescape.Proofs.Pool
import Autoescape.Proofs.Table
import Autoescape.Resources
import Mathlib.Data.List.Induction

/-!
# What merged tables hold

A history keeps, beside the resources, every request for a table with the places that were given
for it. `Accounted` says what the tables then are: each is the union of the tables that were
granted its place, under the names of their owners in order. One more request keeps that.
-/
namespace Autoescape.Resources

theorem grows_tables_addTable (r : Resources) (owner : String) (t : Table) :
    Pool.Grows Table.Within r.tables (r.addTable owner t).1.tables := by
  refine Pool.grows_place t owner Table.Within.refl (fun u hu => ?_) r.tables
  exact Table.within_merge ((Table.agrees_iff u t).mp hu)

structure Grant where
  owner : String
  table : Table
  tableAt : Nat
  matcherAt : Nat

/-- Resources and all that was granted on the way to them. -/
structure History where
  resources : Resources
  grants : List Grant

namespace History

def fresh : History := ⟨Resources.empty, []⟩

def add (h : History) (owner : String) (t : Table) : History :=
  ⟨(h.resources.addTable owner t).1, h.grants ++
    [⟨owner, t, (h.resources.addTable owner t).2.1, (h.resources.addTable owner t).2.2⟩]⟩

def ofRequests (requests : List (String × Table)) : History :=
  requests.foldl (fun h q => h.add q.1 q.2) fresh

def tables (h : History) : Pool Table := h.resources.tables

def grantsAt (h : History) (i : Nat) : List Grant := h.grants.filter (·.tableAt = i)

def placeOf (h : History) (owner : String) (t : Table) : Nat :=
  (h.tables.place (·.agrees t) (·.merge t) t owner).2

theorem ofRequests_concat (requests : List (String × Table)) (owner : String) (t : Table) :
    ofRequests (requests ++ [(owner, t)]) = (ofRequests requests).add owner t := by
  simp [ofRequests]

theorem tables_add (h : History) (owner : String) (t : Table) :
    (h.add owner t).tables = (h.tables.place (·.agrees t) (·.merge t) t owner).1 := rfl

theorem grants_add (h : History) (owner : String) (t : Table) : ∃ j,
    (h.add owner t).grants = h.grants ++ [⟨owner, t, h.placeOf owner t, j⟩] := ⟨_, rfl⟩

/-- The tables say exactly what was granted: each holds what was granted its place, and belongs to
the owners of that in their order. -/
structure Accounted (h : History) : Prop where
  placed : ∀ g ∈ h.grants, g.tableAt < h.tables.length
  union : ∀ i s, h.tables[i]? = some s → ∀ c text,
    s.value.get? c = some text ↔ ∃ g ∈ h.grantsAt i, g.table.get? c = some text
  owners : ∀ i s, h.tables[i]? = some s → s.owners = (h.grantsAt i).map (·.owner)

/-- A table goes to the first one that it is compatible with, or behind all tables. -/
theorem placeOf_spec (h : History) (owner : String) (t : Table) :
    (∀ k < h.placeOf owner t, ∀ s, h.tables[k]? = some s → ¬s.value.Compatible t) ∧
      ∀ s, h.tables[h.placeOf owner t]? = some s → s.value.Compatible t := by
  refine ⟨fun k hk s hs => ?_, fun s hs => ?_⟩
  · rw [← Table.agrees_iff, Bool.not_eq_true]
    exact Pool.not_fits_of_lt_place _ _ _ _ hk hs
  · rw [← Table.agrees_iff]
    exact Pool.fits_of_getElem?_place _ _ _ _ hs

theorem grows_add (h : History) (owner : String) (t : Table) :
    Pool.Grows Table.Within h.tables (h.add owner t).tables :=
  grows_tables_addTable h.resources owner t

theorem grows_foldl_add (h : History) (requests : List (String × Table)) :
    Pool.Grows Table.Within h.tables (requests.foldl (fun h q => h.add q.1 q.2) h).tables := by
  induction requests generalizing h with
  | nil => exact Pool.Grows.refl Table.Within.refl _
  | cons q requests ih =>
    exact (h.grows_add q.1 q.2).trans (fun _ _ _ => Table.Within.trans) (ih (h.add q.1 q.2))

theorem grantsAt_add (h : History) (owner : String) (t : Table) : ∃ j, ∀ i,
    (h.add owner t).grantsAt i = h.grantsAt i ++
      if i = h.placeOf owner t then [⟨owner, t, h.placeOf owner t, j⟩] else [] := by
  obtain ⟨j, hj⟩ := h.grants_add owner t
  refine ⟨j, fun i => ?_⟩
  rw [grantsAt, hj, List.filter_append, grantsAt, List.filter_singleton]
  by_cases hi : i = h.placeOf owner t
  · simp [hi]
  · simp [hi, Ne.symm hi]

theorem accounted_fresh : Accounted fresh :=
  ⟨by simp [fresh], by simp [fresh, tables, Resources.empty], by simp [fresh, tables, Resources.empty]⟩

theorem Accounted.grantsAt_eq_nil {h : History} (ha : Accounted h) {i : Nat}
    (hi : h.tables[i]? = none) : h.grantsAt i = [] := by
  rw [grantsAt, List.filter_eq_nil_iff]
  rintro g hg heq
  have hlt := ha.placed g hg
  rw [List.getElem?_eq_none_iff] at hi
  simp at heq
  omega

/-- One more request keeps the account. The union survives the merge because the texts that the
table and the request share are the same. -/
theorem Accounted.add {h : History} (ha : Accounted h) (owner : String) (t : Table) :
    Accounted (h.add owner t) := by
  obtain ⟨j, hj⟩ := h.grantsAt_add owner t
  have hentry (i : Nat) (s : Shared Table) (hs : (h.add owner t).tables[i]? = some s) :
      (i ≠ h.placeOf owner t ∧ h.tables[i]? = some s) ∨
        (i = h.placeOf owner t ∧ s = Pool.joined (·.merge t) t owner h.tables[i]?) := by
    rw [tables_add, Pool.getElem?_place] at hs
    split at hs
    · next hi => exact .inr ⟨hi, by simpa using hs.symm⟩
    · next hi => exact .inl ⟨hi, hs⟩
  refine ⟨?_, ?_, ?_⟩
  · intro g hg
    obtain ⟨k, hk⟩ := h.grants_add owner t
    rw [tables_add, Pool.length_place]
    rw [hk, List.mem_append, List.mem_singleton] at hg
    rcases hg with hg | rfl
    · have hlt := ha.placed g hg
      omega
    · change h.placeOf owner t < max _ (h.placeOf owner t + 1)
      omega
  · intro i s hs c text
    rw [hj]
    rcases hentry i s hs with ⟨hi, hs⟩ | ⟨hi, rfl⟩
    · simp [hi, ha.union i s hs]
    · -- a new table is the request itself; a merged one gives the request's text where it has one,
      -- which by compatibility is the text that was there
      simp only [hi, if_true, List.mem_append, List.mem_singleton, or_and_right, exists_or,
        exists_eq_left]
      rw [← hi]
      cases hu : h.tables[i]? with
      | none => simp [Pool.joined, ha.grantsAt_eq_nil hu]
      | some u =>
        have hcompatible : u.value.Compatible t := (h.placeOf_spec owner t).2 u (hi ▸ hu)
        rw [← ha.union i u hu, Pool.joined, Table.get?_merge]
        cases ht : t.get? c with
        | none => simp
        | some x => simpa using fun hx => (hcompatible.2 c text x hx ht).symm
  · intro i s hs
    rw [hj]
    rcases hentry i s hs with ⟨hi, hs⟩ | ⟨hi, rfl⟩
    · simp [hi, ha.owners i s hs]
    · rw [if_pos hi, List.map_append]
      cases hu : h.tables[i]? with
      | none => simp [Pool.joined, ha.grantsAt_eq_nil hu]
      | some u => simp [Pool.joined, ha.owners i u hu]

theorem accounted_ofRequests (requests : List (String × Table)) :
    Accounted (ofRequests requests) := by
  induction requests using List.reverseRecOn with
  | nil => exact accounted_fresh
  | append_singleton requests q ih =>
    rw [ofRequests_concat]
    exact ih.add q.1 q.2

theorem grants_ofRequests (requests : List (String × Table)) :
    (ofRequests requests).grants.map (fun g => (g.owner, g.table)) = requests := by
  induction requests using List.reverseRecOn with
  | nil => rfl
  | append_singleton requests q ih =>
    obtain ⟨j, hj⟩ := (ofRequests requests).grants_add q.1 q.2
    rw [ofRequests_concat, hj, List.map_append, ih]
    rfl

theorem Accounted.agree {h : History} (ha : Accounted h) {g g' : Grant} (hg : g ∈ h.grants)
    (hg' : g' ∈ h.grantsAt g.tableAt) {c : Char} {x y : String} (hx : g.table.get? c = some x)
    (hy : g'.table.get? c = some y) : x = y := by
  have hentry := List.getElem?_eq_getElem (ha.placed g hg)
  have hmem : g ∈ h.grantsAt g.tableAt := List.mem_filter.mpr ⟨hg, by simp⟩
  have hcx := (ha.union _ _ hentry c x).mpr ⟨g, hmem, hx⟩
  have hcy := (ha.union _ _ hentry c y).mpr ⟨g', hg', hy⟩
  exact Option.some.inj (hcx.symm.trans hcy)

/-- Between any requests before and after it, a request finds the tables growing only, goes to the
first compatible table or behind all tables, and leaves every table the union of what was granted
its place, overwriting nothing, under the names of the owners in the order of their requests. -/
theorem merging_invariant (earlier : List (String × Table)) (owner : String) (t : Table)
    (later : List (String × Table)) :
    let before := ofRequests earlier
    let after := ofRequests (earlier ++ [(owner, t)])
    let final := ofRequests (earlier ++ (owner, t) :: later)
    (Pool.Grows Table.Within before.tables after.tables ∧
      Pool.Grows Table.Within after.tables final.tables ∧
      before.tables.length ≤ after.tables.length ∧
      after.tables.length ≤ final.tables.length) ∧
    after.grants.map (fun g => (g.owner, g.table)) = earlier ++ [(owner, t)] ∧
    (∀ g ∈ after.grants, g.tableAt < after.tables.length) ∧
    (∀ i s, after.tables[i]? = some s →
      (∀ c text, s.value.get? c = some text ↔
        ∃ g ∈ after.grantsAt i, g.table.get? c = some text) ∧
      s.label = "__AND__".intercalate ((after.grantsAt i).map (·.owner))) ∧
    (∀ g ∈ after.grants, ∀ g' ∈ after.grants, g'.tableAt = g.tableAt →
      ∀ c x y, g.table.get? c = some x → g'.table.get? c = some y → x = y) ∧
    ∃ i j, before.resources.addTable owner t = (after.resources, i, j) ∧
      after.grants = before.grants ++ [⟨owner, t, i, j⟩] ∧
      (∀ k < i, ∀ s, before.tables[k]? = some s → ¬s.value.Compatible t) ∧
      ((after.tables.length = before.tables.length ∧
          ∃ s, before.tables[i]? = some s ∧ s.value.Compatible t) ∨
        (after.tables.length = before.tables.length + 1 ∧ i = before.tables.length)) := by
  intro before after final
  have hafter : after = before.add owner t := ofRequests_concat earlier owner t
  have hfinal : final = later.foldl (fun h q => h.add q.1 q.2) after := by
    simp [final, hafter, before, ofRequests]
  have haccounted : Accounted after := accounted_ofRequests _
  have hgrows : Pool.Grows Table.Within before.tables after.tables := hafter ▸ before.grows_add owner t
  have hgrows' : Pool.Grows Table.Within after.tables final.tables :=
    hfinal ▸ after.grows_foldl_add later
  refine ⟨⟨hgrows, hgrows', hgrows.length_le, hgrows'.length_le⟩, grants_ofRequests _,
    haccounted.placed, fun i s hs => ⟨haccounted.union i s hs, ?_⟩, ?_, ?_⟩
  · rw [Shared.label, haccounted.owners i s hs]
  · intro g hg g' hg' hplace c x y hx hy
    exact haccounted.agree hg (List.mem_filter.mpr ⟨hg', by simpa using hplace⟩) hx hy
  · refine ⟨before.placeOf owner t, (before.resources.addTable owner t).2.2, ?_, ?_, ?_, ?_⟩
    · rw [hafter]
      rfl
    · rw [hafter]
      rfl
    · exact (before.placeOf_spec owner t).1
    · rw [hafter, tables_add, Pool.length_place]
      change (max _ (before.placeOf owner t + 1) = _ ∧ _) ∨ (max _ (before.placeOf owner t + 1) = _ ∧ _)
      have hle : before.placeOf owner t ≤ before.tables.length := Pool.place_le_length _ _ _ _ _
      rcases Nat.lt_or_eq_of_le hle with hlt | heq
      · have hentry := List.getElem?_eq_getElem hlt
        exact .inl ⟨by omega, _, hentry, (before.placeOf_spec owner t).2 _ hentry⟩
      · exact .inr ⟨by omega, heq⟩

end History
end Autoescape.Resources
