import Autoescape.Proofs.Provenance

/-!
# What a block contains

The contents of a plan, by names instead of places: what is handed on, the tables, the matchers and
the filters, and what each helper refers to. The statements of a plan tell all of it.
-/
namespace Autoescape
open Block (Statement)

structure Reference where
  directive : String
  table : Option String
  matcher : Option String
  filter : Option String
  /-- What stands for a rejected value, where there is a filter. -/
  innocuous : Option String
deriving DecidableEq

/-- What a block contains, each kind in its order, and shared values with their labels. -/
structure Contents where
  forwardings : List Forwarding
  tables : List (String × Table)
  matchers : List (String × String)
  filters : List (String × String)
  references : List Reference

namespace Pool

variable {α : Type}

def labelAt? (pool : Pool α) (place : Option Nat) : Option String :=
  place.bind fun i => pool[i]?.map Shared.label

def labelled (pool : Pool α) : List (String × α) := pool.map fun s => (s.label, s.value)

theorem exists_of_mem_labelled {pool : Pool α} {label : String} {value : α}
    (h : (label, value) ∈ pool.labelled) : ∃ s ∈ pool, s.value = value := by
  rcases List.mem_map.mp h with ⟨s, hs, heq⟩
  exact ⟨s, hs, congrArg Prod.snd heq⟩

end Pool

def Reference.ofWiring (r : Resources) (w : Wiring) : Reference where
  directive := w.directive
  table := r.tables.labelAt? w.table
  matcher := r.matchers.labelAt? w.matcher
  filter := r.filters.labelAt? w.filter
  innocuous := w.filter.map fun _ => w.innocuous

def Plan.contents (p : Plan) : Contents where
  forwardings := p.forwardings
  tables := p.resources.tables.labelled
  matchers := p.resources.matchers.labelled
  filters := p.resources.filters.labelled
  references := p.wirings.map (.ofWiring p.resources)

namespace Block.Statement

def forwarding? : Statement → Option Forwarding
  | .forwarding f => some f
  | _ => none

def table? : Statement → Option (String × Table)
  | .table label t => some (label, t)
  | _ => none

def matcher? : Statement → Option (String × String)
  | .matcher label literal => some (label, literal)
  | _ => none

def filter? : Statement → Option (String × String)
  | .filter label literal => some (label, literal)
  | _ => none

def reference? : Statement → Option Reference
  | .helper directive check replacing => some {
      directive
      table := replacing.map (·.table)
      matcher := replacing.map (·.matcher)
      filter := check.map (·.filter)
      innocuous := check.map (·.innocuous) }
  | _ => none

end Block.Statement

def Contents.ofStatements (statements : List Statement) : Contents where
  forwardings := statements.filterMap Statement.forwarding?
  tables := statements.filterMap Statement.table?
  matchers := statements.filterMap Statement.matcher?
  filters := statements.filterMap Statement.filter?
  references := statements.filterMap Statement.reference?

namespace Plan

variable {p : Plan} {reports : Bool} {statements helpers : List Statement}

/-- The statement of a helper names what its wiring points to. -/
theorem reference?_helperStatement? {w : Wiring} {s : Statement}
    (hboth : w.table.isSome = w.matcher.isSome) (h : p.helperStatement? reports w = some s) :
    s.reference? = some (.ofWiring p.resources w) := by
  rcases helperStatement?_eq_some.mp h with ⟨check, hcheck, replacing, hreplacing, rfl⟩
  rcases check?_eq_some.mp hcheck with ⟨hfilter, rfl⟩ | ⟨k, hfilter, f, hf, rfl⟩ <;>
    rcases (replacing?_eq_some hboth).mp hreplacing with
      ⟨htable, hmatcher, rfl⟩ | ⟨i, j, htable, hmatcher, t, ht, m, hm, rfl⟩ <;>
    simp [Statement.reference?, Reference.ofWiring, Pool.labelAt?, *]

theorem references_helpers (hboth : ∀ w ∈ p.wirings, w.table.isSome = w.matcher.isSome)
    (h : p.wirings.mapM (p.helperStatement? reports) = some helpers) :
    helpers.filterMap Statement.reference? = p.wirings.map (.ofWiring p.resources) := by
  have hforall := (List.forall₂_and_left p.wirings helpers).mpr ⟨hboth, Option.forall₂_of_mapM h⟩
  have hmap := map_eq_map_of_forall₂ (f := fun w => some (Reference.ofWiring p.resources w)) hforall
    fun w s hs => (reference?_helperStatement? hs.1 hs.2).symm
  calc
    _ = (helpers.map Statement.reference?).filterMap id := by rw [List.filterMap_map, Function.id_comp]
    _ = (p.wirings.map fun w => some (Reference.ofWiring p.resources w)).filterMap id := by rw [hmap]
    _ = _ := by simp [List.filterMap_map]

/-- The statements of a plan tell what it contains. -/
theorem ofStatements_statements? (hboth : ∀ w ∈ p.wirings, w.table.isSome = w.matcher.isSome)
    (h : p.statements? reports = some statements) : Contents.ofStatements statements = p.contents := by
  rcases statements?_eq_some.mp h with ⟨helpers, hmapM, rfl⟩
  have hhelpers {β : Type} {f : Statement → Option β}
      (hf : ∀ directive check replacing, f (.helper directive check replacing) = none) :
      helpers.filterMap f = [] := by
    rw [List.filterMap_eq_nil_iff]
    intro s hs
    rcases exists_of_forall₂ (Option.forall₂_of_mapM hmapM) hs with ⟨w, -, hstatement⟩
    rcases helperStatement?_eq_some.mp hstatement with ⟨check, -, replacing, -, rfl⟩
    exact hf w.directive check replacing
  have hforwarding := hhelpers (f := Statement.forwarding?) fun _ _ _ => rfl
  have htable := hhelpers (f := Statement.table?) fun _ _ _ => rfl
  have hmatcher := hhelpers (f := Statement.matcher?) fun _ _ _ => rfl
  have hfilter := hhelpers (f := Statement.filter?) fun _ _ _ => rfl
  have hreference := references_helpers hboth hmapM
  simp [Contents.ofStatements, contents, resourceStatements, Pool.labelled, List.filterMap_append,
    List.filterMap_flatMap, hforwarding, htable, hmatcher, hfilter, hreference,
    Statement.forwarding?, Statement.table?, Statement.matcher?, Statement.filter?,
    Statement.reference?, List.filterMap_cons, Function.comp_def, ← List.map_eq_flatMap]

end Plan
end Autoescape
