import Autoescape.Generation
import Autoescape.Proofs.Plan
import Mathlib.Data.List.Perm.Subperm

/-!
# Where the parts of a block come from

The resources of a plan hold what its directives brought and nothing else, and every directive
brought at most one thing of each kind. The statements of a block are those of its plan.
-/
namespace Autoescape

/-- Properties that owners, tables and literals may have. -/
structure Resources.Traits where
  owner : String → Prop
  table : Table → Prop
  matcher : String → Prop
  filter : String → Prop

/-- Somebody owns a shared value, and its owners and the value have their properties. -/
structure Shared.Has {α : Type} (ownerHas : String → Prop) (valueHas : α → Prop) (s : Shared α) :
    Prop where
  owned : s.owners ≠ []
  owners : ∀ owner ∈ s.owners, ownerHas owner
  value : valueHas s.value

structure Resources.Have (q : Resources.Traits) (r : Resources) : Prop where
  tables : ∀ s ∈ r.tables, s.Has q.owner q.table
  matchers : ∀ s ∈ r.matchers, s.Has q.owner q.matcher
  filters : ∀ s ∈ r.filters, s.Has q.owner q.filter

structure Directive.Brings (q : Resources.Traits) (d : Directive) : Prop where
  owner : q.owner d.owner
  table : ∀ t, d.table? = .ok (some t) → q.table t
  matcher : ∀ t, d.table? = .ok (some t) → q.matcher (Literal.CharClass.matcher t.keys)
  filter : ∀ pattern literal, d.filter = some pattern → pattern.literal d.identifier = .ok literal →
    q.filter literal

namespace Pool

variable {α : Type} {fits : α → Bool} {join : α → α} {value : α} {owner : String}

theorem have_place {ownerHas : String → Prop} {valueHas : α → Prop} {pool : Pool α}
    (howner : ownerHas owner) (hvalue : valueHas value) (hjoin : ∀ v, valueHas v → valueHas (join v))
    (h : ∀ s ∈ pool, s.Has ownerHas valueHas) :
    ∀ s ∈ (pool.place fits join value owner).1, s.Has ownerHas valueHas := by
  apply Pool.forall_place
  · exact ⟨List.cons_ne_nil _ _, by simpa using howner, hvalue⟩
  · intro s hs
    refine ⟨by simp, fun o ho => ?_, hjoin s.value hs.value⟩
    rcases List.mem_append.mp ho with ho | ho
    · exact hs.owners o ho
    · exact List.mem_singleton.mp ho ▸ howner
  · exact h

def allOwners (pool : Pool α) : List String := pool.flatMap Shared.owners

theorem allOwners_place (pool : Pool α) :
    (pool.place fits join value owner).1.allOwners.Perm (owner :: pool.allOwners) := by
  induction pool with
  | nil => exact .refl _
  | cons s rest ih =>
    by_cases hs : fits s.value = true
    · simp [place, hs, allOwners]
    · have hrest := (ih.append_left s.owners).trans List.perm_middle
      simpa [place, hs, allOwners] using hrest

end Pool

/-- Nobody owns more than one table, matcher or filter than the owners that are given. -/
structure Resources.OwnedBy (owners : List String) (r : Resources) : Prop where
  tables : r.tables.allOwners.Subperm owners
  matchers : r.matchers.allOwners.Subperm owners
  filters : r.filters.allOwners.Subperm owners

namespace Plan

variable {available : String → Bool} {directives : List Directive} {p : Plan} {r r' : Resources}
  {d : Directive} {q : Resources.Traits}

theorem have_wire {w : Wiring} (hmerge : ∀ t u, q.table t → q.table u → q.table (t.merge u))
    (hd : d.Brings q) (hr : r.Have q) (h : wire r d = .ok (r', w)) : r'.Have q := by
  rcases wire_eq_ok.mp h with ⟨mid, htable, hfilter, -, -, -⟩
  have hmid : mid.Have q := by
    rcases addTable_eq_ok.mp htable with ⟨-, rfl, -, -⟩ | ⟨t, ht, rfl, -, -⟩
    · exact hr
    · exact ⟨Pool.have_place hd.owner (hd.table t ht) (fun u hu => hmerge u t hu (hd.table t ht)) hr.tables,
        Pool.have_place hd.owner (hd.matcher t ht) (fun _ hv => hv) hr.matchers, hr.filters⟩
  rcases addFilter_eq_ok.mp hfilter with ⟨-, rfl, -⟩ | ⟨pattern, literal, hpattern, hliteral, rfl, -⟩
  · exact hmid
  · exact ⟨hmid.tables, hmid.matchers,
      Pool.have_place hd.owner (hd.filter pattern literal hpattern hliteral) (fun _ hv => hv) hmid.filters⟩

/-- What every directive that is not handed on brings, and merging keeps, all resources of a plan
have. -/
theorem have_ofDirectives (hmerge : ∀ t u, q.table t → q.table u → q.table (t.merge u))
    (hbrings : ∀ d ∈ directives, standIn? available d = none → d.Brings q)
    (h : ofDirectives available directives = .ok p) : p.resources.Have q := by
  refine ofDirectives_induction (motive := fun directives p =>
    (∀ d ∈ directives, standIn? available d = none → d.Brings q) → p.resources.Have q) ?_ ?_ h hbrings
  · exact fun _ => ⟨List.forall_mem_nil _, List.forall_mem_nil _, List.forall_mem_nil _⟩
  · intro directives d p p' ih hadd hbrings
    have hresources := ih fun d hd => hbrings d (List.mem_append_left _ hd)
    rcases add_eq_ok.mp hadd with ⟨function, -, rfl⟩ | ⟨hstand, resources, w, hwire, rfl⟩
    · exact hresources
    · have hd := hbrings d (List.mem_append_right _ List.mem_cons_self) hstand
      exact have_wire hmerge hd hresources hwire

theorem ownedBy_wire {owners : List String} {w : Wiring} (hr : r.OwnedBy owners)
    (h : wire r d = .ok (r', w)) : r'.OwnedBy (d.owner :: owners) := by
  have hkept {l : List String} (hl : l.Subperm owners) : l.Subperm (d.owner :: owners) :=
    hl.trans (List.sublist_cons_self _ _).subperm
  have hplaced {α : Type} {fits : α → Bool} {join : α → α} {value : α} {pool : Pool α}
      (hpool : pool.allOwners.Subperm owners) :
      (pool.place fits join value d.owner).1.allOwners.Subperm (d.owner :: owners) :=
    (Pool.allOwners_place pool).subperm.trans ((List.subperm_cons _).mpr hpool)
  rcases wire_eq_ok.mp h with ⟨mid, htable, hfilter, -, -, -⟩
  have hmid : mid.tables.allOwners.Subperm (d.owner :: owners) ∧
      mid.matchers.allOwners.Subperm (d.owner :: owners) ∧ mid.filters.allOwners.Subperm owners := by
    rcases addTable_eq_ok.mp htable with ⟨-, rfl, -, -⟩ | ⟨t, -, rfl, -, -⟩
    · exact ⟨hkept hr.tables, hkept hr.matchers, hr.filters⟩
    · exact ⟨hplaced hr.tables, hplaced hr.matchers, hr.filters⟩
  rcases addFilter_eq_ok.mp hfilter with ⟨-, rfl, -⟩ | ⟨pattern, literal, -, -, rfl, -⟩
  · exact ⟨hmid.1, hmid.2.1, hkept hmid.2.2⟩
  · exact ⟨hmid.1, hmid.2.1, hplaced hmid.2.2⟩

/-- Every directive owns at most one table, one matcher and one filter. -/
theorem ownedBy_ofDirectives (h : ofDirectives available directives = .ok p) :
    p.resources.OwnedBy (directives.map Directive.owner) := by
  refine ofDirectives_induction (motive := fun directives p =>
    p.resources.OwnedBy (directives.map Directive.owner)) ?_ ?_ h
  · exact ⟨.refl _, .refl _, .refl _⟩
  · intro directives d p p' ih hadd
    have hgrown {l : List String} (hl : l.Subperm (d.owner :: directives.map Directive.owner)) :
        l.Subperm ((directives ++ [d]).map Directive.owner) := by
      refine hl.trans (List.Perm.subperm ?_)
      simpa using (List.perm_append_singleton d.owner (directives.map Directive.owner)).symm
    rcases add_eq_ok.mp hadd with ⟨function, -, rfl⟩ | ⟨-, resources, w, hwire, rfl⟩
    · have hkept := (List.sublist_cons_self d.owner (directives.map Directive.owner)).subperm
      exact ⟨hgrown (ih.tables.trans hkept), hgrown (ih.matchers.trans hkept),
        hgrown (ih.filters.trans hkept)⟩
    · have hwired := ownedBy_wire ih hwire
      exact ⟨hgrown hwired.tables, hgrown hwired.matchers, hgrown hwired.filters⟩

theorem mem_forwardings {f : Forwarding} : f ∈ p.forwardings ↔ .forwarding f ∈ p.helpers := by
  rw [forwardings, List.mem_filterMap]
  constructor
  · rintro ⟨helper, hhelper, heq⟩
    cases helper <;> cases heq
    exact hhelper
  · exact fun hf => ⟨_, hf, rfl⟩

theorem mem_wirings {w : Wiring} : w ∈ p.wirings ↔ .wiring w ∈ p.helpers := by
  rw [wirings, List.mem_filterMap]
  constructor
  · rintro ⟨helper, hhelper, heq⟩
    cases helper <;> cases heq
    exact hhelper
  · exact fun hw => ⟨_, hw, rfl⟩

def Describes (d : Directive) : Helper → Prop
  | .forwarding f => f.directive = d.identifier ∧ f.function ∈ d.functions
  | .wiring w => w.directive = d.identifier ∧ w.innocuous = d.innocuous ∧
      w.table.isSome = w.matcher.isSome

theorem describes_ofDirectives (h : ofDirectives available directives = .ok p) :
    List.Forall₂ Describes directives p.helpers := by
  refine forall₂_helpers (fun _ => Describes) (fun _ h => h) ?_ ?_ h
  · exact fun _ d function hstand => ⟨rfl, List.mem_of_find?_eq_some hstand⟩
  · intro r r' d w _ hwire
    rcases wire_eq_ok.mp hwire with ⟨mid, htable, -, -, hdirective, hinnocuous⟩
    refine ⟨hdirective, hinnocuous, ?_⟩
    rcases addTable_eq_ok.mp htable with ⟨-, -, htable, hmatcher⟩ | ⟨t, -, -, htable, hmatcher⟩
    · rw [htable, hmatcher]
    · rw [htable, hmatcher]
      rfl

/-- A helper replaces characters by a table and a matcher, or not at all. -/
theorem both_of_mem_wirings (h : ofDirectives available directives = .ok p) :
    ∀ w ∈ p.wirings, w.table.isSome = w.matcher.isSome := by
  intro w hw
  rcases exists_of_forall₂ (describes_ofDirectives h) (mem_wirings.mp hw) with ⟨d, -, hdescribes⟩
  exact hdescribes.2.2

/-- The helpers answer to the directives, in their order. -/
theorem directives_helpers (h : ofDirectives available directives = .ok p) :
    directives.map Directive.identifier = p.helpers.map Helper.directive := by
  refine map_eq_map_of_forall₂ (describes_ofDirectives h) fun d helper hdescribes => ?_
  cases helper with
  | forwarding f => exact hdescribes.1.symm
  | wiring w => exact hdescribes.1.symm

theorem directives_perm (p : Plan) :
    (p.forwardings.map (·.directive) ++ p.wirings.map (·.directive)).Perm
      (p.helpers.map Helper.directive) := by
  rcases p with ⟨resources, helpers⟩
  induction helpers with
  | nil => exact .refl _
  | cons helper helpers ih =>
    cases helper with
    | forwarding f => exact ih.cons f.directive
    | wiring w => exact List.perm_middle.trans (ih.cons w.directive)

open Block (Statement)

theorem helperStatement?_eq_some {reports : Bool} {w : Wiring} {s : Statement} :
    p.helperStatement? reports w = some s ↔ ∃ check,
      check? p.resources reports w = some check ∧ ∃ replacing,
        replacing? p.resources w = some replacing ∧ .helper w.directive check replacing = s := by
  simp [helperStatement?, Option.bind_eq_some_iff]

theorem check?_eq_some {reports : Bool} {w : Wiring} {check : Option Block.Check} :
    check? r reports w = some check ↔ (w.filter = none ∧ none = check) ∨
      ∃ i, w.filter = some i ∧ ∃ s, r.filters[i]? = some s ∧
        some ⟨s.label, w.innocuous, reports⟩ = check := by
  unfold check?
  cases w.filter with
  | none => simp
  | some i => simp

theorem replacing?_eq_some {w : Wiring} {replacing : Option Block.Replacing}
    (hboth : w.table.isSome = w.matcher.isSome) :
    replacing? r w = some replacing ↔ (w.table = none ∧ w.matcher = none ∧ none = replacing) ∨
      ∃ i j, w.table = some i ∧ w.matcher = some j ∧ ∃ s, r.tables[i]? = some s ∧
        ∃ m, r.matchers[j]? = some m ∧ some ⟨m.label, s.label⟩ = replacing := by
  unfold replacing?
  cases htable : w.table with
  | none =>
    have hmatcher : w.matcher = none := by simpa [htable] using hboth
    simp [hmatcher]
  | some i =>
    have hmatcher : w.matcher.isSome = true := by simpa [htable] using hboth.symm
    rcases Option.isSome_iff_exists.mp hmatcher with ⟨j, hj⟩
    simp [hj, Option.bind_eq_some_iff]

theorem statements?_eq_some {reports : Bool} {statements : List Statement} :
    p.statements? reports = some statements ↔ ∃ helpers,
      p.wirings.mapM (p.helperStatement? reports) = some helpers ∧
      p.forwardings.map .forwarding ++ resourceStatements p.resources ++ helpers
        ++ [.tagPattern, .openPattern, .safeTags] = statements := by
  simp [statements?, Option.bind_eq_some_iff]

theorem block?_eq_some {block : String} : p.block? available = some block ↔ ∃ statements,
    p.statements? (available Block.reporter) = some statements ∧
      textOfLines (blockLines statements) = block := by
  simp [block?, Option.bind_eq_some_iff]

end Plan

theorem Generation.generate_eq_ok {available : String → Bool} {directives : List Directive}
    {block : String} : generate available directives = .ok block ↔ ∃ p statements,
      Plan.ofDirectives available directives = .ok p ∧
      p.statements? (available Block.reporter) = some statements ∧
      block = Plan.textOfLines (Plan.blockLines statements) := by
  rw [generate, Except.bind_eq_ok]
  refine exists_congr fun p => ?_
  cases hstatements : p.statements? (available Block.reporter) with
  | none => simp [Plan.block?, hstatements]
  | some statements => simp [Plan.block?, hstatements, Except.pure_eq_ok, eq_comm]

end Autoescape
