import Autoescape.Proofs.Provenance

/-!
# Places that exist

A wiring is made in the middle of the work and used at its end, when other directives have joined
and lengthened the pools that it points into. `InRange` says that its places are there. A place is
in range as soon as it is given, pools only grow, and so every plan has a block.
-/
namespace Autoescape

namespace Pool

variable {α : Type} (fits : α → Bool) (join : α → α) (value : α) (owner : String)

theorem place_lt_length (pool : Pool α) :
    (pool.place fits join value owner).2 < (pool.place fits join value owner).1.length := by
  rw [length_place]
  omega

end Pool

namespace Plan

variable {available : String → Bool} {directives : List Directive} {p : Plan} {r r' : Resources}
  {d : Directive} {w : Wiring}

/-- A wiring has a matcher exactly when it has a table, and all that it points to is there. -/
structure InRange (r : Resources) (w : Wiring) : Prop where
  matcher_iff_table : w.matcher.isSome = true ↔ w.table.isSome = true
  table : ∀ i ∈ w.table, i < r.tables.length
  matcher : ∀ i ∈ w.matcher, i < r.matchers.length
  filter : ∀ i ∈ w.filter, i < r.filters.length

theorem InRange.mono (hgrow : r.Grow r') (h : InRange r w) : InRange r' w where
  matcher_iff_table := h.matcher_iff_table
  table i hi := Nat.lt_of_lt_of_le (h.table i hi) hgrow.tables.length_le
  matcher i hi := Nat.lt_of_lt_of_le (h.matcher i hi) hgrow.matchers.length_le
  filter i hi := Nat.lt_of_lt_of_le (h.filter i hi) hgrow.filters.length_le

theorem lt_length_addTable {table matcher : Option Nat} (h : addTable r d = .ok (r', table, matcher)) :
    (matcher.isSome = true ↔ table.isSome = true) ∧
      (∀ i ∈ table, i < r'.tables.length) ∧ ∀ j ∈ matcher, j < r'.matchers.length := by
  rcases addTable_eq_ok.mp h with ⟨-, rfl, rfl, rfl⟩ | ⟨t, -, rfl, rfl, rfl⟩
  · simp
  · refine ⟨Iff.rfl, ?_, ?_⟩
    · rintro i ⟨⟩
      exact Pool.place_lt_length _ _ t d.owner r.tables
    · rintro j ⟨⟩
      exact Pool.place_lt_length _ _ _ d.owner r.matchers

theorem lt_length_addFilter {filter : Option Nat} (h : addFilter r d = .ok (r', filter)) :
    ∀ i ∈ filter, i < r'.filters.length := by
  rcases addFilter_eq_ok.mp h with ⟨-, -, rfl⟩ | ⟨pattern, literal, -, -, rfl, rfl⟩
  · simp
  · rintro i ⟨⟩
    exact Pool.place_lt_length _ _ literal d.owner r.filters

theorem inRange_wire (h : wire r d = .ok (r', w)) : InRange r' w := by
  obtain ⟨mid, htable, hfilter, -⟩ := wire_eq_ok.mp h
  obtain ⟨hboth, htables, hmatchers⟩ := lt_length_addTable htable
  -- the filter comes last, and lengthens its own pool only
  have hgrow := grow_addFilter hfilter
  exact ⟨hboth, fun i hi => Nat.lt_of_lt_of_le (htables i hi) hgrow.tables.length_le,
    fun j hj => Nat.lt_of_lt_of_le (hmatchers j hj) hgrow.matchers.length_le,
    lt_length_addFilter hfilter⟩

/-- Whatever is added to a plan, all its wirings point to what is there. -/
theorem inRange_ofDirectives (h : ofDirectives available directives = .ok p) :
    ∀ w ∈ p.wirings, InRange p.resources w := by
  have hrange := forall₂_helpers (fun r _ helper => ∀ w, helper = .wiring w → InRange r w)
    (fun hgrow hw w hhelper => (hw w hhelper).mono hgrow)
    (fun _ _ _ _ w hhelper => by cases hhelper)
    (fun _ _ _ _ _ hwire w hhelper => by cases hhelper; exact inRange_wire hwire) h
  intro w hw
  obtain ⟨d, -, hd⟩ := exists_of_forall₂ hrange (mem_wirings.mp hw)
  exact hd w rfl

theorem exists_helperStatement? (h : InRange p.resources w) (reports : Bool) :
    ∃ s, p.helperStatement? reports w = some s := by
  have hcheck : ∃ check, check? p.resources reports w = some check := by
    cases hfilter : w.filter with
    | none => exact ⟨none, check?_eq_some.mpr (.inl ⟨hfilter, rfl⟩)⟩
    | some i =>
      have hi := List.getElem?_eq_getElem (h.filter i hfilter)
      exact ⟨_, check?_eq_some.mpr (.inr ⟨i, hfilter, _, hi, rfl⟩)⟩
  have hreplacing : ∃ replacing, replacing? p.resources w = some replacing := by
    unfold replacing?
    cases htable : w.table with
    | none => exact ⟨none, rfl⟩
    | some i =>
      obtain ⟨j, hj⟩ := Option.isSome_iff_exists.mp (h.matcher_iff_table.mpr (by simp [htable]))
      simp [hj, List.getElem?_eq_getElem (h.table i htable), List.getElem?_eq_getElem (h.matcher j hj)]
  obtain ⟨check, hcheck⟩ := hcheck
  obtain ⟨replacing, hreplacing⟩ := hreplacing
  exact ⟨_, helperStatement?_eq_some.mpr ⟨check, hcheck, replacing, hreplacing, rfl⟩⟩

theorem exists_block? (h : ∀ w ∈ p.wirings, InRange p.resources w) (seen : String → Bool) :
    ∃ block, p.block? seen = some block := by
  obtain ⟨helpers, hhelpers⟩ := Option.exists_mapM fun w hw =>
    exists_helperStatement? (h w hw) (seen Block.reporter)
  exact ⟨_, block?_eq_some.mpr ⟨_, statements?_eq_some.mpr ⟨helpers, hhelpers, rfl⟩, rfl⟩⟩

end Plan

/-- Every plan becomes a block. Its wirings have a matcher exactly when they have a table, all places
in them are within the final resources, and so whichever functions are seen to be available when the
plan is written down, nothing that a helper points to is missing. -/
theorem Generation.places_exist {available : String → Bool} {directives : List Directive} {p : Plan}
    (h : Plan.ofDirectives available directives = .ok p) :
    (∀ w ∈ p.wirings, Plan.InRange p.resources w) ∧
      (∀ seen, ∃ block, p.block? seen = some block) ∧
      ∃ block, p.block? available = some block ∧ generate available directives = .ok block := by
  have hrange := Plan.inRange_ofDirectives h
  obtain ⟨block, hblock⟩ := Plan.exists_block? hrange available
  refine ⟨hrange, Plan.exists_block? hrange, block, hblock, ?_⟩
  rw [generate, h]
  simp [hblock, Except.pure_eq_ok]

/-- Three directives: one brings a table, one joins it and has a filter, and one is handed on. -/
theorem Generation.places_exist_for_joined :
    let directives := [(Directive.ofName "escapeHtml").escape '<' "&lt;" |>.escape '&' "&amp;",
      { (Directive.ofName "filterName").escape '<' "&lt;" with filter := some ⟨"^[a-z]+$", .plain⟩ },
      (Directive.ofName "escapeUri").function "encodeURIComponent"]
    let available := fun name => name = "encodeURIComponent"
    ∃ p, Plan.ofDirectives available directives = .ok p ∧ p.wirings.length = 2 ∧
      p.resources.tables.length = 1 ∧
      (∀ w ∈ p.wirings, Plan.InRange p.resources w) ∧
      (∀ seen, ∃ block, p.block? seen = some block) ∧
      ∃ block, p.block? available = some block ∧ generate available directives = .ok block :=
  ⟨_, rfl, rfl, rfl, places_exist rfl⟩

end Autoescape
