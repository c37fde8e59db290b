import Autoescape.Proofs.CharClass.Canonical
import Autoescape.Proofs.Except
import Autoescape.Proofs.Merging
import Mathlib.Data.List.Nodup

/-!
# What shared matchers and filters hold

Matchers and filters are shared when their literals are equal. `Pool.Exact` says what a pool that is
used in this way tells of all the claims on it, and one more claim keeps that. For the matchers equal
literals mean equal sets of characters.
-/
namespace Autoescape

namespace Pool

variable {α : Type}

/-- A value, who asked for it, and the place that was given. -/
structure Claim (α : Type) where
  owner : String
  value : α
  place : Nat

/-- A pool says exactly what was claimed: every claim finds its value at its place, no value stands at
two places, and an entry belongs to those who were given its place, in their order. -/
structure Exact (pool : Pool α) (claims : List (Claim α)) : Prop where
  placed : ∀ c ∈ claims, ∃ s, pool[c.place]? = some s ∧ s.value = c.value
  distinct : (pool.map (·.value)).Nodup
  claimed : ∀ i s, pool[i]? = some s → ∃ c ∈ claims, c.place = i
  owners : ∀ i s, pool[i]? = some s → s.owners = (claims.filter (·.place = i)).map (·.owner)

theorem exact_nil : Exact ([] : Pool α) [] := ⟨nofun, .nil, by simp, by simp⟩

variable {pool : Pool α} {claims : List (Claim α)}

theorem Exact.place_eq_iff (h : Exact pool claims) {c c' : Claim α} (hc : c ∈ claims) (hc' : c' ∈ claims) :
    c.place = c'.place ↔ c.value = c'.value := by
  obtain ⟨s, hs, hvalue⟩ := h.placed c hc
  obtain ⟨s', hs', hvalue'⟩ := h.placed c' hc'
  constructor
  · intro heq
    rw [heq, hs'] at hs
    cases hs
    exact hvalue.symm.trans hvalue'
  · intro heq
    have hat : (pool.map (·.value))[c.place]? = some c.value := by simp [hs, hvalue]
    have hat' : (pool.map (·.value))[c'.place]? = some c.value := by simp [hs', hvalue', heq]
    obtain ⟨hlt, hget⟩ := List.getElem?_eq_some_iff.mp hat
    obtain ⟨hlt', hget'⟩ := List.getElem?_eq_some_iff.mp hat'
    exact (h.distinct.getElem_inj_iff).mp (hget.trans hget'.symm)

theorem Exact.label_eq (h : Exact pool claims) {i : Nat} {s : Shared α} (hs : pool[i]? = some s) :
    s.label = "__AND__".intercalate ((claims.filter (·.place = i)).map (·.owner)) := by
  rw [Shared.label, h.owners i s hs]

section Share

variable [BEq α] [LawfulBEq α]

theorem values_share (pool : Pool α) (value : α) (owner : String) :
    (pool.share value owner).1.map (·.value) =
      if value ∈ pool.map (·.value) then pool.map (·.value) else pool.map (·.value) ++ [value] := by
  induction pool with
  | nil => rfl
  | cons s rest ih =>
    by_cases hs : s.value = value
    · simp [share, place, hs]
    · rw [share] at ih
      simp only [share, place, beq_iff_eq, hs, if_false, List.map_cons, ih, List.mem_cons, Ne.symm hs,
        false_or]
      split <;> rfl

/-- One more claim keeps a pool exact. -/
theorem Exact.share (h : Exact pool claims) (value : α) (owner : String) :
    Exact (pool.share value owner).1 (claims ++ [⟨owner, value, (pool.share value owner).2⟩]) := by
  have hentry (i : Nat) := getElem?_place (· == value) id value owner pool i
  change ∀ i, (pool.share value owner).1[i]? = if i = (pool.share value owner).2 then _ else _ at hentry
  generalize hplace : (pool.share value owner).2 = place at hentry
  refine ⟨?_, ?_, ?_, ?_⟩
  · intro c hc
    rcases List.mem_append.mp hc with hc | hc
    · obtain ⟨s, hs, hvalue⟩ := h.placed c hc
      obtain ⟨t, ht, -, hkept⟩ := grows_share value owner pool c.place s hs
      exact ⟨t, ht, hkept.symm.trans hvalue⟩
    · obtain rfl := List.mem_singleton.mp hc
      exact hplace ▸ getElem?_share value owner pool
  · rw [values_share]
    split
    · exact h.distinct
    · next hnew => exact List.nodup_append.mpr ⟨h.distinct, by simp, by simpa using hnew⟩
  · intro i s hs
    rw [hentry] at hs
    split at hs
    · next hi => exact ⟨_, List.mem_append_right _ (List.mem_singleton.mpr rfl), hi.symm⟩
    · obtain ⟨c, hc, hi⟩ := h.claimed i s hs
      exact ⟨c, List.mem_append_left _ hc, hi⟩
  · intro i s hs
    rw [hentry] at hs
    rw [List.filter_append, List.map_append]
    split at hs
    · next hi =>
      subst hi
      cases hold : pool[i]? with
      | none =>
        have hnone : claims.filter (·.place = i) = [] := by
          rw [List.filter_eq_nil_iff]
          intro c hc heq
          obtain ⟨t, ht, -⟩ := h.placed c hc
          rw [of_decide_eq_true heq, hold] at ht
          cases ht
        obtain rfl : joined id value owner none = s := by simpa [hold] using hs
        simp [hnone, joined]
      | some old =>
        obtain rfl : joined id value owner (some old) = s := by simpa [hold] using hs
        simp [joined, h.owners i old hold]
    · next hi => simp [Ne.symm hi, h.owners i s hs]

end Share
end Pool

namespace Resources

/-! ### Matchers -/

namespace History

def matcherClaims (h : History) : List (Pool.Claim String) :=
  h.grants.map fun g => ⟨g.owner, Literal.CharClass.matcher g.table.keys, g.matcherAt⟩

theorem exact_matchers (requests : List (String × Table)) :
    Pool.Exact (ofRequests requests).resources.matchers (ofRequests requests).matcherClaims := by
  induction requests using List.reverseRecOn with
  | nil => exact Pool.exact_nil
  | append_singleton requests q ih =>
    rw [ofRequests_concat, matcherClaims, add, List.map_append]
    exact ih.share _ q.1

theorem grows_matchers_foldl (h : History) (requests : List (String × Table)) :
    Pool.Grows (· = ·) h.resources.matchers
      (requests.foldl (fun h q => h.add q.1 q.2) h).resources.matchers := by
  induction requests generalizing h with
  | nil => exact .refl (fun _ => rfl) _
  | cons q requests ih => exact (Pool.grows_share _ q.1 _).trans (fun _ _ _ => Eq.trans) (ih (h.add q.1 q.2))

/-- Tables have one matcher exactly when they have the same characters. -/
theorem matcherAt_eq_iff {requests : List (String × Table)}
    (hsingle : ∀ q ∈ requests, ∀ c ∈ q.2.keys, c.toNat ≤ 0xFFFF) {g g' : Grant}
    (hg : g ∈ (ofRequests requests).grants) (hg' : g' ∈ (ofRequests requests).grants) :
    g.matcherAt = g'.matcherAt ↔ ∀ c, c ∈ g.table.keys ↔ c ∈ g'.table.keys := by
  have hkeys {g : Grant} (hg : g ∈ (ofRequests requests).grants) : ∀ c ∈ g.table.keys, c.toNat ≤ 0xFFFF := by
    refine hsingle (g.owner, g.table) ?_
    rw [← grants_ofRequests requests]
    exact List.mem_map_of_mem hg
  rw [← (Literal.CharClass.matcher_canonical (hkeys hg)).2 _ (hkeys hg')]
  exact (exact_matchers requests).place_eq_iff (List.mem_map_of_mem hg) (List.mem_map_of_mem hg')

end History

/-! ### Filters -/

structure FilterRequest where
  directive : String
  owner : String
  pattern : Pattern

def FilterRequest.literal (q : FilterRequest) : Except Fault String := q.pattern.literal q.directive

/-- Resources, and the answer to every request for a filter on the way to them. -/
structure FilterHistory where
  resources : Resources
  answers : List (FilterRequest × Except Fault Nat)

namespace FilterHistory

def fresh : FilterHistory := ⟨Resources.empty, []⟩

def add (h : FilterHistory) (q : FilterRequest) : FilterHistory :=
  let (answer, r) := (takeFilter q.directive q.owner q.pattern).run h.resources
  ⟨r, h.answers ++ [(q, answer)]⟩

def ofRequests (requests : List FilterRequest) : FilterHistory := requests.foldl add fresh

def filters (h : FilterHistory) : Pool String := h.resources.filters

def claim? : FilterRequest × Except Fault Nat → Option (Pool.Claim String)
  | (q, .ok i) => q.literal.toOption.map fun literal => ⟨q.owner, literal, i⟩
  | (_, .error _) => none

def claims (h : FilterHistory) : List (Pool.Claim String) := h.answers.filterMap claim?

variable {h : FilterHistory} {q : FilterRequest} {requests : List FilterRequest}

theorem ofRequests_concat : ofRequests (requests ++ [q]) = (ofRequests requests).add q := by
  simp [ofRequests]

theorem add_of_error {fault : Fault} (hq : q.literal = .error fault) :
    h.add q = ⟨h.resources, h.answers ++ [(q, .error fault)]⟩ := by
  rw [add, takeFilter_of_error hq]

theorem add_of_ok {literal : String} (hq : q.literal = .ok literal) :
    h.add q = ⟨{ h.resources with filters := (h.filters.share literal q.owner).1 },
      h.answers ++ [(q, .ok (h.filters.share literal q.owner).2)]⟩ := by
  rw [add, takeFilter_of_ok hq]
  rfl

theorem answer_eq_error_iff {a : Except Fault Nat} (ha : (q, a) ∈ (ofRequests requests).answers)
    {fault : Fault} : a = .error fault ↔ q.literal = .error fault := by
  induction requests using List.reverseRecOn with
  | nil => exact absurd ha List.not_mem_nil
  | append_singleton requests last ih =>
    rw [ofRequests_concat] at ha
    cases hlast : last.literal with
    | error cause =>
      rw [add_of_error hlast, List.mem_append, List.mem_singleton] at ha
      rcases ha with ha | ha
      · exact ih ha
      · cases ha
        simp [hlast]
    | ok literal =>
      rw [add_of_ok hlast, List.mem_append, List.mem_singleton] at ha
      rcases ha with ha | ha
      · exact ih ha
      · cases ha
        simp [hlast]

theorem claims_add_of_error {fault : Fault} (hq : q.literal = .error fault) : (h.add q).claims = h.claims := by
  have hnone : claim? (q, .error fault) = none := rfl
  simp [add_of_error hq, claims, hnone]

theorem claims_add_of_ok {literal : String} (hq : q.literal = .ok literal) :
    (h.add q).claims = h.claims ++ [⟨q.owner, literal, (h.filters.share literal q.owner).2⟩] := by
  have hsome (i : Nat) : claim? (q, .ok i) = some ⟨q.owner, literal, i⟩ := by
    simp [claim?, hq, Except.toOption]
  simp [add_of_ok hq, claims, hsome]

theorem exact_filters (requests : List FilterRequest) :
    Pool.Exact (ofRequests requests).filters (ofRequests requests).claims := by
  induction requests using List.reverseRecOn with
  | nil => exact Pool.exact_nil
  | append_singleton requests q ih =>
    rw [ofRequests_concat]
    cases hq : q.literal with
    | error fault =>
      rw [claims_add_of_error hq, filters, add_of_error hq]
      exact ih
    | ok literal =>
      rw [claims_add_of_ok hq, filters, add_of_ok hq]
      exact ih.share literal q.owner

theorem requests_answers (requests : List FilterRequest) :
    (ofRequests requests).answers.map (·.1) = requests := by
  induction requests using List.reverseRecOn with
  | nil => rfl
  | append_singleton requests q ih =>
    rw [ofRequests_concat]
    cases hq : q.literal with
    | error fault => simp [add_of_error hq, ih]
    | ok literal => simp [add_of_ok hq, ih]

theorem exists_claim {i : Nat} (ha : (q, .ok i) ∈ (ofRequests requests).answers) :
    ∃ literal, q.literal = .ok literal ∧ ⟨q.owner, literal, i⟩ ∈ (ofRequests requests).claims := by
  cases hq : q.literal with
  | error fault => cases (answer_eq_error_iff ha).mpr hq
  | ok literal =>
    refine ⟨literal, rfl, List.mem_filterMap.mpr ⟨_, ha, ?_⟩⟩
    simp [claim?, hq, Except.toOption]

/-- Patterns have one filter exactly when they are translated to the same literal. -/
theorem answer_eq_iff {q' : FilterRequest} {i i' : Nat} (ha : (q, .ok i) ∈ (ofRequests requests).answers)
    (ha' : (q', .ok i') ∈ (ofRequests requests).answers) : i = i' ↔ q.literal = q'.literal := by
  obtain ⟨literal, hliteral, hclaim⟩ := exists_claim ha
  obtain ⟨literal', hliteral', hclaim'⟩ := exists_claim ha'
  rw [hliteral, hliteral', Except.ok.injEq]
  exact (exact_filters requests).place_eq_iff hclaim hclaim'

theorem grows_filters_foldl (h : FilterHistory) (requests : List FilterRequest) :
    Pool.Grows (· = ·) h.filters (requests.foldl add h).filters := by
  induction requests generalizing h with
  | nil => exact .refl (fun _ => rfl) _
  | cons q requests ih =>
    refine Pool.Grows.trans (fun _ _ _ => Eq.trans) ?_ (ih (h.add q))
    cases hq : q.literal with
    | error fault =>
      rw [add_of_error hq]
      exact .refl (fun _ => rfl) _
    | ok literal =>
      rw [add_of_ok hq]
      exact Pool.grows_share literal q.owner _

end FilterHistory

/-! ### Both -/

/-- Shared matchers and filters are exact, whatever was requested. Each request that was granted finds
its literal at its place, now and after all later requests; no literal stands twice; and an entry is
labelled with the owners of the requests that were given its place, in order. Tables of characters that
are single code units have one matcher exactly when they have the same characters, and patterns have
one filter exactly when they have the same literal. A request that fails changes nothing. -/
theorem shared_literals_exact (requests later : List (String × Table))
    (filterRequests laterFilters : List FilterRequest) :
    let h := History.ofRequests requests
    let f := FilterHistory.ofRequests filterRequests
    (h.grants.map (fun g => (g.owner, g.table)) = requests ∧
      Pool.Exact h.resources.matchers h.matcherClaims ∧
      (∀ i s, h.resources.matchers[i]? = some s →
        s.label = "__AND__".intercalate ((h.matcherClaims.filter (·.place = i)).map (·.owner))) ∧
      ((∀ q ∈ requests, ∀ c ∈ q.2.keys, c.toNat ≤ 0xFFFF) →
        ∀ g ∈ h.grants, ∀ g' ∈ h.grants,
          (g.matcherAt = g'.matcherAt ↔ ∀ c, c ∈ g.table.keys ↔ c ∈ g'.table.keys)) ∧
      Pool.Grows (· = ·) h.resources.matchers (History.ofRequests (requests ++ later)).resources.matchers) ∧
    f.answers.map (·.1) = filterRequests ∧
      Pool.Exact f.filters f.claims ∧
      (∀ i s, f.filters[i]? = some s →
        s.label = "__AND__".intercalate ((f.claims.filter (·.place = i)).map (·.owner))) ∧
      (∀ q i q' i', (q, .ok i) ∈ f.answers → (q', .ok i') ∈ f.answers →
        (i = i' ↔ q.literal = q'.literal)) ∧
      Pool.Grows (· = ·) f.filters (FilterHistory.ofRequests (filterRequests ++ laterFilters)).filters ∧
      ∀ q fault, q.literal = .error fault →
        FilterHistory.ofRequests (filterRequests ++ [q]) = ⟨f.resources, f.answers ++ [(q, .error fault)]⟩ := by
  intro h f
  have hmatchers : Pool.Exact h.resources.matchers h.matcherClaims := History.exact_matchers requests
  have hfilters : Pool.Exact f.filters f.claims := FilterHistory.exact_filters filterRequests
  refine ⟨⟨History.grants_ofRequests requests, hmatchers, fun i s => hmatchers.label_eq,
    fun hsingle g hg g' => History.matcherAt_eq_iff hsingle hg, ?_⟩,
    FilterHistory.requests_answers filterRequests, hfilters, fun i s => hfilters.label_eq,
    fun q i q' i' => FilterHistory.answer_eq_iff, ?_, ?_⟩
  · rw [History.ofRequests, List.foldl_append]
    exact History.grows_matchers_foldl h later
  · rw [FilterHistory.ofRequests, List.foldl_append]
    exact FilterHistory.grows_filters_foldl f laterFilters
  · intro q fault hq
    rw [FilterHistory.ofRequests_concat, FilterHistory.add_of_error hq]

/-- Two tables that disagree on all their characters share a matcher, and two patterns that are not
the same share a filter, with one between them that fails. -/
theorem shared_literals_exact_for_two_spellings :
    let html := Table.ofPairs [('<', "&lt;"), ('&', "&amp;")]
    let uri := Table.ofPairs [('&', "%26"), ('<', "%3C")]
    let requests := [("HTML", html), ("URI", uri)]
    let start : FilterRequest := ⟨"start", "START", ⟨"\\Aa", .plain⟩⟩
    let failing : FilterRequest := ⟨"failing", "FAILING", ⟨"a++", .plain⟩⟩
    let line : FilterRequest := ⟨"line", "LINE", ⟨"^a", .plain⟩⟩
    (∀ q ∈ requests, ∀ c ∈ q.2.keys, c.toNat ≤ 0xFFFF) ∧
      (∃ g g', (History.ofRequests requests).grants = [g, g'] ∧ g.tableAt ≠ g'.tableAt ∧
        g.matcherAt = g'.matcherAt) ∧
      ∃ i fault i', (FilterHistory.ofRequests [start, failing, line]).answers =
        [(start, .ok i), (failing, .error fault), (line, .ok i')] ∧ i = i' := by
  intro html uri requests start failing line
  obtain ⟨⟨-, -, -, hmatchers, -⟩, -, -, -, hfilters, -⟩ :=
    shared_literals_exact requests [] [start, failing, line] []
  have hkeys : html.keys = ['&', '<'] ∧ uri.keys = ['&', '<'] := ⟨rfl, rfl⟩
  have hsingle : ∀ q ∈ requests, ∀ c ∈ q.2.keys, c.toNat ≤ 0xFFFF := by simp [requests, hkeys]
  have hstart : start.literal = .ok "/^a/" := by decide
  have hfailing : failing.literal = .error (.unsupported "failing" "a++" .possessive) := by decide
  have hline : line.literal = .ok "/^a/" := by decide
  have hanswers : (FilterHistory.ofRequests [start, failing, line]).answers =
      [(start, .ok 0), (failing, .error (.unsupported "failing" "a++" .possessive)), (line, .ok 0)] := by
    simp only [FilterHistory.ofRequests, List.foldl_cons, List.foldl_nil, FilterHistory.add_of_ok hstart,
      FilterHistory.add_of_error hfailing, FilterHistory.add_of_ok hline]
    rfl
  refine ⟨hsingle, ⟨_, _, rfl, by decide, ?_⟩, _, _, _, hanswers, ?_⟩
  · exact (hmatchers hsingle _ (.head _) _ (.tail _ (.head _))).mpr fun c => Iff.rfl
  · refine (hfilters start _ line _ ?_ ?_).mpr (hstart.trans hline.symm)
    · rw [hanswers]
      exact .head _
    · rw [hanswers]
      exact .tail _ (.tail _ (.head _))

end Resources
end Autoescape
