import Autoescape.Proofs.Plan

/-!
# Which directives stop a plan

A directive has a fault or has none by itself, whatever the resources that it comes to: the one of its
table goes before the one of its filter, and that before its lead for characters outside ASCII. A plan
comes about unless one of the directives that are not handed on has a fault, and then the first such
fault is reported. Directives that are handed on can be left out: what the others share and how their
helpers are wired stays the same.
-/
namespace Autoescape

namespace Directive

def isHandedOn (available : String → Bool) (d : Directive) : Bool := d.functions.any available

structure Sound (d : Directive) : Prop where
  table : ∃ t, d.table? = .ok t
  filter : ∀ p, d.filter = some p → ∃ literal, p.literal d.identifier = .ok literal
  lead : d.nonAsciiLead = none

inductive Faulty (d : Directive) : Fault → Prop where
  | table {fault : Fault} (h : d.table? = .error fault) : d.Faulty fault
  | filter {t : Option Table} {p : Pattern} {fault : Fault} (htable : d.table? = .ok t)
      (hfilter : d.filter = some p) (h : p.literal d.identifier = .error fault) : d.Faulty fault
  | lead {t : Option Table} (htable : d.table? = .ok t)
      (hfilter : ∀ p, d.filter = some p → ∃ literal, p.literal d.identifier = .ok literal)
      (h : d.nonAsciiLead ≠ none) : d.Faulty (.nonAsciiLead d.identifier)

theorem sound_iff {d : Directive} : d.Sound ↔ ∀ fault, ¬d.Faulty fault := by
  constructor
  · rintro ⟨⟨t, ht⟩, hfilter, hlead⟩ fault hfaulty
    cases hfaulty with
    | table h => cases ht.symm.trans h
    | filter _ hp h =>
      obtain ⟨literal, hliteral⟩ := hfilter _ hp
      cases hliteral.symm.trans h
    | lead _ _ h => exact h hlead
  · intro hnone
    have htable : ∃ t, d.table? = .ok t := Except.exists_ok_iff.mpr fun fault h => hnone fault (.table h)
    obtain ⟨t, ht⟩ := htable
    have hfilter : ∀ p, d.filter = some p → ∃ literal, p.literal d.identifier = .ok literal :=
      fun p hp => Except.exists_ok_iff.mpr fun fault h => hnone fault (.filter ht hp h)
    exact ⟨⟨t, ht⟩, hfilter, by_contra fun h => hnone _ (.lead ht hfilter h)⟩

/-- The directives are the same, or handed on with the same name and the same functions. -/
inductive SameUnlessHandedOn (available : String → Bool) (d : Directive) : Directive → Prop where
  | same : SameUnlessHandedOn available d d
  | handedOn {d' : Directive} (h : d.isHandedOn available = true) (hname : d'.name = d.name)
      (hfunctions : d'.functions = d.functions) : SameUnlessHandedOn available d d'

end Directive

namespace Plan

variable {available : String → Bool} {r : Resources} {d d' : Directive} {p : Plan} {fault : Fault}
  {directives directives' : List Directive}

/-- The helper of a directive: one that hands on to the first function that is available, or a wiring
where none is. -/
inductive Helps (available : String → Bool) (d : Directive) : Helper → Prop where
  | forwarding {before after : List String} {function : String}
      (hfunctions : d.functions = before ++ function :: after)
      (hbefore : ∀ earlier ∈ before, available earlier = false) (hfunction : available function = true) :
      Helps available d (.forwarding ⟨d.identifier, function⟩)
  | wiring {w : Wiring} (h : d.isHandedOn available = false) (hdirective : w.directive = d.identifier) :
      Helps available d (.wiring w)

theorem standIn?_eq_none_iff : standIn? available d = none ↔ d.isHandedOn available = false := by
  simp [standIn?, Directive.isHandedOn]

theorem addTable_eq_error : addTable r d = .error fault ↔ d.table? = .error fault := by
  unfold addTable
  cases d.table? with
  | error fault => simp
  | ok t => cases t <;> simp [Except.pure_eq_ok]

theorem addFilter_eq_error :
    addFilter r d = .error fault ↔ ∃ p, d.filter = some p ∧ p.literal d.identifier = .error fault := by
  unfold addFilter
  cases d.filter with
  | none => simp [Except.pure_eq_ok]
  | some p =>
    cases hliteral : p.literal d.identifier with
    | error cause => simp [Resources.addFilter_of_error hliteral, hliteral]
    | ok literal =>
      simp [Resources.addFilter_of_ok hliteral, hliteral, Except.pure_eq_ok]

theorem exists_addTable_iff : (∃ x, addTable r d = .ok x) ↔ ∃ t, d.table? = .ok t := by
  simp only [Except.exists_ok_iff, ne_eq, addTable_eq_error]

theorem exists_addFilter_iff : (∃ x, addFilter r d = .ok x) ↔
    ∀ p, d.filter = some p → ∃ literal, p.literal d.identifier = .ok literal := by
  simp only [Except.exists_ok_iff, ne_eq, addFilter_eq_error, not_exists, not_and]
  exact ⟨fun h p hp e => h e p hp, fun h e p hp => h p hp e⟩

/-- The fault of a directive does not depend on what is there already. -/
theorem wire_eq_error : wire r d = .error fault ↔ d.Faulty fault := by
  rw [wire, Except.bind_eq_error, addTable_eq_error]
  constructor
  · rintro (htable | ⟨⟨mid, table, matcher⟩, htable, h⟩)
    · exact .table htable
    obtain ⟨t, ht⟩ := exists_addTable_iff.mp ⟨_, htable⟩
    rcases Except.bind_eq_error.mp h with hfilter | ⟨⟨last, filter⟩, hfilter, h⟩
    · obtain ⟨p, hp, hliteral⟩ := addFilter_eq_error.mp hfilter
      exact .filter ht hp hliteral
    · by_cases hlead : d.nonAsciiLead = none
      · simp [hlead, Except.pure_eq_ok] at h
      · obtain rfl : .nonAsciiLead d.identifier = fault := by
          simpa [hlead, Option.isSome_iff_ne_none] using h
        exact .lead ht (exists_addFilter_iff.mp ⟨_, hfilter⟩) hlead
  · intro hfaulty
    cases hfaulty with
    | table htable => exact .inl htable
    | filter ht hp hliteral =>
      obtain ⟨x, hx⟩ := exists_addTable_iff.mpr ⟨_, ht⟩
      exact .inr ⟨x, hx, Except.bind_eq_error.mpr (.inl (addFilter_eq_error.mpr ⟨_, hp, hliteral⟩))⟩
    | lead ht hfilter hlead =>
      obtain ⟨x, hx⟩ := exists_addTable_iff.mpr ⟨_, ht⟩
      obtain ⟨y, hy⟩ := exists_addFilter_iff.mpr hfilter
      refine .inr ⟨x, hx, Except.bind_eq_error.mpr (.inr ⟨y, hy, ?_⟩)⟩
      simp [hlead, Option.isSome_iff_ne_none]

theorem standIn?_eq_some_iff {function : String} : standIn? available d = some function ↔
    available function = true ∧ ∃ before after, d.functions = before ++ function :: after ∧
      ∀ earlier ∈ before, available earlier = false := by
  simp [standIn?, List.find?_eq_some_iff_append]

theorem add_eq_error : add available p d = .error fault ↔
    d.isHandedOn available = false ∧ d.Faulty fault := by
  rw [← standIn?_eq_none_iff]
  unfold add
  cases standIn? available d with
  | some function => simp
  | none =>
    rw [Except.bind_eq_error, wire_eq_error]
    simp [Except.pure_eq_ok]

theorem exists_add_iff :
    (∃ q, add available p d = .ok q) ↔ (d.isHandedOn available = false → d.Sound) := by
  simp only [Except.exists_ok_iff, ne_eq, add_eq_error, not_and, Directive.sound_iff]
  exact forall_comm

theorem exists_foldlM_add_iff : (∃ q, directives.foldlM (add available) p = .ok q) ↔
    ∀ d ∈ directives, d.isHandedOn available = false → d.Sound := by
  induction directives generalizing p with
  | nil => exact iff_of_true ⟨p, rfl⟩ nofun
  | cons d rest ih =>
    rw [List.forall_mem_cons, ← exists_add_iff (p := p)]
    simp only [List.foldlM_cons, Except.bind_eq_ok]
    constructor
    · rintro ⟨q, mid, hadd, hrest⟩
      exact ⟨⟨mid, hadd⟩, ih.mp ⟨q, hrest⟩⟩
    · rintro ⟨⟨mid, hadd⟩, hrest⟩
      obtain ⟨q, hq⟩ := ih.mpr hrest
      exact ⟨q, mid, hadd, hq⟩

/-- The fault of a plan is that of the first directive that has one and is not handed on. -/
theorem ofDirectives_eq_error : ofDirectives available directives = .error fault ↔
    ∃ before d after, directives = before ++ d :: after ∧
      (∀ earlier ∈ before, earlier.isHandedOn available = false → earlier.Sound) ∧
      d.isHandedOn available = false ∧ d.Faulty fault := by
  simp only [ofDirectives, Except.foldlM_eq_error, add_eq_error, ← exists_foldlM_add_iff (p := empty)]
  constructor
  · rintro ⟨before, d, after, q, hsplit, hbefore, hd⟩
    exact ⟨before, d, after, hsplit, ⟨q, hbefore⟩, hd⟩
  · rintro ⟨before, d, after, hsplit, ⟨q, hbefore⟩, hd⟩
    exact ⟨before, d, after, q, hsplit, hbefore, hd⟩

theorem forall₂_helps (h : ofDirectives available directives = .ok p) :
    List.Forall₂ (Helps available) directives p.helpers := by
  refine forall₂_helpers (fun _ d helper => Helps available d helper) (fun _ => id) ?_ ?_ h
  · intro _ d function hstand
    obtain ⟨hfunction, before, after, hfunctions, hbefore⟩ := standIn?_eq_some_iff.mp hstand
    exact .forwarding hfunctions hbefore hfunction
  · intro _ _ d w hstand hwire
    obtain ⟨-, -, -, -, hdirective, -⟩ := wire_eq_ok.mp hwire
    exact .wiring (standIn?_eq_none_iff.mp hstand) hdirective

theorem ofDirectives_filter (h : ofDirectives available directives = .ok p) :
    ofDirectives available (directives.filter (!·.isHandedOn available)) =
      .ok ⟨p.resources, p.wirings.map .wiring⟩ := by
  refine ofDirectives_induction (motive := fun directives p =>
    ofDirectives available (directives.filter (!·.isHandedOn available)) =
      .ok ⟨p.resources, p.wirings.map .wiring⟩) rfl ?_ h
  intro directives d p p' ih hadd
  rw [List.filter_append]
  rcases add_eq_ok.mp hadd with ⟨function, hstand, rfl⟩ | ⟨hstand, resources, w, hwire, rfl⟩
  · have hhanded : d.isHandedOn available = true := by
      rw [← Bool.not_eq_false, ← standIn?_eq_none_iff, hstand]
      nofun
    simpa [hhanded, wirings] using ih
  · have hkept : d.isHandedOn available = false := standIn?_eq_none_iff.mp hstand
    have hagain : add available ⟨p.resources, p.wirings.map .wiring⟩ d =
        .ok ⟨resources, p.wirings.map .wiring ++ [.wiring w]⟩ :=
      add_eq_ok.mpr (.inr ⟨hstand, resources, w, hwire, rfl⟩)
    have hlast : [d].filter (!·.isHandedOn available) = [d] := by simp [hkept]
    rw [hlast, ofDirectives, List.foldlM_append]
    refine Except.bind_eq_ok.mpr ⟨_, ih, ?_⟩
    simpa [wirings] using hagain

theorem add_sameUnlessHandedOn (h : d.SameUnlessHandedOn available d') :
    add available p d' = add available p d := by
  cases h with
  | same => rfl
  | handedOn hhanded hname hfunctions =>
    have hstand : standIn? available d' = standIn? available d := by rw [standIn?, standIn?, hfunctions]
    have hidentifier : d'.identifier = d.identifier := by rw [Directive.identifier, Directive.identifier, hname]
    unfold add
    rw [hstand, hidentifier]
    cases hfunction : standIn? available d with
    | some function => rfl
    | none =>
      rw [standIn?_eq_none_iff, hhanded] at hfunction
      cases hfunction

theorem foldlM_add_sameUnlessHandedOn
    (h : List.Forall₂ (Directive.SameUnlessHandedOn available) directives directives') :
    directives'.foldlM (add available) p = directives.foldlM (add available) p := by
  induction h generalizing p with
  | nil => rfl
  | cons hfirst _ ih =>
    rw [List.foldlM_cons, List.foldlM_cons, add_sameUnlessHandedOn hfirst]
    exact congrArg (add available p _ >>= ·) (funext fun _ => ih)

/-- A plan is made of what its directives are by themselves. It comes about exactly when every directive
that is not handed on is sound, and else it has the fault of the first one that is not. It has one
helper for each directive, in their order. What is shared and how helpers are wired would be the same
without the directives that are handed on, of which nothing but the name and the functions matters. -/
theorem ofDirectives_by_parts (available : String → Bool) (directives : List Directive) :
    ((∃ p, ofDirectives available directives = .ok p) ↔
      ∀ d ∈ directives, d.isHandedOn available = false → d.Sound) ∧
    (∀ fault, ofDirectives available directives = .error fault ↔
      ∃ before d after, directives = before ++ d :: after ∧
        (∀ earlier ∈ before, earlier.isHandedOn available = false → earlier.Sound) ∧
        d.isHandedOn available = false ∧ d.Faulty fault) ∧
    (∀ p, ofDirectives available directives = .ok p →
      List.Forall₂ (Helps available) directives p.helpers ∧
      ofDirectives available (directives.filter (!·.isHandedOn available)) =
        .ok ⟨p.resources, p.wirings.map .wiring⟩) ∧
    ∀ directives', List.Forall₂ (Directive.SameUnlessHandedOn available) directives directives' →
      ofDirectives available directives' = ofDirectives available directives :=
  ⟨exists_foldlM_add_iff, fun _ => ofDirectives_eq_error,
    fun _ h => ⟨forall₂_helps h, ofDirectives_filter h⟩, fun _ h => foldlM_add_sameUnlessHandedOn h⟩

/-- A directive that is not sound but handed on, between two that share a table. -/
theorem ofDirectives_by_parts_for_handedOn :
    let html := (Directive.ofName "escapeHtml").escape '<' "&lt;" |>.escape '&' "&amp;"
    let uri := { (Directive.ofName "escapeUri").function "goog.urlEncode" |>.function "encodeURIComponent" with
      nonAsciiLead := some "%", filter := some ⟨"a++", .plain⟩ }
    let angles := (Directive.ofName "escapeAngles").escape '<' "&lt;"
    let available := fun name => name = "encodeURIComponent"
    ¬uri.Sound ∧ ∃ p, ofDirectives available [html, uri, angles] = .ok p ∧
      List.Forall₂ (Helps available) [html, uri, angles] p.helpers ∧
      ofDirectives available [html, angles] = .ok ⟨p.resources, p.wirings.map .wiring⟩ := by
  intro html uri angles available
  obtain ⟨hexists, -, hcollected, -⟩ := ofDirectives_by_parts available [html, uri, angles]
  have hsound : ∀ d ∈ [html, uri, angles], d.isHandedOn available = false → d.Sound := by
    have huri : uri.isHandedOn available = true := by decide
    intro d hd hkept
    simp only [List.mem_cons, List.not_mem_nil, or_false] at hd
    rcases hd with rfl | rfl | rfl
    · exact ⟨⟨_, rfl⟩, nofun, rfl⟩
    · cases huri.symm.trans hkept
    · exact ⟨⟨_, rfl⟩, nofun, rfl⟩
  obtain ⟨p, hp⟩ := hexists.mpr hsound
  exact ⟨fun h => absurd h.lead nofun, p, hp, hcollected p hp⟩

end Plan
end Autoescape
