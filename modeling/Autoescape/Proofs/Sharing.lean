import Autoescape.Proofs.CharClass.Reader
import Autoescape.Proofs.Plan
import Autoescape.Text.Units

/-!
# Sharing changes no directive

A wiring points to a table and a matcher that other directives may have joined before and after
it. `sharing_keeps_directives` says that they still do for the directive what its own escapes
say: the matcher accepts its characters only, the table gives them its texts, and so replacing
what the matcher accepts by what the table gives is the directive's own substitution.
-/
namespace Autoescape

def Text.Units.char? (u : UInt16) : Option Char :=
  if isHigh u || isLow u then none else some (Char.ofNat u.toNat)

theorem Text.Units.char?_eq_some_iff (u : UInt16) (c : Char) :
    char? u = some c ↔ c.toNat = u.toNat := by
  have hu := u.toNat_lt
  unfold char? isHigh isLow
  split
  · next hpair =>
    have hc := toNat_bounds c
    simp only [Bool.or_eq_true, Bool.and_eq_true, decide_eq_true_eq] at hpair
    simp only [reduceCtorEq, false_iff]
    omega
  · next hsingle =>
    simp only [Bool.or_eq_true, Bool.and_eq_true, decide_eq_true_eq] at hsingle
    have hvalid : u.toNat.isValidChar := by
      simp only [Nat.isValidChar]
      omega
    have hnumber : (Char.ofNat u.toNat).toNat = u.toNat := by
      rw [Char.ofNat, dif_pos hvalid]
      rfl
    rw [Option.some.injEq]
    constructor
    · rintro rfl
      exact hnumber
    · intro heq
      rw [← heq, Char.ofNat_toNat]

def Table.replacement? (t : Table) (u : UInt16) : Option (List UInt16) := do
  let text ← t.get? (← Text.Units.char? u)
  return Text.Units.encode text.toList

def replaceUnit? (k : Literal.CharClass.Class) (t : Table) (u : UInt16) : Option (List UInt16) :=
  if k.accepts u then t.replacement? u else some [u]

/-- Replaces every unit that a class accepts by what a table gives for it, if it gives something
for each of them. -/
def replaceMatched? (k : Literal.CharClass.Class) (t : Table) : List UInt16 → Option (List UInt16)
  | [] => some []
  | u :: rest => do return (← replaceUnit? k t u) ++ (← replaceMatched? k t rest)

/-- Replaces every unit that a directive escapes by the directive's own text for it. -/
def Directive.substitute (d : Directive) (units : List UInt16) : List UInt16 :=
  units.flatMap fun u => match d.escapes.find? fun e => e.plain.toNat = u.toNat with
    | some e => Text.Units.encode e.escaped.toList
    | none => [u]

/-- A class that accepts a directive's characters and a table that gives its texts for them
together do what the directive says. -/
theorem replaceMatched?_eq_substitute {k : Literal.CharClass.Class} {t : Table} {d : Directive}
    (haccepts : ∀ u : UInt16, k.accepts u = true ↔ ∃ e ∈ d.escapes, e.plain.toNat = u.toNat)
    (hgives : ∀ e ∈ d.escapes, t.get? e.plain = some e.escaped) (units : List UInt16) :
    replaceMatched? k t units = some (d.substitute units) := by
  induction units with
  | nil => rfl
  | cons u rest ih =>
    have hfirst : replaceUnit? k t u = some (d.substitute [u]) := by
      cases hfind : d.escapes.find? fun e => e.plain.toNat = u.toNat with
      | some e =>
        have he : e ∈ d.escapes := List.mem_of_find?_eq_some hfind
        have hplain : e.plain.toNat = u.toNat := by simpa using List.find?_some hfind
        have hchar := (Text.Units.char?_eq_some_iff u e.plain).mpr hplain
        rw [replaceUnit?, if_pos ((haccepts u).mpr ⟨e, he, hplain⟩)]
        simp [Table.replacement?, hchar, hgives e he, Directive.substitute, hfind]
      | none =>
        have hnot : ¬k.accepts u = true := by
          rw [haccepts]
          simpa using hfind
        rw [replaceUnit?, if_neg hnot]
        simp [Directive.substitute, hfind]
    rw [replaceMatched?, hfirst, ih]
    simp [Directive.substitute]

namespace Plan
open Literal

variable {available : String → Bool}

/-- A wiring that has the places that a directive needs: none when the directive has no table, and
else that of a table that gives the directive's texts and that of the matcher of its characters. -/
structure Serves (r : Resources) (d : Directive) (w : Wiring) : Prop where
  directive : w.directive = d.identifier
  bare : d.escapes = [] → w.table = none ∧ w.matcher = none
  escaping : d.escapes ≠ [] → ∃ own : Table,
    (∀ c text, own.get? c = some text ↔ ⟨c, text⟩ ∈ d.escapes) ∧
    (∀ e ∈ d.escapes, e.plain.toNat ≤ 0xFFFF) ∧
    (∃ i s, w.table = some i ∧ r.tables[i]? = some s ∧ own.Within s.value) ∧
    ∃ j m, w.matcher = some j ∧ r.matchers[j]? = some m ∧ m.value = CharClass.matcher own.keys

theorem Serves.mono {r r' : Resources} {d : Directive} {w : Wiring} (hgrow : r.Grow r')
    (h : Serves r d w) : Serves r' d w := by
  refine ⟨h.directive, h.bare, fun hne => ?_⟩
  obtain ⟨own, hown, hunits, ⟨i, s, hi, hs, hwithin⟩, j, m, hj, hm, hvalue⟩ := h.escaping hne
  obtain ⟨s', hs', -, hwithin'⟩ := hgrow.tables i s hs
  obtain ⟨m', hm', -, hvalue'⟩ := hgrow.matchers j m hm
  exact ⟨own, hown, hunits, ⟨i, s', hi, hs', hwithin.trans hwithin'⟩, j, m', hj, hm',
    hvalue'.symm.trans hvalue⟩

theorem within_addTable (r : Resources) (owner : String) (t : Table) :
    ∃ s, (r.addTable owner t).1.tables[(r.addTable owner t).2.1]? = some s ∧ t.Within s.value := by
  refine ⟨_, (Pool.getElem?_place _ _ t owner r.tables _).trans (if_pos rfl), ?_⟩
  cases r.tables[(r.addTable owner t).2.1]? with
  | none => exact Table.Within.refl t
  | some s => exact Table.within_merge_right t s.value

theorem serves_wire {r r' : Resources} {d : Directive} {w : Wiring} (h : wire r d = .ok (r', w)) :
    Serves r' d w := by
  obtain ⟨mid, htable, hfilter, -, hdirective, -⟩ := wire_eq_ok.mp h
  -- the table and the matcher are placed before the filter, which only adds
  suffices hmid : Serves mid d w from hmid.mono (grow_addFilter hfilter)
  rcases addTable_eq_ok.mp htable with ⟨hnone, -, ht, hm⟩ | ⟨own, hown, rfl, ht, hm⟩
  · refine ⟨hdirective, fun _ => ⟨ht, hm⟩, fun hne => ?_⟩
    rcases Directive.table?_eq_ok hnone with ⟨hempty, -⟩ | ⟨t, ht, -⟩
    · exact absurd hempty hne
    · cases ht
  · rcases Directive.table?_eq_ok hown with ⟨-, hnone⟩ | ⟨t, heq, hne, hget, hunits⟩
    · cases hnone
    · obtain rfl : own = t := Option.some.inj heq
      refine ⟨hdirective, fun hempty => absurd hempty hne, fun _ => ⟨own, hget, hunits, ?_, ?_⟩⟩
      · obtain ⟨s, hs, hwithin⟩ := within_addTable r d.owner own
        exact ⟨_, s, ht, hs, hwithin⟩
      · obtain ⟨m, hm', hvalue⟩ := Pool.getElem?_share (CharClass.matcher own.keys) d.owner r.matchers
        exact ⟨_, m, hm, hm', hvalue⟩

/-- What a wiring does for its directive. Without escapes it has no table and no matcher. With
escapes, the matcher at its place accepts the directive's own characters and no other unit, the
table at its place gives them the directive's own texts, and replacing by both is the directive's
own substitution. -/
structure Keeps (r : Resources) (d : Directive) (w : Wiring) : Prop where
  directive : w.directive = d.identifier
  bare : d.escapes = [] → w.table = none ∧ w.matcher = none
  escaping : d.escapes ≠ [] → ∃ i j s m k, w.table = some i ∧ w.matcher = some j ∧
    r.tables[i]? = some s ∧ r.matchers[j]? = some m ∧ CharClass.read? m.value = some k ∧
    (∀ u : UInt16, k.accepts u = true ↔ ∃ e ∈ d.escapes, e.plain.toNat = u.toNat) ∧
    (∀ e ∈ d.escapes, s.value.get? e.plain = some e.escaped) ∧
    ∀ units, replaceMatched? k s.value units = some (d.substitute units)

/-- In a finished plan every directive that is not handed on has a wiring that does what the
directive says, whoever else joined its table or its matcher, before it or after it. -/
theorem sharing_keeps_directives {directives : List Directive} {p : Plan}
    (h : ofDirectives available directives = .ok p) :
    List.Forall₂ (fun d helper => standIn? available d = none →
      ∃ w, helper = .wiring w ∧ Keeps p.resources d w) directives p.helpers := by
  have hserves := forall₂_helpers (fun r d helper => standIn? available d = none →
      ∃ w, helper = .wiring w ∧ Serves r d w)
    (fun hgrow hw hnone => (hw hnone).imp fun w hw => ⟨hw.1, hw.2.mono hgrow⟩)
    (fun r d function hsome hnone => by simp [hnone] at hsome)
    (fun r r' d w _ hwire _ => ⟨w, rfl, serves_wire hwire⟩) h
  refine hserves.imp fun d helper hw hnone => ?_
  obtain ⟨w, rfl, hdirective, hbare, hescaping⟩ := hw hnone
  refine ⟨w, rfl, ⟨hdirective, hbare, fun hne => ?_⟩⟩
  obtain ⟨own, hown, hunits, ⟨i, s, hi, hs, hwithin⟩, j, m, hj, hm, hvalue⟩ := hescaping hne
  have hkeys (c : Char) : c ∈ own.keys ↔ ∃ e ∈ d.escapes, e.plain = c := by
    rw [Table.mem_keys_iff]
    constructor
    · rintro ⟨text, htext⟩
      exact ⟨⟨c, text⟩, (hown c text).mp htext, rfl⟩
    · rintro ⟨e, he, rfl⟩
      exact ⟨e.escaped, (hown e.plain e.escaped).mpr he⟩
  have hsmall (c : Char) (hc : c ∈ own.keys) : c.toNat ≤ 0xFFFF := by
    obtain ⟨e, he, rfl⟩ := (hkeys c).mp hc
    exact hunits e he
  obtain ⟨k, hk, haccepts⟩ := CharClass.accepts_matcher hsmall
  have haccepts (u : UInt16) : k.accepts u = true ↔ ∃ e ∈ d.escapes, e.plain.toNat = u.toNat := by
    simp only [haccepts, hkeys, exists_exists_and_eq_and]
  have hgives (e : Escape) (he : e ∈ d.escapes) : s.value.get? e.plain = some e.escaped :=
    hwithin _ _ ((hown e.plain e.escaped).mpr he)
  exact ⟨i, j, s, m, k, hi, hj, hs, hm, hvalue ▸ hk, haccepts, hgives,
    replaceMatched?_eq_substitute haccepts hgives⟩

/-- Two directives that share a table, although each has a character that the other has not. -/
theorem sharing_keeps_escapeHtml_and_escapeAngles :
    ∃ p, ofDirectives (fun _ => false)
        [(Directive.ofName "escapeHtml").escape '<' "&lt;" |>.escape '&' "&amp;",
          (Directive.ofName "escapeAngles").escape '<' "&lt;" |>.escape '>' "&gt;"] = .ok p ∧
      p.resources.tables.length = 1 ∧
      List.Forall₂ (fun d helper => standIn? (fun _ => false) d = none →
        ∃ w, helper = .wiring w ∧ Keeps p.resources d w)
        [(Directive.ofName "escapeHtml").escape '<' "&lt;" |>.escape '&' "&amp;",
          (Directive.ofName "escapeAngles").escape '<' "&lt;" |>.escape '>' "&gt;"] p.helpers :=
  ⟨_, rfl, rfl, sharing_keeps_directives rfl⟩

end Plan
end Autoescape
