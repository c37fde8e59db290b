import Autoescape.Proofs.Names
import Autoescape.Proofs.Provenance
import Mathlib.Data.List.Nodup

/-!
# Labels tell owners apart

A label joins the names of the owners with a separator that is no reserved word: names may begin or
end with an underscore and may hold the letters of the separator. As long as no name has two
underscores side by side, the names can still be told from their label, so no two values of a pool
have the same one.
-/
namespace Autoescape

def Undoubled (name : String) : Prop := ¬['_', '_'] <:+: name.toList

instance (name : String) : Decidable (Undoubled name) := inferInstanceAs (Decidable (¬_))

namespace Shared

def separator : List Char := ['_', '_', 'A', 'N', 'D', '_', '_']

section Separator

variable {name name' rest rest' : List Char}

/-- Of two separators in a text, one cannot begin inside the other: were it moved by one place, a
letter would fall on an underscore, and were it moved further, a name would hold two underscores. -/
theorem eq_nil_of_separator_eq (hname : ¬['_', '_'] <:+: name)
    (h : separator ++ rest = name ++ (separator ++ rest')) : name = [] := by
  match name with
  | [] => rfl
  | [first] =>
    rw [separator] at h
    simp at h
  | first :: second :: name =>
    obtain ⟨rfl, rfl, -⟩ : '_' = first ∧ '_' = second ∧ _ := by
      simpa only [separator, List.cons_append, List.cons.injEq] using h
    exact absurd ⟨[], name, rfl⟩ hname

theorem separator_append_inj (hname : ¬['_', '_'] <:+: name) (hname' : ¬['_', '_'] <:+: name')
    (h : name ++ (separator ++ rest) = name' ++ (separator ++ rest')) : name = name' ∧ rest = rest' := by
  have hequal {a b tail : List Char} (hb : ¬['_', '_'] <:+: b) (heq : b = a ++ tail)
      {s t : List Char} (hst : separator ++ s = tail ++ (separator ++ t)) : tail = [] :=
    eq_nil_of_separator_eq (fun htail => hb (heq ▸ htail.trans (List.suffix_append a tail).isInfix)) hst
  rcases List.append_eq_append_iff.mp h with ⟨tail, heq, hst⟩ | ⟨tail, heq, hst⟩
  · obtain rfl := hequal hname' heq hst
    exact ⟨by simpa using heq.symm, by simpa using hst⟩
  · obtain rfl := hequal hname heq hst
    exact ⟨by simpa using heq, by simpa using hst.symm⟩

theorem ne_append_separator (hname : ¬['_', '_'] <:+: name) : name ≠ name' ++ (separator ++ rest) := by
  rintro rfl
  exact hname ⟨name', ['A', 'N', 'D', '_', '_'] ++ rest, by simp [separator]⟩

/-- Names without doubled underscores can be told from their joined text. -/
theorem intercalate_inj {names names' : List (List Char)}
    (h : ∀ name ∈ names, name ≠ [] ∧ ¬['_', '_'] <:+: name)
    (h' : ∀ name ∈ names', name ≠ [] ∧ ¬['_', '_'] <:+: name)
    (heq : separator.intercalate names = separator.intercalate names') : names = names' := by
  induction names generalizing names' with
  | nil =>
    match names' with
    | [] => rfl
    | [only] => exact absurd (by simpa using heq.symm) (h' only List.mem_cons_self).1
    | first :: second :: rest =>
      rw [List.intercalate_cons_cons] at heq
      simp [separator] at heq
  | cons first names ih =>
    rcases List.forall_mem_cons.mp h with ⟨hfirst, hrest⟩
    match names, names' with
    | [], [] => exact absurd (by simpa using heq) hfirst.1
    | _ :: _, [] =>
      rw [List.intercalate_cons_cons] at heq
      simp [separator] at heq
    | [], [only] => simpa using heq
    | [], first' :: _ :: _ =>
      rw [List.intercalate_singleton, List.intercalate_cons_cons, List.append_assoc] at heq
      exact absurd heq (ne_append_separator hfirst.2)
    | _ :: _, [only] =>
      rw [List.intercalate_singleton, List.intercalate_cons_cons, List.append_assoc] at heq
      exact absurd heq.symm (ne_append_separator (h' only List.mem_cons_self).2)
    | second :: names, first' :: second' :: names' =>
      rw [List.intercalate_cons_cons, List.intercalate_cons_cons, List.append_assoc, List.append_assoc] at heq
      rcases List.forall_mem_cons.mp h' with ⟨hfirst', hrest'⟩
      rcases separator_append_inj hfirst.2 hfirst'.2 heq with ⟨rfl, hlater⟩
      rw [ih hrest hrest' hlater]

end Separator

variable {α : Type} {s t : Shared α}

/-- The owners of a value are names that are not empty and have no doubled underscores. -/
def Legible (s : Shared α) : Prop := ∀ owner ∈ s.owners, owner ≠ "" ∧ Undoubled owner

theorem owners_eq_of_label_eq (hs : s.Legible) (ht : t.Legible) (h : s.label = t.label) :
    s.owners = t.owners := by
  have hnames {u : Shared α} (hu : u.Legible) :
      ∀ name ∈ u.owners.map String.toList, name ≠ [] ∧ ¬['_', '_'] <:+: name := by
    intro name hname
    rcases List.mem_map.mp hname with ⟨owner, howner, rfl⟩
    exact ⟨by simpa using (hu owner howner).1, (hu owner howner).2⟩
  have htext : separator.intercalate (s.owners.map String.toList)
      = separator.intercalate (t.owners.map String.toList) := by
    have h := congrArg String.toList h
    rwa [label, label, String.toList_intercalate, String.toList_intercalate] at h
  exact (List.map_injective_iff.mpr fun _ _ => String.toList_inj.mp) (intercalate_inj (hnames hs) (hnames ht) htext)

end Shared

/-- A pool in which nobody owns two values has a label for each value. -/
theorem Pool.nodup_labels {α : Type} {pool : Pool α} (hlegible : ∀ s ∈ pool, s.Legible)
    (howned : ∀ s ∈ pool, s.owners ≠ []) (h : pool.allOwners.Nodup) : (pool.map Shared.label).Nodup := by
  rw [List.Nodup, List.pairwise_map]
  refine (List.nodup_flatMap.mp h).2.imp_of_mem fun hs ht hdisjoint heq => ?_
  have howners := Shared.owners_eq_of_label_eq (hlegible _ hs) (hlegible _ ht) heq
  rcases List.exists_mem_of_ne_nil _ (howned _ hs) with ⟨owner, howner⟩
  exact hdisjoint howner (howners ▸ howner)

theorem Registry.owner_ne_empty {path : String} {d : Directive} (h : vetNames path d = .ok ()) :
    d.owner ≠ "" := by
  have hident := (vetNames_eq_ok.mp h).1
  intro howner
  cases hname : d.identifier.toList with
  | nil => simp [hname, isIdent] at hident
  | cons c rest => simp [Directive.owner, hname, Text.Case.underscored] at howner

namespace Plan

variable {available : String → Bool} {directives : List Directive} {p : Plan}

/-- Each table has a label of its own, each matcher, and each filter. -/
structure Labelled (r : Resources) : Prop where
  tables : (r.tables.map Shared.label).Nodup
  matchers : (r.matchers.map Shared.label).Nodup
  filters : (r.filters.map Shared.label).Nodup

theorem labelled_ofDirectives (hvet : ∀ d ∈ directives, ∃ path, Registry.vetNames path d = .ok ())
    (hundoubled : ∀ d ∈ directives, Undoubled d.owner) (hnodup : (directives.map Directive.owner).Nodup)
    (h : ofDirectives available directives = .ok p) : Labelled p.resources := by
  let q : Resources.Traits :=
    { owner := fun owner => owner ≠ "" ∧ Undoubled owner,
      table := fun _ => True, matcher := fun _ => True, filter := fun _ => True }
  have hbrings (d : Directive) (hd : d ∈ directives) : d.Brings q := by
    rcases hvet d hd with ⟨path, hvet⟩
    exact ⟨⟨Registry.owner_ne_empty hvet, hundoubled d hd⟩, fun _ _ => trivial, fun _ _ => trivial,
      fun _ _ _ _ => trivial⟩
  have hhave := have_ofDirectives (q := q) (fun _ _ _ _ => trivial) (fun d hd _ => hbrings d hd) h
  have howned := ownedBy_ofDirectives h
  have hone {owners : List String} (h : owners.Subperm (directives.map Directive.owner)) : owners.Nodup := by
    rcases h with ⟨l, hperm, hsublist⟩
    exact hperm.nodup_iff.mp (hsublist.nodup hnodup)
  exact ⟨Pool.nodup_labels (fun s hs => (hhave.tables s hs).owners) (fun s hs => (hhave.tables s hs).owned)
      (hone howned.tables),
    Pool.nodup_labels (fun s hs => (hhave.matchers s hs).owners) (fun s hs => (hhave.matchers s hs).owned)
      (hone howned.matchers),
    Pool.nodup_labels (fun s hs => (hhave.filters s hs).owners) (fun s hs => (hhave.filters s hs).owned)
      (hone howned.filters)⟩

end Plan
end Autoescape
