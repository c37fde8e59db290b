import Autoescape.Proofs.Symbols

/-!
# Spellings of a name that come to one owner

The name of an owner is in capitals, so it keeps neither the case of the first letter nor whether a later
word began with a capital or with an underscore and a small letter. Nothing else is lost: two directives
have the same owner exactly when their names differ in this only. Names in which the words begin with
capitals have owners of their own.
-/
namespace Autoescape.Text.Case

/-- The same letters behind the first one, but a word may begin with a capital on one side and with an
underscore and the small letter on the other. -/
inductive Alike : List Char → List Char → Prop where
  | nil : Alike [] []
  | same (c : Char) {s t : List Char} (h : Alike s t) : Alike (c :: s) (c :: t)
  | left {c : Char} {s t : List Char} (hc : c.isUpper = true) (h : Alike s t) :
      Alike (c :: s) ('_' :: c.toLower :: t)
  | right {c : Char} {s t : List Char} (hc : c.isUpper = true) (h : Alike s t) :
      Alike ('_' :: c.toLower :: s) (c :: t)

def SameWords : List Char → List Char → Prop
  | [], [] => True
  | c :: s, d :: t => c.toUpper = d.toUpper ∧ Alike s t
  | _, _ => False

/-- A name whose later words begin with capitals: the first letter is none, and no underscore stands
before a small letter. -/
structure Camel (s : List Char) : Prop where
  first : ∀ c ∈ s.head?, c.isUpper = false
  later : ∀ c, c.isLower = true → ¬['_', c] <:+: s

section Letters

variable {c d : Char}

theorem isIdentPart_of_isAlpha (h : c.isAlpha = true) : Registry.isIdentPart c = true := by
  simp [Registry.isIdentPart, Registry.isIdentStart, h]

/-- What holds of every capital can be checked one by one. -/
theorem forall_isUpper {p : Char → Prop} (h : ∀ n < 128, (Char.ofNat n).isUpper = true → p (Char.ofNat n))
    (hc : c.isUpper = true) : p c := by
  have hpart : Registry.isIdentPart c = true := isIdentPart_of_isAlpha (Bool.or_eq_true_iff.mpr (.inl hc))
  exact Registry.forall_isIdentPart (p := fun c => c.isUpper = true → p c) (fun n hn _ => h n hn) hpart hc

theorem toUpper_toLower (h : c.isUpper = true) : c.toLower.toUpper = c :=
  forall_isUpper (p := fun c => c.toLower.toUpper = c) (by decide) h

theorem isUpper_toLower (h : c.isUpper = true) : c.toLower.isUpper = false :=
  forall_isUpper (p := fun c => c.toLower.isUpper = false) (by decide) h

theorem isLower_toLower (h : c.isUpper = true) : c.toLower.isLower = true :=
  forall_isUpper (p := fun c => c.toLower.isLower = true) (by decide) h

/-- What is no capital can be told from its capital. -/
theorem eq_toLower_of_toUpper_eq (h : c.isUpper = false) (heq : c.toUpper = d) : c = d.toLower := by
  rw [← heq]
  cases hc : c.isLower with
  | true =>
    have hpart : Registry.isIdentPart c = true :=
      isIdentPart_of_isAlpha (Bool.or_eq_true_iff.mpr (.inr hc))
    exact Registry.forall_isIdentPart (p := fun c => c.isUpper = false → c = c.toUpper.toLower) (by decide)
      hpart h
  | false =>
    -- neither case: nothing is changed on either way
    have hupper : c.toUpper = c := dif_neg fun hrange => Bool.eq_false_iff.mp hc (Char.isLower_iff.mpr hrange)
    have hlower : c.toLower = c := dif_neg fun hrange => Bool.eq_false_iff.mp h (Char.isUpper_iff.mpr hrange)
    rw [hupper, hlower]

theorem eq_of_toUpper_eq (hc : c.isUpper = false) (hd : d.isUpper = false) (h : c.toUpper = d.toUpper) :
    c = d := by
  rw [eq_toLower_of_toUpper_eq hc h, ← eq_toLower_of_toUpper_eq hd rfl]

end Letters

def later (c : Char) : List Char := if c.isUpper then ['_', c] else [c.toUpper]

theorem underscored_cons (c : Char) (s : List Char) : underscored (c :: s) = c.toUpper :: s.flatMap later := rfl

section Later

variable {c : Char} {s t rest : List Char}

theorem later_of_isUpper (h : c.isUpper = true) : later c = ['_', c] := if_pos h

theorem later_of_not_isUpper (h : c.isUpper = false) : later c = [c.toUpper] := if_neg (by simp [h])

theorem later_toLower (h : c.isUpper = true) : later c.toLower = [c] := by
  rw [later_of_not_isUpper (isUpper_toLower h), toUpper_toLower h]

/-- A capital that no underscore stands before comes from the small letter. -/
theorem exists_of_flatMap_eq_cons (hc : c.isUpper = true) (h : s.flatMap later = c :: rest) :
    ∃ t, s = c.toLower :: t ∧ t.flatMap later = rest := by
  cases s with
  | nil => cases h
  | cons d t =>
    rw [List.flatMap_cons] at h
    cases hd : d.isUpper with
    | true =>
      rw [later_of_isUpper hd] at h
      obtain rfl := (List.cons.inj h).1
      exact absurd hc (by decide)
    | false =>
      rw [later_of_not_isUpper hd] at h
      obtain ⟨hfirst, hrest⟩ := List.cons.inj h
      exact ⟨t, by rw [eq_toLower_of_toUpper_eq hd hfirst], hrest⟩

theorem Alike.flatMap_eq (h : Alike s t) : s.flatMap later = t.flatMap later := by
  induction h with
  | nil => rfl
  | same c _ ih => rw [List.flatMap_cons, List.flatMap_cons, ih]
  | left hc _ ih => rw [List.flatMap_cons, List.flatMap_cons, List.flatMap_cons, later_toLower hc,
      later_of_isUpper hc, ih]; rfl
  | right hc _ ih => rw [List.flatMap_cons, List.flatMap_cons, List.flatMap_cons, later_toLower hc,
      later_of_isUpper hc, ih]; rfl

theorem alike_of_flatMap_eq {s t : List Char} (h : s.flatMap later = t.flatMap later) : Alike s t := by
  have hne (c : Char) : later c ≠ [] := by
    unfold later
    split <;> simp
  match s, t with
  | [], [] => exact .nil
  | [], d :: t => exact absurd (List.append_eq_nil_iff.mp h.symm).1 (hne d)
  | c :: s, [] => exact absurd (List.append_eq_nil_iff.mp h).1 (hne c)
  | c :: s, d :: t =>
    rw [List.flatMap_cons, List.flatMap_cons] at h
    cases hc : c.isUpper with
    | true =>
      cases hd : d.isUpper with
      | true =>
        rw [later_of_isUpper hc, later_of_isUpper hd] at h
        obtain ⟨rfl, hrest⟩ : c = d ∧ s.flatMap later = t.flatMap later := by simpa using h
        exact .same c (alike_of_flatMap_eq hrest)
      | false =>
        -- the underscore before the capital is the whole of the letter on the other side
        rw [later_of_isUpper hc, later_of_not_isUpper hd] at h
        obtain ⟨hunderscore, hrest⟩ : '_' = d.toUpper ∧ c :: s.flatMap later = t.flatMap later := by
          simpa using h
        obtain rfl : d = '_' := eq_toLower_of_toUpper_eq hd hunderscore.symm
        obtain ⟨t, rfl, hlater⟩ := exists_of_flatMap_eq_cons hc hrest.symm
        exact .left hc (alike_of_flatMap_eq hlater.symm)
    | false =>
      cases hd : d.isUpper with
      | true =>
        rw [later_of_not_isUpper hc, later_of_isUpper hd] at h
        obtain ⟨hunderscore, hrest⟩ : c.toUpper = '_' ∧ s.flatMap later = d :: t.flatMap later := by
          simpa using h
        obtain rfl : c = '_' := eq_toLower_of_toUpper_eq hc hunderscore
        obtain ⟨s, rfl, hlater⟩ := exists_of_flatMap_eq_cons hd hrest
        exact .right hd (alike_of_flatMap_eq hlater)
      | false =>
        rw [later_of_not_isUpper hc, later_of_not_isUpper hd] at h
        obtain ⟨hfirst, hrest⟩ : c.toUpper = d.toUpper ∧ s.flatMap later = t.flatMap later := by
          simpa using h
        obtain rfl := eq_of_toUpper_eq hc hd hfirst
        exact .same c (alike_of_flatMap_eq hrest)
termination_by s.length

/-- In capitals, names are the same exactly when they have the same words. -/
theorem underscored_eq_iff : underscored s = underscored t ↔ SameWords s t := by
  cases s with
  | nil => cases t <;> simp [underscored, SameWords]
  | cons c s =>
    cases t with
    | nil => simp [underscored, SameWords]
    | cons d t =>
      rw [underscored_cons, underscored_cons, List.cons.injEq]
      exact and_congr_right fun _ => ⟨alike_of_flatMap_eq, Alike.flatMap_eq⟩

end Later

/-! ### Names whose words begin with capitals -/

section Camel

variable {c : Char} {s t : List Char}

theorem Camel.of_notMem (hfirst : s.head?.any Char.isUpper = false) (h : '_' ∉ s) : Camel s where
  first c hc := by rwa [Option.mem_def.mp hc] at hfirst
  later _ _ hin := h (hin.subset List.mem_cons_self)

theorem Alike.eq_of_not_infix (hs : ∀ c, c.isLower = true → ¬['_', c] <:+: s)
    (ht : ∀ c, c.isLower = true → ¬['_', c] <:+: t) (h : Alike s t) : s = t := by
  induction h with
  | nil => rfl
  | same c _ ih =>
    rw [ih (fun c hc hin => hs c hc (List.infix_cons hin)) fun c hc hin => ht c hc (List.infix_cons hin)]
  | left hc _ _ => exact absurd (List.prefix_append _ _).isInfix (ht _ (isLower_toLower hc))
  | right hc _ _ => exact absurd (List.prefix_append _ _).isInfix (hs _ (isLower_toLower hc))

theorem Camel.eq_of_sameWords (hs : Camel s) (ht : Camel t) (h : SameWords s t) : s = t := by
  cases s with
  | nil =>
    cases t with
    | nil => rfl
    | cons => cases h
  | cons c s =>
    cases t with
    | nil => cases h
    | cons d t =>
      obtain ⟨hfirst, hlater⟩ := h
      obtain rfl := eq_of_toUpper_eq (hs.first c rfl) (ht.first d rfl) hfirst
      rw [hlater.eq_of_not_infix (fun e he hin => hs.later e he (List.infix_cons hin))
        fun e he hin => ht.later e he (List.infix_cons hin)]

end Camel

end Autoescape.Text.Case

namespace Autoescape.Directive
open Block Text.Case

/-- Directives have one owner, and one symbol of each kind for what they own, exactly when their names
have the same words. Names whose words begin with capitals have the same words only if they are the
same. -/
theorem owner_eq_iff_sameWords (d d' : Directive) :
    (d.owner = d'.owner ↔ SameWords d.identifier.toList d'.identifier.toList) ∧
      (∀ symbol ∈ [tableSymbol, replacerSymbol, matcherSymbol, filterSymbol],
        symbol d.owner = symbol d'.owner ↔ SameWords d.identifier.toList d'.identifier.toList) ∧
      (Camel d.identifier.toList → Camel d'.identifier.toList → d.owner = d'.owner →
        d.identifier = d'.identifier) := by
  have howner : d.owner = d'.owner ↔ SameWords d.identifier.toList d'.identifier.toList := by
    rw [owner, owner, String.ofList_inj, underscored_eq_iff]
  have hsubject (kind : Kind) :
      (⟨kind, d.owner⟩ : Subject).symbol = (⟨kind, d'.owner⟩ : Subject).symbol ↔ d.owner = d'.owner := by
    rw [Subject.symbol_injective.eq_iff, Subject.mk.injEq, eq_self_iff_true, true_and]
  refine ⟨howner, fun symbol hsymbol => ?_, fun h h' heq => ?_⟩
  · rw [← howner]
    simp only [List.mem_cons, List.not_mem_nil, or_false] at hsymbol
    rcases hsymbol with rfl | rfl | rfl | rfl
    · exact hsubject .table
    · exact hsubject .replacer
    · exact hsubject .matcher
    · exact hsubject .filter
  · exact String.toList_inj.mp (h.eq_of_sameWords h' (howner.mp heq))

theorem owners_differ_for_escapeHtml_and_escapeUri :
    let d := Directive.ofName "escapeHtml"
    let d' := Directive.ofName "escapeUri"
    Camel d.identifier.toList ∧ Camel d'.identifier.toList ∧ d.owner ≠ d'.owner := by
  intro d d'
  have h : Camel d.identifier.toList := .of_notMem (by decide +kernel) (by decide +kernel)
  have h' : Camel d'.identifier.toList := .of_notMem (by decide +kernel) (by decide +kernel)
  exact ⟨h, h', fun heq => absurd ((owner_eq_iff_sameWords d d').2.2 h h' heq) (by decide +kernel)⟩

/-- Two names that pass the check and differ in spelling. Each directive has a table and a matcher of its
own, but they have one label. -/
theorem two_spellings_have_one_owner :
    let d := (Directive.ofName "escapeHtml").escape '<' "&lt;"
    let d' := (Directive.ofName "escape_html").escape '>' "&gt;"
    Registry.vetNames "escapers.json" d = .ok () ∧ Registry.vetNames "escapers.json" d' = .ok () ∧
      d.identifier ≠ d'.identifier ∧ d.owner = d'.owner ∧
      ∃ p, Plan.ofDirectives (fun _ => false) [d, d'] = .ok p ∧
        p.resources.tables.map (fun s => (s.label, s.value.entries)) =
          [("ESCAPE_HTML", [('<', "&lt;")]), ("ESCAPE_HTML", [('>', "&gt;")])] ∧
        p.resources.matchers.map (fun s => (s.label, s.value)) =
          [("ESCAPE_HTML", "/[\\x3c]/g"), ("ESCAPE_HTML", "/[\\x3e]/g")] := by
  exact ⟨by decide +kernel, by decide +kernel, by decide +kernel, by decide +kernel, _, rfl,
    by decide +kernel, by decide +kernel⟩

end Autoescape.Directive
