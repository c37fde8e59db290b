import Autoescape.Proofs.Names
import Autoescape.Regex.Automaton

/-!
# What engines promise

Where a simple expression is found is told by a relation on a text that is cut in three
(`Expr.Matches`). A documented engine finds every expression there, and refuses none but for its size.
The automaton is such an engine: its table of places is a recursion on the items and the subject
(`reaches`), and the items of an expression reach over what the expression matches.
-/
namespace Autoescape.Regex

def wordCharacters : Set Char := Set.Icc 'A' 'Z' ∪ Set.Icc 'a' 'z' ∪ Set.Icc '0' '9' ∪ {'_'}

def IsWord (w : List Char) : Prop := w ≠ [] ∧ ∀ c ∈ w, c ∈ wordCharacters

/-- Expressions of anchors, escaped texts and words. -/
inductive Expr where
  | start
  | finish
  | literal (text : String)
  | word
  | append (e f : Expr)
  | group (e : Expr)

namespace Expr

def text [Engine] : Expr → String
  | .start => "^"
  | .finish => "$"
  | .literal text => Engine.escape text
  | .word => "[A-Za-z0-9_]+"
  | .append e f => e.text ++ f.text
  | .group e => "(?:" ++ e.text ++ ")"

/-- How deep the syntax tree of an expression is at most. The repetition of a class of several ranges
is three levels below the sequence that it stands in. -/
def depth : Expr → Nat
  | .start | .finish | .literal _ => 1
  | .word => 4
  | .append e f => max e.depth f.depth
  | .group e => e.depth + 2

/-- The expression matches `mid` where it stands between `before` and `after`. -/
def Matches : Expr → (before mid after : List Char) → Prop
  | .start, before, mid, _ => before = [] ∧ mid = []
  | .finish, _, mid, after => mid = [] ∧ after = []
  | .literal text, _, mid, _ => mid = text.toList
  | .word, _, mid, _ => IsWord mid
  | .append e f, before, mid, after =>
    ∃ left right, mid = left ++ right ∧ e.Matches before left (right ++ after) ∧
      f.Matches (before ++ left) right after
  | .group e, before, mid, after => e.Matches before mid after

def Found (e : Expr) (subject : String) : Prop :=
  ∃ before mid after, subject.toList = before ++ (mid ++ after) ∧ e.Matches before mid after

end Expr

def nestLimit : Nat := 250

/-- An engine that keeps to its documentation. What it compiled it finds where the expression matches,
and an expression that is not nested too deep is refused for the size of what it compiles to only. -/
structure Engine.Documented [Engine] : Prop where
  found : ∀ (e : Expr) (compiled : Compiled), compile e.text = .ok compiled →
    ∀ subject, compiled.isMatch subject = true ↔ e.Found subject
  refused : ∀ (e : Expr) (error : Error), e.depth ≤ nestLimit → compile e.text = .error error →
    ∃ limit, error = .tooBig limit

namespace Automaton

variable {c : Char}

/-! ### Reading an expression -/

theorem step_plain {read : List Item} (hc : isMeta c = false) :
    Reading.step ⟨.plain, read⟩ c = ⟨.plain, .character c :: read⟩ := by
  unfold Reading.step
  dsimp only
  split
  all_goals first
    | exact absurd hc (by decide)
    | rfl

theorem foldl_step_escape (text : String) (read : List Item) :
    (escape text).toList.foldl Reading.step ⟨.plain, read⟩
      = ⟨.plain, (text.toList.map .character).reverse ++ read⟩ := by
  rw [escape, String.toList_ofList]
  induction text.toList generalizing read with
  | nil => rfl
  | cons c text ih =>
    rw [List.flatMap_cons, List.foldl_append]
    have hfirst : (if isMeta c then ['\\', c] else [c]).foldl Reading.step ⟨.plain, read⟩
        = ⟨.plain, .character c :: read⟩ := by
      cases hc : isMeta c with
      | false => exact step_plain hc
      | true => rfl
    rw [hfirst, ih]
    simp

end Automaton

def Expr.items : Expr → List Automaton.Item
  | .start => [.start]
  | .finish => [.finish]
  | .literal text => text.toList.map .character
  | .word => [.word]
  | .append e f => e.items ++ f.items
  | .group e => e.items

namespace Automaton

variable {items : List Item} {atStart : Bool} {before rest : List Char} {c : Char}

theorem foldl_step_text (e : Expr) (read : List Item) :
    e.text.toList.foldl Reading.step ⟨.plain, read⟩ = ⟨.plain, e.items.reverse ++ read⟩ := by
  induction e generalizing read with
  | start => rfl
  | finish => rfl
  | literal text => exact foldl_step_escape text read
  | word => rfl
  | append e f he hf =>
    rw [Expr.text, String.toList_append, List.foldl_append, he, hf]
    simp [Expr.items]
  | group e ih =>
    rw [Expr.text, String.toList_append, String.toList_append, List.foldl_append, List.foldl_append]
    change ([')'].foldl Reading.step (e.text.toList.foldl Reading.step ⟨.plain, read⟩)) = _
    rw [ih]
    rfl

theorem items_text (e : Expr) : Automaton.items e.text = e.items := by
  simp [Automaton.items, foldl_step_text]

/-! ### The table of places -/

/-- Whether some items are found one behind the other from the beginning of a rest on. -/
def reaches (atStart : Bool) (items : List Item) (rest : List Char) : Bool :=
  (places atStart rest items).headD false

theorem places_nil (atStart : Bool) (items : List Item) :
    places atStart [] items = [reaches atStart items []] := by
  cases items with
  | nil => rfl
  | cons item items => cases item <;> rfl

theorem places_cons (atStart : Bool) (c : Char) (rest : List Char) (items : List Item) :
    places atStart (c :: rest) items = reaches atStart items (c :: rest) :: places false rest items := by
  induction items with
  | nil => rfl
  | cons item items ih =>
    change item.extend atStart (c :: rest) (places atStart (c :: rest) items)
      = (item.extend atStart (c :: rest) (places atStart (c :: rest) items)).headD false :: _
    rw [ih]
    rfl

/-- At a character the table asks for the item there and then for the rest behind it. -/
theorem reaches_cons_cons (item : Item) :
    reaches atStart (item :: items) (c :: rest) =
      (item.extend atStart (c :: rest) (reaches atStart items (c :: rest) :: places false rest items)).headD
        false := by
  rw [← places_cons]
  rfl

theorem reaches_start : reaches atStart (.start :: items) rest = (atStart && reaches atStart items rest) := by
  cases rest with
  | nil => rfl
  | cons c rest =>
    rw [reaches_cons_cons]
    rfl

theorem reaches_finish :
    reaches atStart (.finish :: items) rest = (rest.isEmpty && reaches atStart items rest) := by
  cases rest with
  | nil => rfl
  | cons c rest =>
    rw [reaches_cons_cons]
    rfl

theorem reaches_character_cons {own : Char} :
    reaches atStart (.character own :: items) (c :: rest) = (c = own && reaches false items rest) := by
  rw [reaches_cons_cons]
  rfl

theorem reaches_word_cons : reaches atStart (.word :: items) (c :: rest)
    = (isWord c && (reaches false items rest || reaches false (.word :: items) rest)) := by
  rw [reaches_cons_cons]
  rfl

/-! ### What items reach over -/

theorem isWord_iff : isWord c = true ↔ c ∈ wordCharacters := by
  simp [isWord, wordCharacters, Char.isAlphanum_iff, or_comm]

theorem reaches_characters {text : List Char} :
    reaches before.isEmpty (text.map .character ++ items) rest = true ↔
      ∃ after, rest = text ++ after ∧ reaches (before ++ text).isEmpty items after = true := by
  induction text generalizing before rest with
  | nil => simp
  | cons own text ih =>
    cases rest with
    | nil => simp [reaches, places, Item.extend]
    | cons c rest =>
      have hbehind : (before ++ [own]).isEmpty = false := by simp
      rw [List.map_cons, List.cons_append, reaches_character_cons, ← hbehind, Bool.and_eq_true, ih]
      simp [and_assoc]

/-- A run of word characters takes one and then more of them, or nothing else. -/
theorem reaches_word :
    reaches atStart (.word :: items) rest = true ↔
      ∃ w after, rest = w ++ after ∧ IsWord w ∧ reaches false items after = true := by
  induction rest generalizing atStart with
  | nil =>
    refine iff_of_false (by simp [reaches, places, Item.extend]) ?_
    rintro ⟨w, after, hrest, ⟨hne, -⟩, -⟩
    exact hne (List.append_eq_nil_iff.mp hrest.symm).1
  | cons c rest ih =>
    rw [reaches_word_cons, Bool.and_eq_true, Bool.or_eq_true, isWord_iff, ih]
    constructor
    · rintro ⟨hc, hrest | ⟨w, after, rfl, hw, hafter⟩⟩
      · exact ⟨[c], rest, rfl, ⟨nofun, by simpa using hc⟩, hrest⟩
      · exact ⟨c :: w, after, rfl, ⟨nofun, List.forall_mem_cons.mpr ⟨hc, hw.2⟩⟩, hafter⟩
    · rintro ⟨w, after, hrest, ⟨hne, hw⟩, hafter⟩
      obtain ⟨d, w, rfl⟩ := List.exists_cons_of_ne_nil hne
      obtain ⟨rfl, rfl⟩ := List.cons.inj hrest
      obtain ⟨hd, hw⟩ := List.forall_mem_cons.mp hw
      refine ⟨hd, ?_⟩
      by_cases hmore : w = []
      · exact .inl (by simpa [hmore] using hafter)
      · exact .inr ⟨w, after, rfl, ⟨hmore, hw⟩, hafter⟩

/-- The items of an expression reach over what the expression matches, and what stands behind them is
asked for there. -/
theorem reaches_items_append {e : Expr} :
    reaches before.isEmpty (e.items ++ items) rest = true ↔
      ∃ mid after, rest = mid ++ after ∧ e.Matches before mid after ∧
        reaches (before ++ mid).isEmpty items after = true := by
  -- what stands behind is kept open: in a sequence the second part stands behind the first
  induction e generalizing before rest items with
  | start =>
    rw [Expr.items, List.singleton_append, reaches_start, Bool.and_eq_true, List.isEmpty_iff]
    constructor
    · rintro ⟨rfl, hrest⟩
      exact ⟨[], rest, rfl, ⟨rfl, rfl⟩, hrest⟩
    · rintro ⟨_, after, rfl, ⟨rfl, rfl⟩, hafter⟩
      exact ⟨rfl, hafter⟩
  | finish =>
    rw [Expr.items, List.singleton_append, reaches_finish, Bool.and_eq_true, List.isEmpty_iff]
    constructor
    · rintro ⟨rfl, hrest⟩
      exact ⟨[], [], rfl, ⟨rfl, rfl⟩, by simpa using hrest⟩
    · rintro ⟨_, _, rfl, ⟨rfl, rfl⟩, hafter⟩
      exact ⟨rfl, by simpa using hafter⟩
  | literal text =>
    rw [Expr.items, reaches_characters]
    constructor
    · rintro ⟨after, rfl, hafter⟩
      exact ⟨_, after, rfl, rfl, hafter⟩
    · rintro ⟨_, after, rfl, rfl, hafter⟩
      exact ⟨after, rfl, hafter⟩
  | word =>
    have hbehind {w : List Char} (hw : IsWord w) : (before ++ w).isEmpty = false := by simp [hw.1]
    rw [Expr.items, List.singleton_append, reaches_word]
    constructor
    · rintro ⟨w, after, rfl, hw, hafter⟩
      exact ⟨w, after, rfl, hw, by rwa [hbehind hw]⟩
    · rintro ⟨w, after, rfl, hw, hafter⟩
      exact ⟨w, after, rfl, hw, by rwa [hbehind hw] at hafter⟩
  | append e f he hf =>
    rw [Expr.items, List.append_assoc, he]
    constructor
    · rintro ⟨left, _, rfl, hleft, hrest⟩
      obtain ⟨right, after, rfl, hright, hafter⟩ := hf.mp hrest
      refine ⟨left ++ right, after, by simp, ⟨left, right, rfl, hleft, hright⟩, ?_⟩
      rwa [← List.append_assoc]
    · rintro ⟨_, after, rfl, ⟨left, right, rfl, hleft, hright⟩, hafter⟩
      refine ⟨left, right ++ after, by simp, hleft, hf.mpr ⟨right, after, rfl, hright, ?_⟩⟩
      rwa [List.append_assoc]
  | group e ih => exact ih

/-! ### Searching -/

theorem any_places : (places before.isEmpty rest items).any id = true ↔
    ∃ skipped here, rest = skipped ++ here ∧ reaches (before ++ skipped).isEmpty items here = true := by
  induction rest generalizing before with
  | nil =>
    rw [places_nil, List.any_cons, List.any_nil, Bool.or_false, id]
    constructor
    · exact fun h => ⟨[], [], rfl, by simpa using h⟩
    · rintro ⟨skipped, here, hrest, h⟩
      obtain ⟨rfl, rfl⟩ := List.append_eq_nil_iff.mp hrest.symm
      simpa using h
  | cons c rest ih =>
    have hbehind : (before ++ [c]).isEmpty = false := by simp
    rw [places_cons, List.any_cons, id, Bool.or_eq_true, ← hbehind, ih]
    constructor
    · rintro (h | ⟨skipped, here, rfl, h⟩)
      · exact ⟨[], c :: rest, rfl, by simpa using h⟩
      · exact ⟨c :: skipped, here, rfl, by simpa using h⟩
    · rintro ⟨skipped, here, hrest, h⟩
      cases skipped with
      | nil =>
        obtain rfl : c :: rest = here := hrest
        exact .inl (by simpa using h)
      | cons d skipped =>
        obtain ⟨rfl, rfl⟩ := List.cons.inj hrest
        exact .inr ⟨skipped, here, rfl, by simpa using h⟩

theorem any_places_items {e : Expr} {subject : String} :
    (places true subject.toList e.items).any id = true ↔ e.Found subject := by
  have hsearch : (places ([] : List Char).isEmpty subject.toList e.items).any id = true ↔ _ := any_places
  rw [List.isEmpty_nil] at hsearch
  rw [hsearch, Expr.Found]
  constructor
  · rintro ⟨before, here, hsubject, h⟩
    rw [← List.append_nil e.items, List.nil_append, reaches_items_append] at h
    obtain ⟨mid, after, rfl, hmid, -⟩ := h
    exact ⟨before, mid, after, hsubject, hmid⟩
  · rintro ⟨before, mid, after, hsubject, hmid⟩
    refine ⟨before, mid ++ after, hsubject, ?_⟩
    rw [← List.append_nil e.items, List.nil_append, reaches_items_append]
    exact ⟨mid, after, rfl, hmid, rfl⟩

theorem compile_text (e : Expr) : Automaton.compile e.text =
    if size e.items > sizeLimit then .error (.tooBig sizeLimit)
    else .ok ⟨fun subject => (places true subject.toList e.items).any id⟩ := by
  rw [Automaton.compile, items_text]

theorem documented : Engine.Documented where
  found e compiled h subject := by
    rw [← any_places_items]
    change Automaton.compile e.text = _ at h
    rw [compile_text] at h
    split at h
    · cases h
    · cases h
      rfl
  refused e error _ h := by
    change Automaton.compile e.text = _ at h
    rw [compile_text] at h
    split at h
    · cases h
      exact ⟨_, rfl⟩
    · cases h

end Automaton
end Autoescape.Regex
