import Autoescape.Proofs.PatternStep
import Mathlib.Data.List.Infix
import Mathlib.Data.List.TakeWhile

/-!
# The pieces of a pattern body

The body of a literal cut into pieces as the emitted language cuts it: what a backslash escapes, the
members of classes, the openings of special groups, and the characters outside classes. Among the
last ones and the groups stand the constructs that the language does not have.
-/
namespace Autoescape.Pattern

inductive Piece where
  /-- A character outside classes. -/
  | char (c : Char)
  /-- The bracket and the question mark that open a special group. -/
  | group
  /-- A backslash and what it escapes. -/
  | escape (c : Char)
  | opens
  | closes
  /-- A character of a class. -/
  | member (c : Char)
deriving DecidableEq

/-- Cuts a body, from inside a class or from outside. A backslash that nothing follows is a character. -/
def pieces : Bool → List Char → List Piece
  | _, [] => []
  | inside, '\\' :: c :: rest => .escape c :: pieces inside rest
  | true, c :: rest => if c = ']' then .closes :: pieces false rest else .member c :: pieces true rest
  | false, '(' :: '?' :: rest => .group :: pieces false rest
  | false, c :: rest => if c = '[' then .opens :: pieces true rest else .char c :: pieces false rest

/-- The pieces begin with a construct that the language does not have, or reads as another one. Braces
around digits and commas count as a repetition. -/
inductive Unsupported : List Piece → Prop where
  /-- A look behind, or a group with a name. -/
  | named {rest : List Piece} : Unsupported (.group :: .char '<' :: rest)
  | atomic {rest : List Piece} : Unsupported (.group :: .char '>' :: rest)
  | modes {c : Char} {rest : List Piece} (hmark : isModeMark c = true) :
      Unsupported (.group :: .char c :: rest)
  | possessive {c : Char} {rest : List Piece} (hrepeats : c ∈ ['*', '+', '?']) :
      Unsupported (.char c :: .char '+' :: rest)
  | possessiveCount {count : List Char} {rest : List Piece} (hne : count ≠ [])
      (hcount : ∀ c ∈ count, isCount c = true) :
      Unsupported (.char '\x7b' :: (count.map .char ++ .char '\x7d' :: .char '+' :: rest))

/-- No unsupported construct begins anywhere. -/
def Supported (ps : List Piece) : Prop := ∀ behind, behind <:+ ps → ¬Unsupported behind

variable {inside : Bool} {c d : Char} {p : Piece} {ps front : List Piece} {text rest later : List Char}

@[simp] theorem pieces_escape : pieces inside ('\\' :: c :: rest) = .escape c :: pieces inside rest := by
  cases inside <;> rfl

@[simp] theorem pieces_opens : pieces false ('[' :: rest) = .opens :: pieces true rest := by
  simp [pieces]

@[simp] theorem pieces_closes : pieces true (']' :: rest) = .closes :: pieces false rest := by
  simp [pieces]

@[simp] theorem pieces_group : pieces false ('(' :: '?' :: rest) = .group :: pieces false rest := by
  simp [pieces]

theorem pieces_member (hbackslash : c ≠ '\\') (hclose : c ≠ ']') :
    pieces true (c :: rest) = .member c :: pieces true rest := by
  simp [pieces, hbackslash, hclose]

theorem pieces_char (hbackslash : c ≠ '\\') (hopen : c ≠ '[')
    (hgroup : ¬(c = '(' ∧ rest.head? = some '?')) :
    pieces false (c :: rest) = .char c :: pieces false rest := by
  rw [pieces.eq_def]
  split <;> simp_all

theorem pieces_lone : pieces false ['\\'] = [.char '\\'] := rfl

/-- Which characters outside classes the pieces begin with can be read off the text. -/
theorem pieces_eq_char_cons (hbackslash : c ≠ '\\') (hopen : c ≠ '[') (hgroup : c ≠ '(') :
    pieces false text = .char c :: ps ↔ ∃ rest, text = c :: rest ∧ ps = pieces false rest := by
  constructor
  · intro h
    cases text with
    | nil => cases h
    | cons d rest =>
      by_cases hd : d = '\\'
      · subst hd
        cases rest with
        | nil =>
          rw [pieces_lone] at h
          cases h
          exact absurd rfl hbackslash
        | cons e rest =>
          rw [pieces_escape] at h
          cases h
      by_cases hd' : d = '['
      · subst hd'
        rw [pieces_opens] at h
        cases h
      by_cases hmark : d = '(' ∧ rest.head? = some '?'
      · obtain ⟨rfl, hmark⟩ := hmark
        obtain ⟨rest, rfl⟩ := List.head?_eq_some_iff.mp hmark
        rw [pieces_group] at h
        cases h
      rw [pieces_char hd hd' hmark] at h
      cases h
      exact ⟨rest, rfl, rfl⟩
  · rintro ⟨rest, rfl, rfl⟩
    exact pieces_char hbackslash hopen fun h => hgroup h.1

/-- The pieces that begin with some characters which mean the same everywhere are those of a text that
begins with them. -/
theorem pieces_eq_append_iff {count : List Char} (hcount : ∀ c ∈ count, c ≠ '\\' ∧ c ≠ '[' ∧ c ≠ '(') :
    (∃ ps, pieces false text = count.map .char ++ ps) ↔ count <+: text := by
  induction count generalizing text with
  | nil => simp
  | cons c count ih =>
    obtain ⟨⟨hbackslash, hopen, hgroup⟩, hcount⟩ := List.forall_mem_cons.mp hcount
    simp only [List.map_cons, List.cons_append, pieces_eq_char_cons hbackslash hopen hgroup]
    constructor
    · rintro ⟨ps, rest, rfl, heq⟩
      exact List.cons_prefix_cons.mpr ⟨rfl, (ih hcount).mp ⟨ps, heq.symm⟩⟩
    · rintro ⟨rest, rfl⟩
      obtain ⟨ps, hps⟩ := (ih hcount).mpr ⟨rest, rfl⟩
      exact ⟨ps, count ++ rest, rfl, hps.symm⟩

section Constructs

def RefusesGroup (text : List Char) : Prop := ∃ c, [c] <+: text ∧ (c = '<' ∨ c = '>' ∨ isModeMark c = true)

def RefusesCount (text : List Char) : Prop :=
  ∃ count, count ≠ [] ∧ (∀ c ∈ count, isCount c = true) ∧ count ++ ['\x7d', '+'] <+: text

def RefusesRepeat (c : Char) (text : List Char) : Prop :=
  c ∈ ['*', '+', '?'] ∧ ['+'] <+: text ∨ c = '\x7b' ∧ RefusesCount text

/-- The characters that the language looks for behind another one. None of them begins an escape, a
class or a group. -/
def isLookedFor (c : Char) : Bool := c ∈ ['+', '?', '<', '>', '\x7d'] || isCount c || isModeMark c

theorem ne_of_isLookedFor (h : isLookedFor c = true) : c ≠ '\\' ∧ c ≠ '[' ∧ c ≠ '(' := by
  refine ⟨?_, ?_, ?_⟩ <;>
  · rintro rfl
    exact absurd h (by decide)

theorem pieces_eq_append_lookedFor (sought : List Char) (h : ∀ c ∈ sought, isLookedFor c = true) :
    (∃ ps, pieces false text = sought.map .char ++ ps) ↔ sought <+: text :=
  pieces_eq_append_iff fun c hc => ne_of_isLookedFor (h c hc)

theorem isLookedFor_possessiveCount {count : List Char} (h : ∀ c ∈ count, isCount c = true) :
    ∀ c ∈ count ++ ['\x7d', '+'], isLookedFor c = true := by
  rw [List.forall_mem_append]
  refine ⟨fun c hc => ?_, List.all_eq_true.mp (by decide)⟩
  simp [isLookedFor, h c hc]

theorem isLookedFor_of_refusesGroup (h : c = '<' ∨ c = '>' ∨ isModeMark c = true) : isLookedFor c = true := by
  rcases h with rfl | rfl | hmark
  · decide
  · decide
  · simp [isLookedFor, hmark]

theorem unsupported_group_iff : Unsupported (.group :: pieces false text) ↔ RefusesGroup text := by
  have hread {c : Char} (hc : c = '<' ∨ c = '>' ∨ isModeMark c = true) :
      (∃ ps, pieces false text = .char c :: ps) ↔ [c] <+: text :=
    pieces_eq_append_lookedFor [c] (by simpa using isLookedFor_of_refusesGroup hc)
  constructor
  · generalize hps : pieces false text = ps
    intro h
    cases h with
    | named => exact ⟨'<', (hread (.inl rfl)).mp ⟨_, hps⟩, .inl rfl⟩
    | atomic => exact ⟨'>', (hread (.inr (.inl rfl))).mp ⟨_, hps⟩, .inr (.inl rfl)⟩
    | modes hmark => exact ⟨_, (hread (.inr (.inr hmark))).mp ⟨_, hps⟩, .inr (.inr hmark)⟩
  · rintro ⟨c, hprefix, hc⟩
    obtain ⟨ps, hps⟩ := (hread hc).mpr hprefix
    rw [hps]
    rcases hc with rfl | rfl | hmark
    · exact .named
    · exact .atomic
    · exact .modes hmark

theorem unsupported_char_iff : Unsupported (.char c :: pieces false text) ↔ RefusesRepeat c text := by
  have hplus : (∃ ps, pieces false text = .char '+' :: ps) ↔ ['+'] <+: text :=
    pieces_eq_append_lookedFor ['+'] (List.all_eq_true.mp (by decide))
  constructor
  · generalize hps : pieces false text = ps
    intro h
    cases h with
    | possessive hrepeats => exact .inl ⟨hrepeats, hplus.mp ⟨_, hps⟩⟩
    | @possessiveCount count rest hne hcount =>
      refine .inr ⟨rfl, count, hne, hcount, ?_⟩
      apply (pieces_eq_append_lookedFor _ (isLookedFor_possessiveCount hcount)).mp
      exact ⟨rest, by simpa using hps⟩
  · rintro (⟨hrepeats, hprefix⟩ | ⟨rfl, count, hne, hcount, hprefix⟩)
    · obtain ⟨ps, hps⟩ := hplus.mpr hprefix
      rw [hps]
      exact .possessive hrepeats
    · obtain ⟨ps, hps⟩ := (pieces_eq_append_lookedFor _ (isLookedFor_possessiveCount hcount)).mpr hprefix
      rw [hps]
      simpa using Unsupported.possessiveCount hne hcount

theorem groupRefusal?_eq_none_iff : groupRefusal? text = none ↔ ¬RefusesGroup text := by
  cases text with
  | nil => simp [groupRefusal?, RefusesGroup]
  | cons c rest =>
    have hrefuses : RefusesGroup (c :: rest) ↔ c = '<' ∨ c = '>' ∨ isModeMark c = true := by
      simp [RefusesGroup, List.cons_prefix_cons]
    rw [hrefuses, groupRefusal?]
    by_cases hatomic : c = '>'
    · simp [hatomic]
    by_cases hnamed : c = '<'
    · have hne : ('<' : Char) ≠ '>' := by decide
      simp only [hnamed, hne, if_true, if_false]
      split <;> simp
    by_cases hmark : isModeMark c = true
    · simp only [hatomic, hnamed, hmark, if_true, if_false]
      split <;> simp
    · simp [hatomic, hnamed, hmark]

theorem isPossessiveCount_iff : isPossessiveCount text = true ↔ RefusesCount text := by
  rw [isPossessiveCount, Bool.and_eq_true, decide_eq_true_eq, List.isPrefixOf_iff_prefix]
  constructor
  · rintro ⟨hne, hprefix⟩
    refine ⟨text.takeWhile isCount, hne, fun c hc => List.mem_takeWhile_imp hc, ?_⟩
    conv_rhs => rw [← List.takeWhile_append_dropWhile (p := isCount) (l := text)]
    exact (List.prefix_append_right_inj _).mpr hprefix
  · rintro ⟨count, hne, hcount, rest, rfl⟩
    have hbrace : ¬isCount '\x7d' = true := by decide
    rw [List.append_assoc, List.takeWhile_append_of_pos hcount, List.dropWhile_append_of_pos hcount]
    simp [hne, List.takeWhile_cons_of_neg hbrace, List.dropWhile_cons_of_neg hbrace]

end Constructs

section Inert

def lackedEscapes : List Char := ['p', 'P', 'Z', 'G']

/-- A piece with which no construct begins, and which is no escape that the language lacks. -/
def Piece.isInert : Piece → Bool
  | .group => false
  | .char c => c ∉ ['*', '+', '?', '\x7b']
  | .escape c => c ∉ lackedEscapes
  | .opens | .closes | .member _ => true

theorem not_unsupported_of_isInert (h : p.isInert = true) : ¬Unsupported (p :: ps) := by
  intro hps
  cases hps with
  | named | atomic | modes => cases h
  | possessive hrepeats =>
    simp only [Piece.isInert, decide_eq_true_eq] at h
    exact h (by simp at hrepeats ⊢; tauto)
  | possessiveCount => exact absurd h (by decide)

theorem supported_nil : Supported [] := by
  intro behind hbehind
  rw [List.suffix_nil.mp hbehind]
  rintro ⟨⟩

theorem supported_cons : Supported (p :: ps) ↔ ¬Unsupported (p :: ps) ∧ Supported ps := by
  simp only [Supported, List.suffix_cons_iff, or_imp, forall_and, forall_eq]

theorem supported_append (h : ∀ p ∈ front, p.isInert = true) : Supported (front ++ ps) ↔ Supported ps := by
  induction front with
  | nil => rfl
  | cons p front ih =>
    obtain ⟨hp, hfront⟩ := List.forall_mem_cons.mp h
    rw [List.cons_append, supported_cons, ih hfront]
    exact and_iff_right (not_unsupported_of_isInert hp)

theorem supported_of_isInert (h : ∀ p ∈ ps, p.isInert = true) : Supported ps := by
  rw [← List.append_nil ps, supported_append h]
  exact supported_nil

end Inert

section Passes

variable {inside' inside'' : Bool} {text' : List Char}

/-- A text that leads from inside a class, or from outside, to inside or outside, and whose pieces are
all inert whatever follows them. -/
def Passes (inside : Bool) (text : List Char) (inside' : Bool) : Prop :=
  ∃ front, (∀ p ∈ front, p.isInert = true) ∧
    ∀ later, pieces inside (text ++ later) = front ++ pieces inside' later

namespace Passes

theorem supported_iff (h : Passes inside text inside') :
    Supported (pieces inside (text ++ later)) ↔ Supported (pieces inside' later) := by
  obtain ⟨front, hfront, heq⟩ := h
  rw [heq, supported_append hfront]

theorem mem_escape_iff (h : Passes inside text inside') (hc : c ∈ lackedEscapes) :
    .escape c ∈ pieces inside (text ++ later) ↔ .escape c ∈ pieces inside' later := by
  obtain ⟨front, hfront, heq⟩ := h
  rw [heq, List.mem_append]
  refine or_iff_right fun hmem => ?_
  simpa [Piece.isInert, hc] using hfront _ hmem

theorem nil : Passes inside [] inside := ⟨[], by simp, fun _ => rfl⟩

theorem single (hp : p.isInert = true) (h : ∀ later, pieces inside (text ++ later) = p :: pieces inside' later) :
    Passes inside text inside' :=
  ⟨[p], by simpa using hp, h⟩

theorem append (h : Passes inside text inside') (h' : Passes inside' text' inside'') :
    Passes inside (text ++ text') inside'' := by
  obtain ⟨front, hfront, heq⟩ := h
  obtain ⟨front', hfront', heq'⟩ := h'
  refine ⟨front ++ front', List.forall_mem_append.mpr ⟨hfront, hfront'⟩, fun later => ?_⟩
  rw [List.append_assoc, heq, heq', List.append_assoc]

theorem escape (hc : c ∉ lackedEscapes) : Passes inside ['\\', c] inside :=
  single (p := .escape c) (by simpa [Piece.isInert] using hc) fun _ => pieces_escape

theorem member (hbackslash : c ≠ '\\') (hclose : c ≠ ']') : Passes true [c] true :=
  single (p := .member c) rfl fun _ => pieces_member hbackslash hclose

theorem char (hbackslash : c ≠ '\\') (hopen : c ≠ '[') (hgroup : c ≠ '(')
    (hinert : (Piece.char c).isInert = true) : Passes false [c] false :=
  single hinert fun _ => pieces_char hbackslash hopen fun h => hgroup h.1

theorem digit (h : c.isDigit = true) : Passes inside [c] inside := by
  have hne {d : Char} (hd : d.isDigit = false) : c ≠ d := ne_of_isDigit h hd
  cases inside with
  | true => exact member (hne rfl) (hne rfl)
  | false =>
    have hinert : (Piece.char c).isInert = true := by
      simp [Piece.isInert, hne (d := '*') rfl, hne (d := '+') rfl, hne (d := '?') rfl, hne (d := '\x7b') rfl]
    exact char (hne rfl) (hne rfl) (hne rfl) hinert

theorem digits (h : text.all Char.isDigit = true) : Passes inside text inside := by
  induction text with
  | nil => exact nil
  | cons c text ih =>
    rw [List.all_cons, Bool.and_eq_true] at h
    exact (digit h.1).append (ih h.2)

theorem lineEnd? (h : lineEnd? c = some text) : Passes inside text inside := by
  obtain ⟨letter, number, hletter, hnumber, rfl⟩ := exists_of_lineEnd? h
  have hall : ['r', 'n', 'u'].all (fun c => c ∉ lackedEscapes) = true := by decide
  have hlacked : letter ∉ lackedEscapes := by simpa using List.all_eq_true.mp hall letter hletter
  exact (escape hlacked).append (digits hnumber)

theorem keptEscape (hc : c ∉ lackedEscapes) : Passes inside (keptEscape c) inside := by
  unfold Pattern.keptEscape
  cases hend : Pattern.lineEnd? c with
  | some text => exact lineEnd? hend
  | none => exact escape hc

theorem kept (hbackslash : c ≠ '\\') (hclose : c ≠ ']') : Passes true (kept c) true := by
  unfold Pattern.kept
  split
  · next text htext => exact lineEnd? htext
  · split
    · exact escape (by decide)
    · exact member hbackslash hclose

theorem literally (c : Char) : Passes true (literally c) true := by
  unfold Pattern.literally
  split
  · next text htext => exact lineEnd? htext
  · split
    · next hspecial =>
      refine escape fun hc => ?_
      have hall : lackedEscapes.all (fun c => !isSpecial c) = true := by decide
      simpa [hspecial] using List.all_eq_true.mp hall c hc
    · next hspecial =>
      refine member ?_ ?_ <;>
      · rintro rfl
        exact hspecial (by decide)

end Passes

end Passes

end Autoescape.Pattern
