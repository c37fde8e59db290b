import Autoescape.Proofs.Printable

/-!
# String literals as tokens

A scanner of the emitted language finds the end of a string literal: the first quote of the kind that
opened it, outside escapes. Every escape that a writer puts out is complete, so whatever text follows a
literal, the scanner takes the literal as it was written and nothing else. In the literal there is only
printable ASCII, no character with a meaning in markup, and no slash without a backslash before it.
-/
namespace Autoescape.Literal.Quoted

/-- Where a scanner is inside a string literal. -/
inductive Spot where
  | plain
  /-- Behind a backslash. -/
  | escaped
  /-- In a numeral that lacks one more digit than so many. -/
  | digits (missing : Nat)
  /-- Behind a `u`, where four digits or a brace may stand. -/
  | numeral
  /-- In braces, behind digits of this value if there are any. -/
  | braces (value : Option Nat)
  /-- Behind an escaped carriage return, which may be the first half of a line end. -/
  | returned
deriving DecidableEq

namespace Spot

def isOpen : Spot → Bool
  | .plain | .returned => true
  | _ => false

def readPlain? (c : Char) : Option Spot :=
  if c = '\\' then some .escaped else if c ∈ ['\n', '\r'] then none else some .plain

def read? : Spot → Char → Option Spot
  | .plain, c => readPlain? c
  | .escaped, c =>
    if c = 'x' then some (.digits 1)
    else if c = 'u' then some .numeral
    else if c = '\r' then some .returned
    else some .plain
  | .digits 0, c => (Json.hexDigit? c).map fun _ => .plain
  | .digits (missing + 1), c => (Json.hexDigit? c).map fun _ => .digits missing
  | .numeral, c => if c = '\x7b' then some (.braces none) else (Json.hexDigit? c).map fun _ => .digits 2
  | .braces value, c =>
    if c = '\x7d' then value.map fun _ => .plain
    else do
      let value := value.getD 0 * 16 + (← Json.hexDigit? c)
      if value < 0x110000 then some (.braces (some value)) else none
  | .returned, c => if c = '\n' then some .plain else readPlain? c

def rest? (quote : Char) (s : Spot) : List Char → Option (List Char × List Char)
  | [] => none
  | c :: text =>
    if s.isOpen ∧ c = quote then some ([c], text)
    else do
      let s ← s.read? c
      let (rest, behind) ← rest? quote s text
      return (c :: rest, behind)

end Spot

def token? : List Char → Option (List Char × List Char)
  | [] => none
  | c :: text =>
    if c ∈ ['\'', '"'] then (Spot.plain.rest? c text).map fun r => (c :: r.1, r.2) else none

example : token? "'it\\'s\\x21'+s".toList = some ("'it\\'s\\x21'".toList, "+s".toList) := by decide
example : token? "'\\u21'+s".toList = none := by decide

def marks : List Char := ['"', '&', '<', '=', '>']

/-- Every slash of a text has a backslash before it. -/
def Escorted (text : List Char) : Prop :=
  ∀ front back, text = front ++ '/' :: back → front.getLast? = some '\\'

/-- A literal that nothing in it and nothing behind it breaks open. -/
structure Sealed (literal : String) : Prop where
  token : ∀ rest, token? (literal.toList ++ rest) = some (literal.toList, rest)
  quotes : ∃ text, literal.toList = quote text ∧ '\'' ∉ text
  printable : ∀ c ∈ literal.toList, Character.isPrintable c = true
  unmarked : ∀ c ∈ literal.toList, c ∉ marks
  slashes : Escorted literal.toList

section Escorted

variable {text text' : List Char}

theorem escorted_of_notMem (h : '/' ∉ text) : Escorted text := by
  rintro front back rfl
  exact absurd (by simp) h

theorem escorted_slash : Escorted ['\\', '/'] := by
  intro front back heq
  cases front with
  | nil => simp at heq
  | cons d front =>
    obtain ⟨rfl, heq⟩ := List.cons.inj heq
    cases front with
    | nil => rfl
    | cons => simp at heq

theorem Escorted.append (h : Escorted text) (h' : Escorted text') : Escorted (text ++ text') := by
  intro front back heq
  rcases List.append_eq_append_iff.mp heq with ⟨mid, rfl, hmid⟩ | ⟨mid, hfront, hmid⟩
  · rw [List.getLast?_append, h' mid back hmid]
    rfl
  · cases mid with
    | nil => exact absurd (h' [] back hmid.symm) (by simp)
    | cons c mid =>
      obtain ⟨rfl, -⟩ := List.cons.inj hmid
      exact h front mid hfront

end Escorted

/-! ### Reading what was written -/

namespace Spot

variable {s t : Spot} {c : Char} {text text' : List Char}

def through? (s : Spot) (text : List Char) : Option Spot := text.foldlM read? s

theorem through?_append (h : s.through? text = some t) : s.through? (text ++ text') = t.through? text' := by
  rw [through?, List.foldlM_append, ← through?, h]
  rfl

theorem through?_cons (h : s.read? c = some t) : s.through? (c :: text) = t.through? text := by
  rw [through?, List.foldlM_cons, h]
  rfl

theorem rest?_of_through? (hquote : '\'' ∉ text) (h : s.through? text = some .plain) (rest : List Char) :
    s.rest? '\'' (text ++ '\'' :: rest) = some (text ++ ['\''], rest) := by
  induction text generalizing s with
  | nil =>
    obtain rfl : s = .plain := by simpa [through?] using h
    rfl
  | cons c text ih =>
    obtain ⟨hc, htext⟩ : '\'' ≠ c ∧ '\'' ∉ text := by simpa using hquote
    rw [through?, List.foldlM_cons] at h
    obtain ⟨next, hnext, hrest⟩ := Option.bind_eq_some_iff.mp h
    rw [List.cons_append, rest?, if_neg (by simp [Ne.symm hc]), hnext]
    simp [ih htext hrest]

theorem through?_plain (h : ∀ c ∈ text, readPlain? c = some .plain) : plain.through? text = some .plain := by
  induction text with
  | nil => rfl
  | cons c text ih =>
    obtain ⟨hc, htext⟩ := List.forall_mem_cons.mp h
    rw [through?_cons (s := .plain) (t := .plain) hc, ih htext]

/-- Hexadecimal digits complete a numeral if there are enough of them. Those beyond stand for themselves. -/
theorem through?_digits {missing : Nat} (hlength : missing < text.length)
    (h : ∀ d ∈ text, ∃ k < 16, d = Nat.digitChar k) : (digits missing).through? text = some .plain := by
  have hplain : ∀ k < 16, readPlain? (Nat.digitChar k) = some .plain := by decide
  induction text generalizing missing with
  | nil => simp at hlength
  | cons d text ih =>
    obtain ⟨⟨k, hk, rfl⟩, htext⟩ := List.forall_mem_cons.mp h
    have hdigit := Text.Hex.hexDigit?_digitChar hk
    cases missing with
    | succ missing =>
      rw [through?_cons (t := .digits missing) (by rw [read?, hdigit]; rfl)]
      exact ih (by simpa using hlength) htext
    | zero =>
      rw [through?_cons (t := .plain) (by rw [read?, hdigit]; rfl)]
      refine through?_plain fun e he => ?_
      obtain ⟨l, hl, rfl⟩ := htext e he
      exact hplain l hl

theorem through?_numeral (hlength : 3 < text.length) (h : ∀ d ∈ text, ∃ k < 16, d = Nat.digitChar k) :
    numeral.through? text = some .plain := by
  have hbrace : ∀ k < 16, Nat.digitChar k ≠ '\x7b' := by decide
  cases text with
  | nil => simp at hlength
  | cons d text =>
    obtain ⟨⟨k, hk, rfl⟩, htext⟩ := List.forall_mem_cons.mp h
    have hdigit := Text.Hex.hexDigit?_digitChar hk
    rw [through?_cons (t := .digits 2) (by rw [read?, if_neg (hbrace k hk), hdigit]; rfl)]
    exact through?_digits (Nat.lt_of_succ_lt_succ hlength) htext

end Spot

/-! ### What writers put between the quotes -/

/-- What a writer puts out for a part of a text: complete escapes and characters that mean nothing. -/
structure Harmless (text : List Char) : Prop where
  complete : Spot.plain.through? text = some .plain
  unmarked : ∀ d ∈ text, d ∉ '\'' :: marks
  escorted : Escorted text

namespace Harmless

variable {c : Char} {text text' : List Char}

theorem nil : Harmless [] := ⟨rfl, by simp, escorted_of_notMem (by simp)⟩

theorem append (h : Harmless text) (h' : Harmless text') : Harmless (text ++ text') where
  complete := by rw [Spot.through?_append h.complete, h'.complete]
  unmarked := by
    intro d hd
    rcases List.mem_append.mp hd with hd | hd
    · exact h.unmarked d hd
    · exact h'.unmarked d hd
  escorted := h.escorted.append h'.escorted

theorem flatMap {f : Char → List Char} (h : ∀ c, Harmless (f c)) (s : List Char) : Harmless (s.flatMap f) := by
  induction s with
  | nil => exact nil
  | cons c s ih => exact (h c).append ih

theorem escape {first : Char} {width n : Nat} (hfirst : first ∉ '/' :: '\'' :: marks)
    (hcomplete : Spot.plain.through? ('\\' :: first :: Text.Hex.padded width n) = some .plain) :
    Harmless ('\\' :: first :: Text.Hex.padded width n) := by
  have hdigit : ∀ k < 16, Nat.digitChar k ∉ '/' :: '\'' :: marks := by decide
  have hmember : ∀ d ∈ '\\' :: first :: Text.Hex.padded width n, d ∉ '/' :: '\'' :: marks := by
    intro d hd
    rw [List.mem_cons, List.mem_cons] at hd
    rcases hd with rfl | rfl | hd
    · decide
    · exact hfirst
    · obtain ⟨k, hk, rfl⟩ := Text.Hex.exists_of_mem_padded hd
      exact hdigit k hk
  exact ⟨hcomplete, fun d hd hmark => hmember d hd (List.mem_cons_of_mem _ hmark),
    escorted_of_notMem fun hslash => hmember _ hslash List.mem_cons_self⟩

/-- An escape by number is complete, also where it has more digits than the reader takes. -/
theorem byNumber (c : Char) : Harmless (Character.byNumber c) := by
  have hlength (width : Nat) : width ≤ (Text.Hex.padded width c.toNat).length := by
    rw [Text.Hex.padded, List.length_leftpad]
    exact Nat.le_max_left _ _
  unfold Character.byNumber
  split
  · refine escape (by decide) ?_
    rw [Spot.through?_cons (t := .escaped) rfl, Spot.through?_cons (t := .numeral) rfl]
    exact Spot.through?_numeral (hlength 4) fun d => Text.Hex.exists_of_mem_padded
  · refine escape (by decide) ?_
    rw [Spot.through?_cons (t := .escaped) rfl, Spot.through?_cons (t := .digits 1) rfl]
    exact Spot.through?_digits (hlength 2) fun d => Text.Hex.exists_of_mem_padded

theorem stringEscape? (h : Character.stringEscape? c = some text) : Harmless text := by
  by_cases hslash : c = '/'
  · subst hslash
    obtain rfl : ['\\', '/'] = text := Option.some.inj h
    exact ⟨rfl, by simp [marks], escorted_slash⟩
  · unfold Character.stringEscape? at h
    split at h
    all_goals
      cases h
      try exact ⟨rfl, by simp [marks], escorted_of_notMem (by decide)⟩
    exact absurd rfl hslash

theorem inString (c : Char) : Harmless (Character.inString c) := by
  unfold Character.inString
  split
  · next text htext => exact stringEscape? htext
  · next hnone =>
    split
    · -- the characters with a meaning in a literal or in markup all have escapes
      have hc : c ∉ '\\' :: '/' :: '\n' :: '\r' :: '\'' :: marks := by
        intro hc
        simp only [marks, List.mem_cons, List.not_mem_nil, or_false] at hc
        rcases hc with rfl | rfl | rfl | rfl | rfl | rfl | rfl | rfl | rfl | rfl <;>
          exact absurd hnone (by decide)
      simp only [List.mem_cons, not_or] at hc
      refine ⟨Spot.through?_plain ?_, ?_, escorted_of_notMem ?_⟩
      · simp [Spot.readPlain?, hc]
      · simp [hc]
      · simp [Ne.symm hc.2.1]
    · exact byNumber c

theorem alone (c : Char) : Harmless (Character.alone c) := by
  unfold Character.alone
  split
  · exact inString c
  · exact byNumber c

/-- Between quotes, what is harmless makes a sealed literal. -/
theorem isSealed (h : Harmless text) (hprintable : ∀ d ∈ text, Character.isPrintable d = true) :
    Sealed (String.ofList (quote text)) := by
  have hquote : '\'' ∉ text := fun hmem => h.unmarked _ hmem List.mem_cons_self
  have hmarks : ∀ d ∈ quote text, d ∉ marks := by
    intro d hd
    simp only [quote, List.mem_cons, List.mem_append, List.not_mem_nil, or_false] at hd
    rcases hd with rfl | hd | rfl
    · decide
    · exact fun hmark => h.unmarked d hd (List.mem_cons_of_mem _ hmark)
    · decide
  have hescorted : Escorted (['\''] ++ (text ++ ['\''])) :=
    .append (escorted_of_notMem (by decide)) (h.escorted.append (escorted_of_notMem (by decide)))
  refine ⟨fun rest => ?_, ⟨text, String.toList_ofList, hquote⟩, ?_, ?_, ?_⟩
  · have hrest := Spot.rest?_of_through? hquote h.complete rest
    rw [String.toList_ofList, quote, List.cons_append, List.append_assoc, List.singleton_append, token?,
      if_pos (by decide), hrest]
    rfl
  · rw [String.toList_ofList]
    exact fun d hd => isPrintable_quote hprintable hd
  · rwa [String.toList_ofList]
  · rwa [String.toList_ofList]

end Harmless

/-- Whatever a text or a character holds, and whatever follows its literal, the literal is one token, up
to the quote that was written last. Nothing in it has a meaning in markup. -/
theorem literals_sealed : (∀ s : String, Sealed (ofText s)) ∧ ∀ c : Char, Sealed (ofChar c) := by
  refine ⟨fun s => ?_, fun c => ?_⟩
  · refine (Harmless.flatMap Harmless.inString s.toList).isSealed fun d hd => ?_
    obtain ⟨c, -, hc⟩ := List.mem_flatMap.mp hd
    exact Character.isPrintable_inString hc
  · exact (Harmless.alone c).isSealed fun d => Character.isPrintable_alone

end Autoescape.Literal.Quoted
