import Autoescape.Proofs.Printable

/-!
# Quoted text in patterns

What a quotation says in the body of a literal is read back by undoing escapes: those for the ends of
lines, and a backslash in front of a character that means something. Any text without the mark that
ends a quotation can be quoted, with or without that mark behind it and inside a class as well, and is
read back as it was.
-/
namespace Autoescape.Pattern

def metacharacters : List Char :=
  ['\\', '^', '$', '.', '|', '?', '*', '+', '(', ')', '[', ']', '\x7b', '\x7d', '/', '-']

/-- The text that a piece of a body stands for, where every metacharacter is behind a backslash. -/
def unescape? : List Char → Option (List Char)
  | [] => some []
  | '\\' :: 'r' :: rest => (unescape? rest).map ('\r' :: ·)
  | '\\' :: 'n' :: rest => (unescape? rest).map ('\n' :: ·)
  | '\\' :: 'u' :: '2' :: '0' :: '2' :: '8' :: rest => (unescape? rest).map ('\u2028' :: ·)
  | '\\' :: 'u' :: '2' :: '0' :: '2' :: '9' :: rest => (unescape? rest).map ('\u2029' :: ·)
  | '\\' :: c :: rest => if c ∈ metacharacters then (unescape? rest).map (c :: ·) else none
  | c :: rest => if c ∈ metacharacters then none else (unescape? rest).map (c :: ·)

/-- The content of a class, up to the bracket that closes it, and what follows that bracket. -/
def classContent? : List Char → Option (List Char × List Char)
  | [] => none
  | ']' :: rest => some ([], rest)
  | '\\' :: c :: rest => (classContent? rest).map fun r => ('\\' :: c :: r.1, r.2)
  | c :: rest => (classContent? rest).map fun r => (c :: r.1, r.2)

/-- The pattern has this body in all modes that the emitted language has. -/
def HasBody (source : String) (written : List Char) : Prop :=
  ∀ modes directive, modes.dotAll = false →
    (Pattern.mk source modes).literal directive =
      .ok (String.ofList ('/' :: (written ++ '/' :: modeLetters modes)))

variable {place : Place} {c : Char} {source : String} {text tail rest written s : List Char}

theorem hasBody_of_body (h : body source.toList = .ok written) : HasBody source written :=
  fun _ _ hdot => literal_eq_ok_iff.mpr ⟨hdot, written, h, rfl⟩

theorem isSpecial_iff : isSpecial c = true ↔ c ∈ metacharacters := by
  rw [isSpecial, decide_eq_true_eq, metacharacters]

theorem literally_of_mem (h : c ∈ metacharacters) : literally c = ['\\', c] := by
  have hall : metacharacters.all (fun c => literally c = ['\\', c]) = true := by decide
  simpa using List.all_eq_true.mp hall c h

theorem unescape?_bare (h : c ∉ metacharacters) : unescape? (c :: rest) = (unescape? rest).map (c :: ·) := by
  have hbackslash : c ≠ '\\' := by
    rintro rfl
    exact h (by decide)
  rw [unescape?.eq_def]
  split <;> simp_all

theorem unescape?_pair (h : c ∈ metacharacters) :
    unescape? ('\\' :: c :: rest) = (unescape? rest).map (c :: ·) := by
  have hne {d : Char} (hd : d ∉ metacharacters) : c ≠ d := by
    rintro rfl
    exact hd h
  simp [unescape?, h, hne (d := 'r') (by decide), hne (d := 'n') (by decide), hne (d := 'u') (by decide)]

theorem unescape?_literally (c : Char) (rest : List Char) :
    unescape? (literally c ++ rest) = (unescape? rest).map (c :: ·) := by
  unfold literally
  split
  · next text htext =>
    unfold lineEnd? at htext
    split at htext <;> cases htext <;> rfl
  · split
    · next hspecial => exact unescape?_pair (isSpecial_iff.mp hspecial)
    · next hspecial => exact unescape?_bare (isSpecial_iff.not.mp hspecial)

theorem unescape?_flatMap (s : List Char) : unescape? (s.flatMap literally) = some s := by
  induction s with
  | nil => rfl
  | cons c s ih => rw [List.flatMap_cons, unescape?_literally, ih, Option.map_some]

theorem classContent?_bare (hbackslash : c ≠ '\\') (hclose : c ≠ ']') :
    classContent? (c :: rest) = (classContent? rest).map fun r => (c :: r.1, r.2) := by
  rw [classContent?.eq_def]
  split <;> simp_all

/-- No bracket in what can be read back closes a class. -/
theorem classContent?_append (h : unescape? text = some s) (rest : List Char) :
    classContent? (text ++ ']' :: rest) = some (text, rest) := by
  fun_induction unescape? text generalizing s with
  | case1 => rfl
  | case2 text ih | case3 text ih | case4 text ih | case5 text ih =>
    obtain ⟨t, ht, -⟩ := Option.map_eq_some_iff.mp h
    simp [classContent?, ih ht]
  | case6 c text _ _ _ _ hc ih =>
    obtain ⟨t, ht, -⟩ := Option.map_eq_some_iff.mp h
    simp [classContent?, ih ht]
  | case7 | case8 => cases h
  | case9 c text _ _ _ _ _ hc ih =>
    obtain ⟨t, ht, -⟩ := Option.map_eq_some_iff.mp h
    have hne {d : Char} (hd : d ∈ metacharacters) : c ≠ d := by
      rintro rfl
      exact hc hd
    rw [List.cons_append, classContent?_bare (hne (by decide)) (hne (by decide)), ih ht]
    rfl

/-- In a quotation every character is written for itself, up to the mark that ends it. -/
theorem bodyFrom_quoted_append (hend : ¬['\\', 'E'] <:+: s) (htail : tail.head? ≠ some 'E') :
    bodyFrom (.quoted place) (s ++ tail) =
      (s.flatMap literally ++ ·) <$> bodyFrom (.quoted place) tail := by
  induction s with
  | nil => simp
  | cons c s ih =>
    have hmark : ¬(c = '\\' ∧ (s ++ tail).head? = some 'E') := by
      rintro ⟨rfl, hhead⟩
      cases s with
      | nil => exact htail hhead
      | cons d s =>
        obtain rfl : d = 'E' := Option.some.inj hhead
        exact hend ⟨[], s, rfl⟩
    have hrest : ¬['\\', 'E'] <:+: s := fun h => hend (h.trans (List.infix_cons List.infix_rfl))
    rw [List.cons_append, bodyFrom_of_step (step_of_moves (.quoted hmark)), ih hrest]
    simp

theorem bodyFrom_unended (hend : ¬['\\', 'E'] <:+: s) :
    bodyFrom (.quoted place) s = .ok (s.flatMap literally) := by
  have hquoted : bodyFrom (.quoted place) (s ++ []) = (s.flatMap literally ++ ·) <$> .ok [] :=
    bodyFrom_quoted_append hend nofun
  simpa using hquoted

theorem bodyFrom_ended (hend : ¬['\\', 'E'] <:+: s) (h : bodyFrom (.plain place) rest = .ok written) :
    bodyFrom (.quoted place) (s ++ '\\' :: 'E' :: rest) = .ok (s.flatMap literally ++ written) := by
  rw [bodyFrom_quoted_append hend (by simp), bodyFrom_of_step (step_of_moves (.unquote rfl)),
    bodyFrom_of_step (step_of_moves .quoteEnd), h]
  rfl

theorem bodyFrom_quote : bodyFrom (.plain place) ('\\' :: 'Q' :: rest) = bodyFrom (.quoted place.entered) rest := by
  rw [bodyFrom_of_step (step_of_moves .backslash), bodyFrom_of_step (step_of_moves .quote)]
  exact (id_map _).trans (id_map _)

/-- Quoted text is taken literally. A text without the mark that ends a quotation is quoted whether the
mark follows or not, with the same body. Undoing the escapes of the body gives back the text, and each
metacharacter of the text stands behind a backslash. In a class the same body is the content. -/
theorem quotation_is_literal {text : String} (hend : ¬['\\', 'E'] <:+: text.toList) : ∃ written,
    HasBody ("\\Q" ++ text ++ "\\E") written ∧ HasBody ("\\Q" ++ text) written ∧
    unescape? written = some text.toList ∧
    (∀ before c after, text.toList = before ++ c :: after → c ∈ metacharacters → ∃ front back,
      written = front ++ '\\' :: c :: back ∧ unescape? front = some before ∧ unescape? back = some after) ∧
    HasBody ("[\\Q" ++ text ++ "\\E]") ('[' :: (written ++ [']'])) ∧
    classContent? (written ++ [']']) = some (written, []) := by
  have hback := unescape?_flatMap text.toList
  have hended : ("\\Q" ++ text ++ "\\E").toList = '\\' :: 'Q' :: (text.toList ++ ['\\', 'E']) := by simp
  have hunended : ("\\Q" ++ text).toList = '\\' :: 'Q' :: text.toList := by simp
  have hinClass : ("[\\Q" ++ text ++ "\\E]").toList =
      '[' :: '\\' :: 'Q' :: (text.toList ++ ['\\', 'E', ']']) := by simp
  refine ⟨text.toList.flatMap literally, hasBody_of_body ?ended, hasBody_of_body ?unended, hback, ?escaped,
    hasBody_of_body ?inClass, classContent?_append hback []⟩
  case ended =>
    rw [hended, body, bodyFrom_quote, bodyFrom_ended hend rfl]
    exact congrArg Except.ok (List.append_nil _)
  case unended => rw [hunended, body, bodyFrom_quote, bodyFrom_unended hend]
  case escaped =>
    intro before c after htext hc
    refine ⟨before.flatMap literally, after.flatMap literally, ?_, unescape?_flatMap _, unescape?_flatMap _⟩
    rw [htext, List.flatMap_append, List.flatMap_cons, literally_of_mem hc]
    rfl
  case inClass =>
    rw [hinClass, body, bodyFrom_of_step (step_of_moves .openClass), bodyFrom_quote, bodyFrom_ended hend rfl]
    rfl

/-- A text with a bracket, a caret, a minus sign, a slash and a line feed that ends in a backslash. -/
theorem quotation_is_literal_for_backslash :
    let text := "]^-/\nE\\"
    ¬['\\', 'E'] <:+: text.toList ∧ ∃ written,
      HasBody ("\\Q" ++ text ++ "\\E") written ∧ HasBody ("\\Q" ++ text) written ∧
      unescape? written = some text.toList ∧
      (∀ before c after, text.toList = before ++ c :: after → c ∈ metacharacters → ∃ front back,
        written = front ++ '\\' :: c :: back ∧ unescape? front = some before ∧ unescape? back = some after) ∧
      HasBody ("[\\Q" ++ text ++ "\\E]") ('[' :: (written ++ [']'])) ∧
      classContent? (written ++ [']']) = some (written, []) := by
  intro text
  have hend : ¬['\\', 'E'] <:+: text.toList := by decide +kernel
  exact ⟨hend, quotation_is_literal hend⟩

end Autoescape.Pattern
