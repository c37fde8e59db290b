import Autoescape.Proofs.PatternToken
import Mathlib.Algebra.Ring.Parity

/-!
# The slashes of a pattern literal

A slash ends a literal unless it is escaped. The reader writes a body as characters that are neither
slashes nor backslashes and as pairs of a backslash and what it escapes; a lone backslash can only
follow at the very end. So an odd number of backslashes stands before every slash of a body, in
classes and quotations too, and no scanner finds the end of the literal inside its body.
-/
namespace Autoescape.Pattern

/-- How many backslashes stand at the end of a text, with nothing between them. -/
def trailingBackslashes (text : List Char) : Nat := (text.reverse.takeWhile (· = '\\')).length

theorem trailingBackslashes_concat (text : List Char) (c : Char) :
    trailingBackslashes (text ++ [c]) = if c = '\\' then trailingBackslashes text + 1 else 0 := by
  by_cases hc : c = '\\' <;> simp [trailingBackslashes, hc]

/-- Behind an even number of backslashes nothing is escaped, so the count can begin anew there. -/
theorem odd_trailingBackslashes_append {front text : List Char} (h : Even (trailingBackslashes front)) :
    Odd (trailingBackslashes (front ++ text)) ↔ Odd (trailingBackslashes text) := by
  induction text using List.reverseRecOn with
  | nil =>
    have hnil : ¬Odd (trailingBackslashes []) := by decide
    rw [List.append_nil, ← Nat.not_even_iff_odd]
    exact iff_of_false (not_not_intro h) hnil
  | append_singleton text c ih =>
    rw [← List.append_assoc, trailingBackslashes_concat, trailingBackslashes_concat]
    split
    · rw [Nat.odd_add_one, Nat.odd_add_one, ih]
    · rfl

/-- A text of characters that are neither slashes nor backslashes, and of pairs that begin with a
backslash. -/
inductive Paired : List Char → Prop where
  | nil : Paired []
  | bare {c : Char} {rest : List Char} (hbackslash : c ≠ '\\') (hslash : c ≠ '/') (hrest : Paired rest) :
      Paired (c :: rest)
  | pair {c : Char} {rest : List Char} (hrest : Paired rest) : Paired ('\\' :: c :: rest)

variable {s s' : State} {c : Char} {source rest text text' before after written : List Char}

namespace Paired

theorem append (h : Paired text) (h' : Paired text') : Paired (text ++ text') := by
  induction h with
  | nil => exact h'
  | bare hbackslash hslash _ ih => exact .bare hbackslash hslash ih
  | pair _ ih => exact .pair ih

theorem odd_before_slash (h : Paired text) (heq : text = before ++ '/' :: after) :
    Odd (trailingBackslashes before) := by
  induction h generalizing before with
  | nil => simp at heq
  | @bare c rest hbackslash hslash _ ih =>
    cases before with
    | nil =>
      cases heq
      exact absurd rfl hslash
    | cons d before =>
      obtain ⟨rfl, htail⟩ := List.cons.inj heq
      have hfirst : Even (trailingBackslashes [c]) := by simp [trailingBackslashes, hbackslash]
      exact (odd_trailingBackslashes_append hfirst).mpr (ih htail)
  | @pair c rest _ ih =>
    match before, heq with
    | [_], heq =>
      cases heq
      decide
    | _ :: _ :: before, heq =>
      cases heq
      have hfirst : Even (trailingBackslashes ['\\', c]) := by
        by_cases hc : c = '\\'
        · subst hc
          decide
        · simp [trailingBackslashes, hc]
      exact (odd_trailingBackslashes_append hfirst).mpr (ih rfl)

theorem digits (h : text.all Char.isDigit = true) : Paired text := by
  induction text with
  | nil => exact .nil
  | cons c text ih =>
    rw [List.all_cons, Bool.and_eq_true] at h
    exact .bare (ne_of_isDigit h.1 rfl) (ne_of_isDigit h.1 rfl) (ih h.2)

theorem lineEnd? (h : lineEnd? c = some text) : Paired text := by
  obtain ⟨letter, number, -, hnumber, rfl⟩ := exists_of_lineEnd? h
  exact .pair (digits hnumber)

theorem kept (hbackslash : c ≠ '\\') : Paired (kept c) := by
  unfold Pattern.kept
  split
  · next text htext => exact lineEnd? htext
  · split
    · exact .pair .nil
    · next hslash => exact .bare hbackslash hslash .nil

theorem keptEscape (c : Char) : Paired (keptEscape c) := by
  unfold Pattern.keptEscape
  cases hend : Pattern.lineEnd? c with
  | some text => exact lineEnd? hend
  | none => exact .pair .nil

theorem literally (c : Char) : Paired (literally c) := by
  unfold Pattern.literally
  split
  · next text htext => exact lineEnd? htext
  · split
    · exact .pair .nil
    · next hspecial =>
      refine .bare ?_ ?_ .nil <;>
      · rintro rfl
        exact hspecial (by decide)

theorem of_step (h : step s c rest = .ok (written, s')) : Paired written := by
  cases moves_of_step h with
  | backslash | quote | unquote | quoteEnd => exact .nil
  | openClass | openGroup | negate | closeClass | begins | ends | groupMark =>
    exact .bare (by decide) (by decide) .nil
  | bracket => exact .pair .nil
  | outside hbackslash | member _ hbackslash => exact kept hbackslash
  | escape => exact keptEscape c
  | quoted => exact literally c

end Paired

/-- At most one backslash stands behind the pairs of a body. -/
theorem paired_bodyFrom (h : bodyFrom s source = .ok written) :
    ∃ front, Paired front ∧ (written = front ∨ written = front ++ ['\\']) := by
  induction source generalizing s written with
  | nil =>
    cases h
    cases s with
    | escaped => exact ⟨[], .nil, .inr rfl⟩
    | plain | quoted | quoteEnds | groupMark => exact ⟨[], .nil, .inl rfl⟩
  | cons c rest ih =>
    obtain ⟨first, s', later, hstep, hlater, rfl⟩ := bodyFrom_cons_eq_ok.mp h
    obtain ⟨front, hfront, hend⟩ := ih hlater
    refine ⟨first ++ front, (Paired.of_step hstep).append hfront, ?_⟩
    rcases hend with rfl | rfl
    · exact .inl rfl
    · exact .inr (List.append_assoc _ _ _).symm

theorem odd_before_slash_bodyFrom (h : bodyFrom s source = .ok written)
    (heq : written = before ++ '/' :: after) : Odd (trailingBackslashes before) := by
  obtain ⟨front, hfront, rfl | rfl⟩ := paired_bodyFrom h
  · exact hfront.odd_before_slash heq
  · -- the lone backslash is no slash, so the slash stands before it
    cases after using List.reverseRecOn with
    | nil =>
      have hlast := congrArg List.getLast? heq
      simp at hlast
    | append_singleton after c =>
      rw [← List.cons_append, ← List.append_assoc] at heq
      exact hfront.odd_before_slash (List.append_inj_left' heq rfl)

/-- A pattern literal ends where it is meant to end. Between its slashes stands the body of the pattern,
and behind them the letters of its modes. No line ends in the body, every slash of the body stands
behind an odd number of backslashes, and so a scanner that begins behind the first slash finds neither
the end of a line nor the end of the literal in the body. -/
theorem literal_not_ended_early {p : Pattern} {directive literal : String}
    (h : p.literal directive = .ok literal) : ∃ written,
      body p.source.toList = .ok written ∧
      literal.toList = '/' :: (written ++ '/' ::
        ((if p.modes.caseInsensitive then ['i'] else []) ++ if p.modes.multiline then ['m'] else [])) ∧
      (∀ c ∈ written, Scanner.isLineEnd c = false) ∧
      (∀ before after, written = before ++ '/' :: after → Odd (trailingBackslashes before)) ∧
      ∃ t, Scanner.start.through? written = some t := by
  obtain ⟨written, hbody, htext⟩ := literal_eq_ok h
  obtain ⟨t, hthrough, -⟩ := through?_bodyFrom hbody
  refine ⟨written, hbody, htext, fun c hc => ?_, fun _ _ => odd_before_slash_bodyFrom hbody, t, hthrough⟩
  have hline := List.all_eq_true.mp (isSingleLine_bodyFrom hbody) c hc
  rw [isLineEnd_eq]
  simpa using hline

/-- A class that stays open, with a quotation that does not end and a backslash that nothing follows:
slashes and a line feed in all of them. -/
theorem literal_not_ended_early_for_dangling :
    let p : Pattern := ⟨"/[\\\\/\\Q/\\\n\\E\\", ⟨true, true, false⟩⟩
    let literal := "/\\/[\\\\\\/\\/\\\\\\n\\/im"
    p.literal "filterName" = .ok literal ∧ ∃ written,
      body p.source.toList = .ok written ∧
      literal.toList = '/' :: (written ++ '/' ::
        ((if p.modes.caseInsensitive then ['i'] else []) ++ if p.modes.multiline then ['m'] else [])) ∧
      (∀ c ∈ written, Scanner.isLineEnd c = false) ∧
      (∀ before after, written = before ++ '/' :: after → Odd (trailingBackslashes before)) ∧
      ∃ t, Scanner.start.through? written = some t := by
  intro p literal
  have hliteral : p.literal "filterName" = .ok literal := by decide +kernel
  exact ⟨hliteral, literal_not_ended_early hliteral⟩

end Autoescape.Pattern
