import Autoescape.Proofs.Quotations

/-!
# Bodies as patterns

The body of a literal is a pattern in its own right, and it says the same: read again, it is written
as it stands. The reader goes over a body in step with the way in which it was written. It takes each
part back to itself, whatever the part was written for, and refuses nothing, since what it looks for
stands in a body only where it stands in the pattern. Quotations are the exception, as their marks are
not written.
-/
namespace Autoescape.Pattern

variable {s : State} {place : Place} {c : Char} {rest text written later : List Char}

theorem hasQuotation_cons (h : c ≠ '\\') : hasQuotation (c :: rest) = hasQuotation rest := by
  rw [hasQuotation.eq_2 c rest fun _ _ hc => absurd hc h]

theorem hasQuotation_of_pair (h : hasQuotation ('\\' :: c :: rest) = false) : hasQuotation rest = false :=
  (Bool.or_eq_false_iff.mp h).2

theorem entered_of_ne (h : place ≠ .outside) : place.entered = .inside := by
  cases place <;> first | rfl | exact absurd rfl h

namespace Renders

theorem backslash (h : Renders (.escaped place) text written) :
    Renders (.plain place) ('\\' :: text) written := by
  have hunseen : (State.plain place).takesUnseen '\\' = true := by cases place <;> rfl
  simpa using Renders.step hunseen .backslash h

theorem pair (hclass : c ≠ 'p' ∧ c ≠ 'P') (hend : c ≠ 'Z') (hcontinue : c ≠ 'G')
    (hanchor : ¬((c = 'A' ∨ c = 'z') ∧ place = .outside)) (hquote : c ≠ 'Q') (hline : lineEnd? c = none)
    (h : Renders (.plain place.entered) text written) :
    Renders (.plain place) ('\\' :: c :: text) ('\\' :: c :: written) := by
  have hkept : keptEscape c = ['\\', c] := by rw [keptEscape, hline]; rfl
  have hunseen : (State.escaped place).takesUnseen c = true := by
    cases place <;> simp [State.takesUnseen, State.inClass, hquote]
  have hescape := Renders.step hunseen (.escape hclass hend hcontinue hanchor hquote) h
  rw [hkept] at hescape
  exact hescape.backslash

/-- So are the escapes that the reader writes of its own accord. -/
theorem ownPair (hc : c ∈ ['r', 'n', 'u', '/', ']']) (h : Renders (.plain place.entered) text written) :
    Renders (.plain place) ('\\' :: c :: text) ('\\' :: c :: written) := by
  simp only [List.mem_cons, List.not_mem_nil, or_false] at hc
  rcases hc with rfl | rfl | rfl | rfl | rfl <;>
  · exact h.pair (by decide) (by decide) (by decide) (by simp) (by decide) rfl

theorem digit (hdigit : c.isDigit = true) (h : Renders (.plain place.entered) text written) :
    Renders (.plain place.entered) (c :: text) (c :: written) := by
  have hne {d : Char} (hd : d.isDigit = false) : c ≠ d := ne_of_isDigit hdigit hd
  have hkept : kept c = [c] := kept_of_not_mem fun hmem => by
    have hall : respelled.all (fun c => !c.isDigit) = true := by decide
    simpa [hdigit] using List.all_eq_true.mp hall c hmem
  by_cases hplace : place = .outside
  · subst hplace
    have hchar := Renders.char (hne rfl) (hne rfl) (fun hgroup => hne rfl hgroup.1) h
    rwa [hkept] at hchar
  · rw [entered_of_ne hplace] at h ⊢
    have hmoves : Moves (.plain .inside) c text (kept c) (.plain .inside) :=
      .member (by decide) (hne rfl) (fun hnegate => hne rfl hnegate.1) (hne rfl) (hne rfl)
        fun hboth => hne rfl hboth.1
    have hmember := Renders.step rfl hmoves h
    rwa [hkept] at hmember

theorem digits {number : List Char} (hnumber : number.all Char.isDigit = true)
    (h : Renders (.plain place.entered) text written) :
    Renders (.plain place.entered) (number ++ text) (number ++ written) := by
  induction number with
  | nil => exact h
  | cons d number ih =>
    rw [List.all_cons, Bool.and_eq_true] at hnumber
    exact .digit hnumber.1 (ih hnumber.2)

theorem lineEnd? {escape : List Char} (hline : lineEnd? c = some escape)
    (h : Renders (.plain place.entered) later later) : Renders (.plain place) (escape ++ later) (escape ++ later) := by
  obtain ⟨letter, number, hletter, hnumber, rfl⟩ := exists_of_lineEnd? hline
  have hown : letter ∈ ['r', 'n', 'u', '/', ']'] := List.mem_append_left ['/', ']'] hletter
  exact (h.digits hnumber).ownPair hown

theorem respelled (hc : c ∈ respelled) (h : Renders (.plain place.entered) later later) :
    Renders (.plain place) (kept c ++ later) (kept c ++ later) := by
  unfold Pattern.kept
  split
  · next escape hescape => exact h.lineEnd? hescape
  · next hnone =>
    rw [if_pos (eq_slash_of_mem_respelled hc hnone)]
    exact h.ownPair (by decide)

theorem begins_of_escaped_inside (hquote : text.head? ≠ some 'Q')
    (h : Renders (.escaped .inside) text written) : written.head? = some '\\' := by
  cases h with
  | nil => rfl
  | step hunseen hmoves =>
    cases hmoves with
    | quote => exact absurd rfl hquote
    | escape =>
      obtain ⟨escape, hescape⟩ := exists_keptEscape_eq_cons _
      rw [hescape]
      rfl

/-- Two ampersands stand side by side in the body of a class only if they do in the pattern. -/
theorem head?_ne_of_inside (hnone : hasQuotation text = false) (hne : text.head? ≠ some '&')
    (h : Renders (.plain .inside) text written) : written.head? ≠ some '&' := by
  cases h with
  | nil => nofun
  | @step _ _ c rest _ _ hunseen hmoves hlater =>
    cases hmoves with
    | backslash =>
      have hquote : rest.head? ≠ some 'Q' := by
        rintro hquote
        obtain ⟨rest, rfl⟩ := List.head?_eq_some_iff.mp hquote
        cases hnone
      rw [List.nil_append, hlater.begins_of_escaped_inside hquote]
      decide
    | closeClass => nofun
    | bracket _ hinside => exact absurd rfl hinside
    | member =>
      by_cases hc : c ∈ Pattern.respelled
      · obtain ⟨escape, hescape⟩ := kept_of_mem hc
        rw [hescape]
        nofun
      · rw [kept_of_not_mem hc]
        exact hne

/-- The body of a pattern without quotations is rendered as itself. -/
theorem again (h : Renders s text written) (hs : s = .plain place ∨ s = .escaped place)
    (hnone : hasQuotation (atEnd s ++ text) = false) : Renders (.plain place) written written := by
  induction h generalizing place with
  | nil =>
    obtain rfl | rfl := hs
    · exact .nil
    · exact (Renders.nil (s := .escaped place)).backslash
  | @step s s' c rest written later hunseen hmoves hlater ih =>
    obtain rfl | rfl := hs
    · cases hmoves with
      | backslash => exact ih (.inr rfl) hnone
      | openClass => exact .step rfl .openClass (ih (.inl rfl) hnone)
      | openGroup => cases hunseen
      | outside hbackslash hopen => simp [State.takesUnseen, hbackslash, hopen] at hunseen
      | negate => exact .step rfl .negate (ih (.inl rfl) hnone)
      | closeClass => exact .step rfl .closeClass (ih (.inl rfl) hnone)
      | bracket houtside hinside =>
        -- the bracket is written as an escape, and in a class that may begin with it
        refine (ih (.inl ?_) hnone).ownPair (by decide)
        rw [entered_of_ne houtside]
      | member houtside hbackslash hnegate hclose hopen hboth =>
        have hrest : hasQuotation rest = false := (hasQuotation_cons hbackslash).symm.trans hnone
        have hagain := ih (.inl rfl) hrest
        by_cases hc : c ∈ Pattern.respelled
        · refine .respelled hc ?_
          rwa [entered_of_ne houtside]
        · have hboth : ¬(c = '&' ∧ later.head? = some '&') := fun h =>
            hlater.head?_ne_of_inside hrest (fun hrest => hboth ⟨h.1, hrest⟩) h.2
          have hmember := Renders.step hunseen (.member houtside hbackslash hnegate hclose hopen hboth) hagain
          rwa [kept_of_not_mem hc] at hmember ⊢
    · cases hmoves with
      | begins => exact .char (by decide) (by decide) (by simp) (ih (.inl rfl) hnone)
      | ends => exact .char (by decide) (by decide) (by simp) (ih (.inl rfl) hnone)
      | quote => cases hnone
      | escape hclass hend hcontinue hanchor hquote =>
        have hagain := ih (.inl rfl) (hasQuotation_of_pair hnone)
        unfold Pattern.keptEscape
        cases hline : Pattern.lineEnd? c with
        | some escape => exact hagain.lineEnd? hline
        | none => exact hagain.pair hclass hend hcontinue hanchor hquote hline
  | group _ ih =>
    rcases hs with hs | hs <;> cases hs
    exact .group (ih (.inl rfl) hnone)
  | @char c rest later hbackslash hopen hgroup hlater ih =>
    rcases hs with hs | hs <;> cases hs
    have hagain := ih (.inl rfl) ((hasQuotation_cons hbackslash).symm.trans hnone)
    by_cases hc : c ∈ Pattern.respelled
    · exact .respelled hc hagain
    · have hchar := Renders.char hbackslash hopen (by rwa [← hlater.head?_iff]) hagain
      rwa [kept_of_not_mem hc] at hchar ⊢

end Renders

theorem body_of_body {source : List Char} (h : body source = .ok written) (hnone : hasQuotation source = false) :
    body written = .ok written := by
  have hrenders : Renders (.plain .outside) source written := by
    have hspelled := renders_spelledFrom (s := .plain .outside) trivial h
    rwa [spelledFrom_eq_self (.inr ⟨_, rfl⟩) trivial hnone] at hspelled
  -- what was taken holds nothing that would be refused, and the body is rendered as itself
  have hsupported := (hrenders.bodyFrom_eq_ok_iff.mp h).1
  exact (hrenders.again (.inl rfl) hnone).bodyFrom_eq_ok_iff.mpr ⟨hsupported, rfl⟩

/-- Literals are a normal form. When a pattern without quotations has a literal, the text between the
slashes of the literal is itself a pattern, and with the same modes it has the same literal. -/
theorem literal_of_own_body {p : Pattern} {directive literal : String} (h : p.literal directive = .ok literal)
    (hnone : hasQuotation p.source.toList = false) : ∃ written,
      literal.toList = '/' :: (written ++ '/' :: modeLetters p.modes) ∧
      ∀ directive', (Pattern.mk (String.ofList written) p.modes).literal directive' = .ok literal := by
  obtain ⟨hdot, written, hbody, rfl⟩ := literal_eq_ok_iff.mp h
  refine ⟨written, String.toList_ofList, fun directive' => literal_eq_ok_iff.mpr ⟨hdot, written, ?_, rfl⟩⟩
  rw [String.toList_ofList]
  exact body_of_body hbody hnone

/-- Anchors, a slash, a line feed behind a backslash, a class that begins with its bracket and holds a
line separator, and a group whose question mark is followed by an anchor. -/
theorem literal_of_own_body_for_respelled :
    let p : Pattern := ⟨"\\A/\\\n[]\u2028&/&](?\\z)\\", ⟨false, true, false⟩⟩
    let literal := "/^\\/\\n[\\]\\u2028&\\/&](?$)\\/m"
    p.literal "filterName" = .ok literal ∧ hasQuotation p.source.toList = false ∧ ∃ written,
      literal.toList = '/' :: (written ++ '/' :: modeLetters p.modes) ∧
      ∀ directive', (Pattern.mk (String.ofList written) p.modes).literal directive' = .ok literal := by
  intro p literal
  have hliteral : p.literal "filterName" = .ok literal := by decide +kernel
  have hnone : hasQuotation p.source.toList = false := by decide +kernel
  exact ⟨hliteral, hnone, literal_of_own_body hliteral hnone⟩

end Autoescape.Pattern
