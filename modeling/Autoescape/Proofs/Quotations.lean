import Autoescape.Proofs.PatternPieces
import Autoescape.Proofs.PatternStep
import Autoescape.Proofs.Printable

/-!
# Quotations in patterns

The reader of patterns refuses a construct by a look at what follows a character of the pattern. The
marks of a quotation are written as nothing, so characters can stand side by side in the body that do
not in the pattern, and what they make up there has not been looked for. Outside classes that is the
only way in which a construct gets into a body: it holds one exactly when the pattern is refused as
soon as its quotations are spelled out.
-/
namespace Autoescape.Pattern

def State.inClass : State → Bool
  | .plain place | .escaped place | .quoted place | .quoteEnds place => place ≠ .outside
  | .groupMark => false

section Spelling

/-- What stands for a character when the quotations outside classes are spelled out: nothing for their
marks, and a quoted character with a meaning behind a backslash. -/
def spell (s : State) (c : Char) (rest : List Char) : List Char :=
  match s with
  | .plain .outside => if c = '\\' ∧ rest.head? = some 'Q' then [] else [c]
  | .escaped .outside => if c = 'Q' then [] else [c]
  | .quoted .outside =>
    if c = '\\' ∧ rest.head? = some 'E' then [] else if isSpecial c then ['\\', c] else [c]
  | .quoteEnds .outside => []
  | _ => [c]

def spelledFrom (s : State) : List Char → List Char
  | [] => []
  | c :: rest =>
    match step s c rest with
    | .ok (_, s') => spell s c rest ++ spelledFrom s' rest
    | .error _ => c :: rest

def spelledOut (source : List Char) : List Char := spelledFrom (.plain .outside) source

def hasQuotation : List Char → Bool
  | '\\' :: c :: rest => c = 'Q' || hasQuotation rest
  | _ :: rest => hasQuotation rest
  | [] => false

variable {s s' : State} {place : Place} {c : Char} {rest source written : List Char}

theorem spelledFrom_of_step (h : step s c rest = .ok (written, s')) :
    spelledFrom s (c :: rest) = spell s c rest ++ spelledFrom s' rest := by
  rw [spelledFrom, h]

theorem spell_of_inClass (h : s.inClass = true) : spell s c rest = [c] := by
  unfold spell
  split <;> first | rfl | cases h

theorem head?_spelledFrom (h : s.inClass = true) : (spelledFrom s source).head? = source.head? := by
  cases source with
  | nil => rfl
  | cons c rest =>
    rw [spelledFrom, spell_of_inClass h]
    split <;> rfl

theorem spelledFrom_pair (hquote : c ≠ 'Q') (h : ∀ place, spelledFrom (.plain place) rest = rest) :
    spelledFrom (.plain place) ('\\' :: c :: rest) = '\\' :: c :: rest := by
  have hfirst : spell (.plain place) '\\' (c :: rest) = ['\\'] := by
    cases place <;> simp [spell, hquote]
  have hsecond : spell (.escaped place) c rest = [c] := by
    cases place <;> simp [spell, hquote]
  rw [spelledFrom_of_step (step_of_moves .backslash), hfirst, spelledFrom]
  split
  · next s' hstep =>
    rw [hsecond]
    cases moves_of_step hstep with
    | begins | ends | escape => rw [h]; rfl
    | quote => exact absurd rfl hquote
  · rfl

theorem spelledFrom_eq_self (hstate : s = .groupMark ∨ ∃ place, s = .plain place)
    (hexpects : Expects s source) (h : hasQuotation source = false) : spelledFrom s source = source := by
  fun_induction hasQuotation source generalizing s with
  | case1 c rest ih =>
    rw [Bool.or_eq_false_iff, decide_eq_false_iff_not] at h
    obtain rfl | ⟨place, rfl⟩ := hstate
    · cases hexpects
    · exact spelledFrom_pair h.1 fun place => ih (.inr ⟨place, rfl⟩) trivial h.2
  | case2 c rest hlone ih =>
    -- no backslash with something behind it, so the reader goes on in such a state
    have hquote : ¬(c = '\\' ∧ rest.head? = some 'Q') := by
      rintro ⟨hc, hquote⟩
      obtain ⟨rest, rfl⟩ := List.head?_eq_some_iff.mp hquote
      exact hlone _ _ hc rfl
    have hmarks : spell s c rest = [c] := by
      obtain rfl | ⟨place, rfl⟩ := hstate
      · rfl
      · cases place <;> simp [spell, hquote]
    rw [spelledFrom, hmarks]
    split
    · next s' hstep =>
      by_cases hrest : rest = []
      · subst hrest
        rfl
      have hnext : s' = .groupMark ∨ ∃ place, s' = .plain place := by
        obtain rfl | ⟨place, rfl⟩ := hstate
        · cases hstep
          exact .inr ⟨_, rfl⟩
        · cases moves_of_step hstep with
          | backslash =>
            obtain ⟨c, rest, rfl⟩ := List.exists_cons_of_ne_nil hrest
            exact absurd rfl (hlone _ _ rfl)
          | openGroup => exact .inl rfl
          | _ => exact .inr ⟨_, rfl⟩
      rw [ih hnext (expects_step hstep) h]
      rfl
    · rfl
  | case3 => rfl

end Spelling

section Reading

variable {c : Char} {rest written : List Char}

theorem singleton_prefix_iff {text : List Char} : [c] <+: text ↔ text.head? = some c := by
  rw [List.head?_eq_some_iff]
  exact exists_congr fun _ => eq_comm

/-- A character outside classes is taken if what follows it in the pattern does not speak against it. -/
theorem bodyFrom_char_eq_ok (hbackslash : c ≠ '\\') (hopen : c ≠ '[')
    (hgroup : ¬(c = '(' ∧ rest.head? = some '?')) :
    bodyFrom (.plain .outside) (c :: rest) = .ok written ↔
      ¬RefusesRepeat c rest ∧ ∃ later, bodyFrom (.plain .outside) rest = .ok later ∧ kept c ++ later = written := by
  have hrepeat : ¬RefusesRepeat c rest ↔
      ¬((c = '*' ∨ c = '+' ∨ c = '?') ∧ rest.head? = some '+') ∧
        ¬(c = '\x7b' ∧ isPossessiveCount rest = true) := by
    rw [isPossessiveCount_iff, ← not_or, RefusesRepeat]
    simp only [singleton_prefix_iff, List.mem_cons, List.not_mem_nil, or_false]
  rw [bodyFrom_cons_eq_ok, hrepeat]
  constructor
  · rintro ⟨first, s', later, hstep, hlater, heq⟩
    cases moves_of_step hstep with
    | backslash => exact absurd rfl hbackslash
    | openClass => exact absurd rfl hopen
    | openGroup hmark => exact absurd ⟨rfl, hmark⟩ hgroup
    | outside _ _ _ hpossessive hcount => exact ⟨⟨hpossessive, hcount⟩, later, hlater, heq⟩
    | bracket houtside | member houtside => exact absurd rfl houtside
  · rintro ⟨⟨hpossessive, hcount⟩, later, hlater, heq⟩
    exact ⟨_, _, later, step_of_moves (.outside hbackslash hopen hgroup hpossessive hcount), hlater, heq⟩

theorem bodyFrom_group_eq_ok :
    bodyFrom (.plain .outside) ('(' :: '?' :: rest) = .ok written ↔
      ¬RefusesGroup rest ∧ ∃ later, bodyFrom (.plain .outside) rest = .ok later ∧ '(' :: '?' :: later = written := by
  rw [bodyFrom_cons_eq_ok, ← groupRefusal?_eq_none_iff]
  constructor
  · rintro ⟨first, s', later, hstep, hlater, rfl⟩
    cases moves_of_step hstep with
    | openGroup hmark hallowed =>
      rw [bodyFrom_of_step (step_of_moves .groupMark), Except.map_eq_ok] at hlater
      obtain ⟨later, hlater, rfl⟩ := hlater
      exact ⟨hallowed, later, hlater, rfl⟩
    | outside _ _ hgroup => exact absurd ⟨rfl, rfl⟩ hgroup
    | member houtside => exact absurd rfl houtside
  · rintro ⟨hallowed, later, hlater, rfl⟩
    refine ⟨_, _, '?' :: later, step_of_moves (.openGroup rfl hallowed), ?_, rfl⟩
    rw [bodyFrom_of_step (step_of_moves .groupMark), hlater]
    rfl

end Reading

section Rendering

/-- Outside classes the reader takes a character without a look at what follows it. -/
def State.takesUnseen (s : State) (c : Char) : Bool :=
  match s with
  | .plain .outside => c = '\\' || c = '['
  | .escaped .outside => c ≠ 'Q'
  | s => s.inClass

/-- A pattern without quotations outside classes writes a body if nothing that stands there is refused
for what follows it. -/
inductive Renders : State → List Char → List Char → Prop where
  | nil {s : State} : Renders s [] (atEnd s)
  | step {s s' : State} {c : Char} {rest written later : List Char} (hunseen : s.takesUnseen c = true)
      (hmoves : Moves s c rest written s') (hlater : Renders s' rest later) :
      Renders s (c :: rest) (written ++ later)
  | group {rest later : List Char} (hlater : Renders (.plain .outside) rest later) :
      Renders (.plain .outside) ('(' :: '?' :: rest) ('(' :: '?' :: later)
  | char {c : Char} {rest later : List Char} (hbackslash : c ≠ '\\') (hopen : c ≠ '[')
      (hgroup : ¬(c = '(' ∧ rest.head? = some '?')) (hlater : Renders (.plain .outside) rest later) :
      Renders (.plain .outside) (c :: rest) (kept c ++ later)

variable {s s' : State} {c : Char} {source text rest written later sought : List Char}

/-- The characters that are written otherwise than they stand, outside classes. -/
def respelled : List Char := ['/', '\r', '\n', '\u2028', '\u2029']

theorem kept_of_not_mem (h : c ∉ respelled) : kept c = [c] := by
  simp only [respelled, List.mem_cons, List.not_mem_nil, or_false, not_or] at h
  simp [kept, lineEnd?, h]

theorem kept_of_mem (h : c ∈ respelled) : ∃ text, kept c = '\\' :: text := by
  have hall : respelled.all (fun c => (kept c).head? = some '\\') = true := by decide
  exact List.head?_eq_some_iff.mp (by simpa using List.all_eq_true.mp hall c h)

theorem isLookedFor_of_mem_respelled (h : c ∈ respelled) : isLookedFor c = false := by
  have hall : respelled.all (fun c => !isLookedFor c) = true := by decide
  simpa using List.all_eq_true.mp hall c h

theorem not_refusesRepeat_of_mem_respelled (h : c ∈ respelled) : ¬RefusesRepeat c text := by
  rintro (⟨hrepeats, -⟩ | ⟨rfl, -⟩)
  · have hall : ['*', '+', '?'].all (fun c => c ∉ respelled) = true := by decide
    simpa [h] using List.all_eq_true.mp hall c hrepeats
  · exact absurd h (by decide)

theorem eq_slash_of_mem_respelled (h : c ∈ respelled) (hnone : lineEnd? c = none) : c = '/' := by
  simp only [respelled, List.mem_cons, List.not_mem_nil, or_false] at h
  rcases h with rfl | rfl | rfl | rfl | rfl
  · rfl
  all_goals cases hnone

theorem passes_of_mem_respelled {inside : Bool} (h : c ∈ respelled) : Passes inside (kept c) inside := by
  unfold kept
  split
  · next text htext => exact .lineEnd? htext
  · next hnone =>
    rw [if_pos (eq_slash_of_mem_respelled h hnone)]
    exact .escape (by decide)

theorem exists_keptEscape_eq_cons (c : Char) : ∃ text, keptEscape c = '\\' :: text := by
  unfold keptEscape lineEnd?
  split <;> exact ⟨_, rfl⟩

theorem Renders.begins_of_escaped (h : Renders (.escaped .outside) text written) :
    ∃ c rest, written = c :: rest ∧ isLookedFor c = false := by
  cases h with
  | nil => exact ⟨'\\', [], rfl, by decide⟩
  | @step _ _ c _ _ _ hunseen hmoves =>
    cases hmoves with
    | begins => exact ⟨'^', _, rfl, by decide⟩
    | ends => exact ⟨'$', _, rfl, by decide⟩
    | quote => cases hunseen
    | escape =>
      obtain ⟨text, htext⟩ := exists_keptEscape_eq_cons c
      exact ⟨'\\', _, by rw [htext]; rfl, by decide⟩

/-- What the language looks for stands at the beginning of a body exactly when it stands at the
beginning of the pattern. -/
theorem Renders.prefix_iff (h : Renders (.plain .outside) text written)
    (hsought : ∀ c ∈ sought, isLookedFor c = true) : sought <+: text ↔ sought <+: written := by
  induction sought generalizing text written with
  | nil => simp
  | cons d sought ih =>
    obtain ⟨hd, hsought⟩ := List.forall_mem_cons.mp hsought
    obtain ⟨hbackslash, hopen, hgroup⟩ := ne_of_isLookedFor hd
    have hne {c : Char} (hc : isLookedFor c = false) : d ≠ c := by
      rintro rfl
      rw [hd] at hc
      cases hc
    cases h with
    | nil => rfl
    | step hunseen hmoves hlater =>
      cases hmoves with
      | backslash =>
        obtain ⟨c, rest, rfl, hc⟩ := hlater.begins_of_escaped
        simp [List.cons_prefix_cons, hbackslash, hne hc]
      | openClass => simp [List.cons_prefix_cons, hopen]
      | openGroup => cases hunseen
      | outside hbackslash hopen =>
        simp [State.takesUnseen, hbackslash, hopen] at hunseen
      | bracket houtside | member houtside => exact absurd rfl houtside
    | group => simp [List.cons_prefix_cons, hgroup]
    | @char c rest later _ _ _ hlater =>
      by_cases hc : c ∈ respelled
      · obtain ⟨text, htext⟩ := kept_of_mem hc
        simp [List.cons_prefix_cons, htext, hbackslash, hne (isLookedFor_of_mem_respelled hc)]
      · simp [List.cons_prefix_cons, kept_of_not_mem hc, ih hlater hsought]

theorem Renders.refusesGroup_iff (h : Renders (.plain .outside) text written) :
    RefusesGroup text ↔ RefusesGroup written := by
  refine exists_congr fun c => and_congr_left fun hc => h.prefix_iff ?_
  simpa using isLookedFor_of_refusesGroup hc

theorem Renders.refusesRepeat_iff (h : Renders (.plain .outside) text written) :
    RefusesRepeat c text ↔ RefusesRepeat c written := by
  refine or_congr (and_congr_right fun _ => h.prefix_iff (List.all_eq_true.mp (by decide))) (and_congr_right fun _ => ?_)
  refine exists_congr fun count => and_congr_right fun _ => and_congr_right fun hcount => ?_
  exact h.prefix_iff (isLookedFor_possessiveCount hcount)

theorem Renders.head?_iff (h : Renders (.plain .outside) text written) :
    text.head? = some '?' ↔ written.head? = some '?' := by
  rw [← singleton_prefix_iff, ← singleton_prefix_iff]
  exact h.prefix_iff (List.all_eq_true.mp (by decide))

@[simp] theorem inClass_plain_entered {place : Place} :
    (State.plain place.entered).inClass = (State.plain place).inClass := by
  cases place <;> rfl

@[simp] theorem inClass_outside : (State.plain .outside).inClass = false := rfl

theorem inClass_of_ne {place : Place} (h : place ≠ .outside) : (State.plain place).inClass = true := by
  simpa [State.inClass] using h

theorem passes_of_moves (hunseen : s.takesUnseen c = true) (h : Moves s c rest written s') :
    Passes s.inClass written s'.inClass := by
  cases h with
  | backslash | unquote | quoteEnd => exact .nil
  | openClass => exact .single (p := .opens) rfl fun _ => pieces_opens
  | openGroup | groupMark => cases hunseen
  | outside hbackslash hopen => simp [State.takesUnseen, hbackslash, hopen] at hunseen
  | negate => exact .member (by decide) (by decide)
  | closeClass => exact .single (p := .closes) rfl fun _ => pieces_closes
  | bracket houtside =>
    rw [inClass_of_ne houtside]
    exact .escape (by decide)
  | member houtside hbackslash hnegate hclose =>
    rw [inClass_of_ne houtside]
    exact .kept hbackslash hclose
  | begins | ends => exact .char (by decide) (by decide) (by decide) (by decide)
  | @quote place => cases place <;> exact .nil
  | @escape place c _ hclass hend hcontinue =>
    have hc : c ∉ lackedEscapes := by simp [lackedEscapes, hclass, hend, hcontinue]
    rw [inClass_plain_entered]
    exact .keptEscape hc
  | @quoted place =>
    have hinside : (State.quoted place).inClass = true := by
      cases place <;> first | rfl | cases hunseen
    rw [hinside]
    exact .literally c

theorem isInert_atEnd (s : State) : ∀ p ∈ pieces s.inClass (atEnd s), p.isInert = true := by
  rw [← List.all_eq_true]
  cases s with
  | escaped place => cases place <;> decide
  | _ => rfl

/-- The reader takes such a pattern exactly when there is nothing in the body that the language does not
have, and writes that body then. -/
theorem Renders.bodyFrom_eq_ok_iff {again : List Char} (h : Renders s text written) :
    bodyFrom s text = .ok again ↔ Supported (pieces s.inClass written) ∧ again = written := by
  induction h generalizing again with
  | @nil s =>
    rw [bodyFrom, Except.ok.injEq, and_iff_right (supported_of_isInert (isInert_atEnd s))]
    exact eq_comm
  | step hunseen hmoves _ ih =>
    rw [bodyFrom_of_step (step_of_moves hmoves), Except.map_eq_ok,
      (passes_of_moves hunseen hmoves).supported_iff]
    simp only [ih, and_assoc, exists_and_left, exists_eq_left]
    exact and_congr_right fun _ => eq_comm
  | group hlater ih =>
    rw [bodyFrom_group_eq_ok, hlater.refusesGroup_iff, inClass_outside, pieces_group, supported_cons,
      unsupported_group_iff]
    simp only [ih, and_assoc, exists_and_left, exists_eq_left, inClass_outside]
    exact and_congr_right fun _ => and_congr_right fun _ => eq_comm
  | @char c rest later hbackslash hopen hgroup hlater ih =>
    have hpieces : Supported (pieces false (kept c ++ later)) ↔
        ¬RefusesRepeat c later ∧ Supported (pieces false later) := by
      by_cases hc : c ∈ respelled
      · rw [(passes_of_mem_respelled hc).supported_iff, and_iff_right (not_refusesRepeat_of_mem_respelled hc)]
      · rw [kept_of_not_mem hc, List.singleton_append,
          pieces_char hbackslash hopen (by rwa [← hlater.head?_iff]), supported_cons, unsupported_char_iff]
    rw [bodyFrom_char_eq_ok hbackslash hopen hgroup, hlater.refusesRepeat_iff, inClass_outside, hpieces]
    simp only [ih, and_assoc, exists_and_left, exists_eq_left, inClass_outside]
    exact and_congr_right fun _ => and_congr_right fun _ => eq_comm

/-- No escape that the language lacks is ever written. -/
theorem Renders.escape_notMem (h : Renders s text written) (hc : c ∈ lackedEscapes) :
    .escape c ∉ pieces s.inClass written := by
  induction h with
  | @nil s =>
    intro hmem
    simpa [Piece.isInert, hc] using isInert_atEnd s _ hmem
  | step hunseen hmoves _ ih =>
    rw [(passes_of_moves hunseen hmoves).mem_escape_iff hc]
    exact ih
  | group _ ih =>
    rw [inClass_outside] at ih ⊢
    simpa using ih
  | @char d rest later hbackslash hopen hgroup hlater ih =>
    rw [inClass_outside] at ih ⊢
    by_cases hd : d ∈ respelled
    · exact ((passes_of_mem_respelled hd).mem_escape_iff hc).not.mpr ih
    · rw [kept_of_not_mem hd, List.singleton_append, pieces_char hbackslash hopen (by rwa [← hlater.head?_iff])]
      simpa using ih


def State.spelled (s : State) (source : List Char) : State :=
  match s with
  | .escaped .outside => if source.head? = some 'Q' then .plain .outside else .escaped .outside
  | .quoted .outside | .quoteEnds .outside | .groupMark => .plain .outside
  | s => s

theorem Renders.openGroup (h : Renders (.plain .outside) text written) (hmark : text.head? = some '?') :
    Renders (.plain .outside) ('(' :: text) ('(' :: written) := by
  obtain ⟨rest, rfl⟩ := List.head?_eq_some_iff.mp hmark
  cases h with
  | step hunseen => cases hunseen
  | char _ _ _ hlater => exact .group hlater

theorem Renders.plain (hbackslash : c ≠ '\\') (hopen : c ≠ '[') (h : Renders (.plain .outside) text written) :
    Renders (.plain .outside) (c :: text) (kept c ++ written) := by
  by_cases hgroup : c = '(' ∧ text.head? = some '?'
  · obtain ⟨rfl, hmark⟩ := hgroup
    exact h.openGroup hmark
  · exact .char hbackslash hopen hgroup h

theorem literally_of_isSpecial (h : isSpecial c = true) : literally c = keptEscape c := by
  unfold literally keptEscape
  split
  · next htext => rw [htext]; rfl
  · next hnone => rw [if_pos h, hnone]; rfl

theorem literally_of_not_isSpecial (h : ¬isSpecial c = true) : literally c = kept c := by
  have hslash : c ≠ '/' := by
    rintro rfl
    exact h (by decide)
  simp only [literally, kept, h, hslash, if_false]
  rfl

/-- A quoted character is written as it is when it stands behind a backslash, if it has a meaning. -/
theorem Renders.quoted (h : Renders (.plain .outside) text written) :
    Renders (.plain .outside) ((if isSpecial c then ['\\', c] else [c]) ++ text) (literally c ++ written) := by
  split
  · next hspecial =>
    have hnot {d : Char} (hd : isSpecial d = false) : c ≠ d := by
      rintro rfl
      rw [hspecial] at hd
      cases hd
    have hescape : Moves (.escaped .outside) c text (keptEscape c) (.plain .outside) :=
      .escape ⟨hnot (by decide), hnot (by decide)⟩ (hnot (by decide)) (hnot (by decide))
        (fun h => h.1.elim (hnot (by decide)) (hnot (by decide))) (hnot (by decide))
    rw [literally_of_isSpecial hspecial]
    have hunseen : (State.escaped .outside).takesUnseen c = true := by
      simpa [State.takesUnseen] using hnot (by decide)
    simpa using Renders.step rfl .backslash (.step hunseen hescape h)
  · next hspecial =>
    have hplain {d : Char} (hd : isSpecial d = true) : c ≠ d := by
      rintro rfl
      exact hspecial hd
    rw [literally_of_not_isSpecial hspecial]
    exact h.plain (hplain (by decide)) (hplain (by decide))

theorem takesUnseen_of_inClass (h : s.inClass = true) : s.takesUnseen c = true := by
  unfold State.takesUnseen
  split <;> first | cases h | exact h

theorem spelled_of_inClass (h : s.inClass = true) : s.spelled source = s := by
  unfold State.spelled
  split <;> first | rfl | cases h

/-- Inside a class the pattern stays as it is, so every step can be taken again. -/
theorem Moves.spelled_of_inClass (hinside : s.inClass = true) (h : Moves s c rest written s') :
    Moves s c (spelledFrom s' rest) written s' ∧ s'.spelled rest = s' := by
  cases h with
  | openClass | openGroup | outside | begins | ends | groupMark => cases hinside
  | backslash => exact ⟨.backslash, spelled_of_inClass hinside⟩
  | negate => exact ⟨.negate, rfl⟩
  | closeClass => exact ⟨.closeClass, rfl⟩
  | bracket houtside hopen => exact ⟨.bracket houtside hopen, rfl⟩
  | member houtside hbackslash hnegate hclose hopen hboth =>
    refine ⟨.member houtside hbackslash hnegate hclose hopen ?_, rfl⟩
    rwa [head?_spelledFrom rfl]
  | quote => exact ⟨.quote, spelled_of_inClass (inClass_plain_entered.trans hinside)⟩
  | escape hclass hend hcontinue hanchor hquote => exact ⟨.escape hclass hend hcontinue hanchor hquote, rfl⟩
  | @unquote place _ hend =>
    have hnext : (State.quoteEnds place).inClass = true := hinside
    refine ⟨.unquote ?_, spelled_of_inClass hnext⟩
    rwa [head?_spelledFrom hnext]
  | @quoted place _ _ hend =>
    refine ⟨.quoted ?_, spelled_of_inClass hinside⟩
    rwa [head?_spelledFrom hinside]
  | quoteEnd => exact ⟨.quoteEnd, rfl⟩

theorem renders_spelledFrom (hexpects : Expects s source) (h : bodyFrom s source = .ok written) :
    Renders (s.spelled source) (spelledFrom s source) written := by
  induction source generalizing s written with
  | nil =>
    cases h
    cases s with
    | plain place => exact .nil
    | escaped place => cases place <;> exact .nil
    | quoted place => cases place <;> exact .nil
    | quoteEnds place => cases place <;> exact .nil
    | groupMark => exact .nil
  | cons c rest ih =>
    obtain ⟨first, s', later, hstep, hlater, rfl⟩ := bodyFrom_cons_eq_ok.mp h
    have hrest := ih (expects_step hstep) hlater
    have hmoves := moves_of_step hstep
    rw [spelledFrom_of_step hstep]
    by_cases hinside : s.inClass = true
    · obtain ⟨hmoves, hstay⟩ := hmoves.spelled_of_inClass hinside
      rw [hstay] at hrest
      rw [spell_of_inClass hinside, spelled_of_inClass hinside]
      exact .step (takesUnseen_of_inClass hinside) hmoves hrest
    cases hmoves with
    | @backslash place =>
      obtain rfl : place = .outside := by simpa [State.inClass] using hinside
      by_cases hquote : rest.head? = some 'Q'
      · simpa [spell, State.spelled, hquote] using hrest
      · have hlater : Renders (.escaped .outside) (spelledFrom (.escaped .outside) rest) later := by
          simpa [State.spelled, hquote] using hrest
        simpa [spell, State.spelled, hquote] using Renders.step rfl .backslash hlater
    | openClass => exact .step rfl .openClass hrest
    | openGroup hmark =>
      obtain ⟨rest, rfl⟩ := List.head?_eq_some_iff.mp hmark
      refine Renders.openGroup hrest ?_
      rw [spelledFrom_of_step (step_of_moves .groupMark)]
      rfl
    | outside hbackslash hopen => simpa [spell, State.spelled, hbackslash] using hrest.plain hbackslash hopen
    | negate | closeClass => exact absurd rfl hinside
    | bracket houtside | member houtside => exact absurd (inClass_of_ne houtside) hinside
    | begins => exact .step rfl .begins hrest
    | ends => exact .step rfl .ends hrest
    | @quote place =>
      obtain rfl : place = .outside := by simpa [State.inClass] using hinside
      exact hrest
    | @escape place _ _ hclass hend hcontinue hanchor hquote =>
      obtain rfl : place = .outside := by simpa [State.inClass] using hinside
      have hescape := Renders.step (by simpa [State.takesUnseen] using hquote)
        (.escape hclass hend hcontinue hanchor hquote) hrest
      simpa [spell, State.spelled, hquote] using hescape
    | @unquote place _ hend =>
      obtain rfl : place = .outside := by simpa [State.inClass] using hinside
      simpa [spell, State.spelled, hend] using hrest
    | @quoted place _ _ hend =>
      obtain rfl : place = .outside := by simpa [State.inClass] using hinside
      simp only [spell, if_neg hend]
      exact hrest.quoted
    | @quoteEnd place =>
      obtain rfl : place = .outside := by simpa [State.inClass] using hinside
      exact hrest
    | groupMark =>
      obtain rfl : c = '?' := Option.some.inj hexpects
      exact hrest.plain (by decide) (by decide)

end Rendering

/-- No escape that the language lacks is ever written. The other constructs that it lacks stand in a body
exactly when the pattern is refused with its quotations spelled out; else its body stays the same. -/
theorem constructs_kept_out_iff {p : Pattern} {directive literal : String}
    (h : p.literal directive = .ok literal) : ∃ written,
      literal.toList = '/' :: (written ++ '/' :: modeLetters p.modes) ∧
      (∀ c ∈ lackedEscapes, .escape c ∉ pieces false written) ∧
      (∀ again, body (spelledOut p.source.toList) = .ok again ↔
        Supported (pieces false written) ∧ again = written) ∧
      (hasQuotation p.source.toList = false → Supported (pieces false written)) := by
  obtain ⟨written, hbody, htext⟩ := literal_eq_ok h
  have hrenders : Renders (.plain .outside) (spelledOut p.source.toList) written :=
    renders_spelledFrom (s := .plain .outside) trivial hbody
  refine ⟨written, htext, fun c hc => hrenders.escape_notMem hc, fun again => hrenders.bodyFrom_eq_ok_iff, ?_⟩
  intro hnone
  have hsame : spelledOut p.source.toList = p.source.toList :=
    spelledFrom_eq_self (.inr ⟨_, rfl⟩) trivial hnone
  rw [hsame] at hrenders
  exact (hrenders.bodyFrom_eq_ok_iff.mp hbody).1

/-- A quotation that no construct comes of: a bracket that is quoted and repeated. -/
theorem constructs_kept_out_of_bracket :
    let p : Pattern := ⟨"\\Q(\\E+", .plain⟩
    p.literal "filterName" = .ok "/\\(+/" ∧ hasQuotation p.source.toList = true ∧ ∃ written,
      "/\\(+/".toList = '/' :: (written ++ '/' :: modeLetters p.modes) ∧
      (∀ c ∈ lackedEscapes, .escape c ∉ pieces false written) ∧
      (∀ again, body (spelledOut p.source.toList) = .ok again ↔
        Supported (pieces false written) ∧ again = written) ∧
      (hasQuotation p.source.toList = false → Supported (pieces false written)) := by
  intro p
  have hliteral : p.literal "filterName" = .ok "/\\(+/" := by decide +kernel
  exact ⟨hliteral, by decide +kernel, constructs_kept_out_iff hliteral⟩

/-- An empty quotation hides that a repetition is repeated, so it is taken for one that gives back. -/
theorem possessive_behind_quotation :
    let p : Pattern := ⟨"a*\\Q\\E+", .plain⟩
    p.literal "filterName" = .ok "/a*+/" ∧ body "a*+".toList = .error .possessive ∧
      ¬Supported (pieces false "a*+".toList) := by
  refine ⟨rfl, rfl, fun h => h [.char '*', .char '+'] ⟨[.char 'a'], rfl⟩ ?_⟩
  exact .possessive List.mem_cons_self

end Autoescape.Pattern
