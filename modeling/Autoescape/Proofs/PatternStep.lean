import Autoescape.Pattern.Body
import Autoescape.Proofs.Except

/-!
# The steps of the pattern reader

All that the reader of patterns can do with one character, case by case. What holds of every step is
proved over these cases.
-/
namespace Autoescape.Pattern

variable {s s' : State} {place : Place} {c : Char} {rest written : List Char}

/-- The end of a line is written as a backslash, a letter, and perhaps a number. -/
theorem exists_of_lineEnd? (h : lineEnd? c = some written) : ∃ letter digits,
    letter ∈ ['r', 'n', 'u'] ∧ digits.all Char.isDigit = true ∧ written = '\\' :: letter :: digits := by
  unfold lineEnd? at h
  split at h
  · cases h
    exact ⟨'r', [], by decide, rfl, rfl⟩
  · cases h
    exact ⟨'n', [], by decide, rfl, rfl⟩
  · cases h
    exact ⟨'u', ['2', '0', '2', '8'], by decide, by decide, rfl⟩
  · cases h
    exact ⟨'u', ['2', '0', '2', '9'], by decide, by decide, rfl⟩
  · cases h

theorem ne_of_isDigit {d : Char} (hc : c.isDigit = true) (hd : d.isDigit = false) : c ≠ d := by
  rintro rfl
  rw [hc] at hd
  cases hd

/-- In a state, at a character before `rest`, the reader writes `written` and goes to the next state. -/
inductive Moves : State → Char → List Char → List Char → State → Prop where
  | backslash {place : Place} {rest : List Char} : Moves (.plain place) '\\' rest [] (.escaped place)
  | openClass {rest : List Char} : Moves (.plain .outside) '[' rest ['['] (.plain .opened)
  | openGroup {rest : List Char} (hmark : rest.head? = some '?') (hallowed : groupRefusal? rest.tail = none) :
      Moves (.plain .outside) '(' rest ['('] .groupMark
  | outside {c : Char} {rest : List Char} (hbackslash : c ≠ '\\') (hopen : c ≠ '[')
      (hgroup : ¬(c = '(' ∧ rest.head? = some '?'))
      (hpossessive : ¬((c = '*' ∨ c = '+' ∨ c = '?') ∧ rest.head? = some '+'))
      (hcount : ¬(c = '\x7b' ∧ isPossessiveCount rest = true)) :
      Moves (.plain .outside) c rest (kept c) (.plain .outside)
  | negate {rest : List Char} : Moves (.plain .opened) '^' rest ['^'] (.plain .negated)
  | closeClass {rest : List Char} : Moves (.plain .inside) ']' rest [']'] (.plain .outside)
  /-- A bracket at the beginning of a class closes nothing. -/
  | bracket {place : Place} {rest : List Char} (houtside : place ≠ .outside) (hinside : place ≠ .inside) :
      Moves (.plain place) ']' rest ['\\', ']'] (.plain .inside)
  | member {place : Place} {c : Char} {rest : List Char} (houtside : place ≠ .outside)
      (hbackslash : c ≠ '\\') (hnegate : ¬(c = '^' ∧ place = .opened)) (hclose : c ≠ ']') (hopen : c ≠ '[')
      (hboth : ¬(c = '&' ∧ rest.head? = some '&')) :
      Moves (.plain place) c rest (kept c) (.plain .inside)
  | begins {rest : List Char} : Moves (.escaped .outside) 'A' rest ['^'] (.plain .outside)
  | ends {rest : List Char} : Moves (.escaped .outside) 'z' rest ['$'] (.plain .outside)
  | quote {place : Place} {rest : List Char} : Moves (.escaped place) 'Q' rest [] (.quoted place.entered)
  | escape {place : Place} {c : Char} {rest : List Char} (hclass : c ≠ 'p' ∧ c ≠ 'P') (hend : c ≠ 'Z')
      (hcontinue : c ≠ 'G') (hanchor : ¬((c = 'A' ∨ c = 'z') ∧ place = .outside)) (hquote : c ≠ 'Q') :
      Moves (.escaped place) c rest (keptEscape c) (.plain place.entered)
  | unquote {place : Place} {rest : List Char} (hend : rest.head? = some 'E') :
      Moves (.quoted place) '\\' rest [] (.quoteEnds place)
  | quoted {place : Place} {c : Char} {rest : List Char} (hend : ¬(c = '\\' ∧ rest.head? = some 'E')) :
      Moves (.quoted place) c rest (literally c) (.quoted place)
  | quoteEnd {place : Place} {c : Char} {rest : List Char} : Moves (.quoteEnds place) c rest [] (.plain place)
  | groupMark {c : Char} {rest : List Char} : Moves .groupMark c rest ['?'] (.plain .outside)

theorem moves_of_stepOutside (hbackslash : c ≠ '\\') (h : stepOutside c rest = .ok (written, s')) :
    Moves (.plain .outside) c rest written s' := by
  unfold stepOutside at h
  split at h
  · next hopen =>
    subst hopen
    cases h
    exact .openClass
  next hopen =>
  split at h
  · next hgroup =>
    obtain ⟨rfl, hmark⟩ := hgroup
    split at h
    · cases h
    · next hallowed =>
      cases h
      exact .openGroup hmark hallowed
  next hgroup =>
  split at h
  · cases h
  next hpossessive =>
  split at h
  · cases h
  next hcount =>
  cases h
  exact .outside hbackslash hopen hgroup hpossessive hcount

theorem moves_of_stepClass (houtside : place ≠ .outside) (hbackslash : c ≠ '\\')
    (h : stepClass place c rest = .ok (written, s')) : Moves (.plain place) c rest written s' := by
  unfold stepClass at h
  split at h
  · next hnegate =>
    obtain ⟨rfl, rfl⟩ := hnegate
    cases h
    exact .negate
  next hnegate =>
  split at h
  · next hclose =>
    subst hclose
    split at h
    · next hinside =>
      subst hinside
      cases h
      exact .closeClass
    · next hinside =>
      cases h
      exact .bracket houtside hinside
  next hclose =>
  split at h
  · cases h
  next hopen =>
  split at h
  · cases h
  next hboth =>
  cases h
  exact .member houtside hbackslash hnegate hclose hopen hboth

theorem moves_of_stepEscaped (h : stepEscaped place c = .ok (written, s')) :
    Moves (.escaped place) c rest written s' := by
  unfold stepEscaped at h
  split at h
  · cases h
  next hclass =>
  split at h
  · cases h
  next hend =>
  split at h
  · cases h
  next hcontinue =>
  split at h
  · next hbegins =>
    obtain ⟨rfl, rfl⟩ := hbegins
    cases h
    exact .begins
  next hbegins =>
  split at h
  · next hends =>
    obtain ⟨rfl, rfl⟩ := hends
    cases h
    exact .ends
  next hends =>
  split at h
  · next hquote =>
    subst hquote
    cases h
    exact .quote
  next hquote =>
  cases h
  refine .escape (not_or.mp hclass) hend hcontinue ?_ hquote
  rintro ⟨rfl | rfl, hplace⟩
  · exact hbegins ⟨rfl, hplace⟩
  · exact hends ⟨rfl, hplace⟩

theorem moves_of_step (h : step s c rest = .ok (written, s')) : Moves s c rest written s' := by
  cases s with
  | plain place =>
    simp only [step] at h
    split at h
    · next hbackslash =>
      subst hbackslash
      cases h
      exact .backslash
    next hbackslash =>
    split at h
    · next houtside =>
      subst houtside
      exact moves_of_stepOutside hbackslash h
    · next houtside => exact moves_of_stepClass houtside hbackslash h
  | escaped place => exact moves_of_stepEscaped h
  | quoted place =>
    simp only [step] at h
    split at h
    · next hend =>
      obtain ⟨rfl, hend⟩ := hend
      cases h
      exact .unquote hend
    · next hend =>
      cases h
      exact .quoted hend
  | quoteEnds place =>
    cases h
    exact .quoteEnd
  | groupMark =>
    cases h
    exact .groupMark

theorem step_of_moves (h : Moves s c rest written s') : step s c rest = .ok (written, s') := by
  cases h with
  | backslash | openClass | negate | closeClass | begins | ends | quote | quoteEnd | groupMark => rfl
  | openGroup hmark hallowed => simp [step, stepOutside, hmark, hallowed]
  | outside hbackslash hopen hgroup hpossessive hcount =>
    simp only [step, stepOutside, hbackslash, hopen, hgroup, hpossessive, if_false, if_true]
    rw [if_neg hcount]
  | bracket houtside hinside => simp [step, stepClass, houtside, hinside]
  | member houtside hbackslash hnegate hclose hopen hboth =>
    simp [step, stepClass, houtside, hbackslash, hnegate, hclose, hopen, hboth]
  | @escape place c rest hclass hend hcontinue hanchor hquote =>
    have hbegins : ¬(c = 'A' ∧ place = .outside) := fun h => hanchor ⟨.inl h.1, h.2⟩
    have hends : ¬(c = 'z' ∧ place = .outside) := fun h => hanchor ⟨.inr h.1, h.2⟩
    simp only [step, stepEscaped, not_or.mpr hclass, hend, hcontinue, hbegins, hends, hquote, if_false]
  | unquote hend => simp [step, hend]
  | quoted hend => simp only [step, if_neg hend]

theorem bodyFrom_of_step (h : step s c rest = .ok (written, s')) :
    bodyFrom s (c :: rest) = (written ++ ·) <$> bodyFrom s' rest := by
  rw [bodyFrom, h]
  rfl

theorem bodyFrom_cons_eq_ok :
    bodyFrom s (c :: rest) = .ok written ↔
      ∃ first s' later, step s c rest = .ok (first, s') ∧ bodyFrom s' rest = .ok later ∧
        first ++ later = written := by
  constructor
  · intro h
    obtain ⟨⟨first, s'⟩, hstep, h⟩ := Except.bind_eq_ok.mp h
    obtain ⟨later, hlater, h⟩ := Except.bind_eq_ok.mp h
    cases h
    exact ⟨first, s', later, hstep, hlater, rfl⟩
  · rintro ⟨first, s', later, hstep, hlater, rfl⟩
    rw [bodyFrom_of_step hstep, hlater]
    rfl

/-- The character that a state is about to take unseen is the one that it was entered for. -/
def Expects : State → List Char → Prop
  | .groupMark, source => source.head? = some '?'
  | .quoteEnds _, source => source.head? = some 'E'
  | _, _ => True

theorem expects_step (h : step s c rest = .ok (written, s')) : Expects s' rest := by
  cases moves_of_step h with
  | openGroup hmark => exact hmark
  | unquote hend => exact hend
  | _ => trivial

end Autoescape.Pattern
