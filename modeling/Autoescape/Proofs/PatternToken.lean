import Autoescape.Proofs.Contents
import Autoescape.Proofs.Printable
import Autoescape.Registry

/-!
# Pattern literals as tokens

A scanner of the emitted language finds the end of a pattern literal without knowing what patterns
mean: it skips what a backslash escapes, and lets slashes be inside classes. The reader of the
host's patterns and the scanner are kept in step by `through?_step`. So the scanner stops where
the literal was meant to stop, unless a pattern ends too early or leaves nothing to write.
-/
namespace Autoescape.Pattern

/-- What a scanner knows inside the body of a pattern literal. -/
structure Scanner where
  inClass : Bool
  escaped : Bool
deriving DecidableEq

namespace Scanner

def start : Scanner := ⟨false, false⟩

def isLineEnd (c : Char) : Bool := c ∈ ['\n', '\r', '\u2028', '\u2029']

def read? (s : Scanner) (c : Char) : Option Scanner :=
  if isLineEnd c then none
  else if s.escaped then some { s with escaped := false }
  else if c = '\\' then some { s with escaped := true }
  else if c = '[' then some { s with inClass := true }
  else if c = ']' then some { s with inClass := false }
  else some s

def body? (s : Scanner) : List Char → Option (List Char × List Char)
  | [] => none
  | c :: rest =>
    if s = start ∧ c = '/' then some ([], rest)
    else do
      let s ← s.read? c
      let (body, rest) ← s.body? rest
      return (c :: body, rest)

end Scanner

structure Token where
  body : List Char
  flags : List Char
deriving DecidableEq

/-- The pattern literal at the beginning of a text, and what follows it. Two slashes, or a slash and
a star, begin a comment instead. All letters and digits behind the closing slash are flags. -/
def token? : List Char → Option (Token × List Char)
  | '/' :: c :: rest =>
    if c = '/' ∨ c = '*' then none
    else do
      let (body, rest) ← Scanner.start.body? (c :: rest)
      return (⟨body, rest.takeWhile Registry.isIdentPart⟩, rest.dropWhile Registry.isIdentPart)
  | _ => none

/-- A literal is one token, up to the semicolon behind it: its body and its flags are those that the
token has. -/
def IsToken (literal : String) (t : Token) : Prop :=
  literal.toList = '/' :: (t.body ++ '/' :: t.flags) ∧
    ∀ rest, token? (literal.toList ++ ';' :: rest) = some (t, ';' :: rest)

namespace Scanner

def through? (s : Scanner) : List Char → Option Scanner
  | [] => some s
  | c :: rest => if s = start ∧ c = '/' then none else (s.read? c).bind (through? · rest)

variable {s t u : Scanner} {a b text rest flags : List Char} {inside : Bool} {c : Char}

theorem through?_append (ha : s.through? a = some t) (hb : t.through? b = some u) :
    s.through? (a ++ b) = some u := by
  induction a generalizing s with
  | nil =>
    obtain rfl : s = t := by simpa [through?] using ha
    exact hb
  | cons c a ih =>
    rw [through?] at ha
    split at ha
    · cases ha
    · next hopen =>
      rcases Option.bind_eq_some_iff.mp ha with ⟨next, hread, ha⟩
      rw [List.cons_append, through?, if_neg hopen, hread]
      exact ih ha

theorem body?_append (h : s.through? text = some t) :
    s.body? (text ++ rest) = (t.body? rest).map fun r => (text ++ r.1, r.2) := by
  induction text generalizing s with
  | nil =>
    obtain rfl : s = t := by simpa [through?] using h
    simp
  | cons c text ih =>
    rw [through?] at h
    split at h
    · cases h
    · next hopen =>
      rcases Option.bind_eq_some_iff.mp h with ⟨next, hread, h⟩
      rw [List.cons_append, body?, if_neg hopen, hread]
      cases hrest : t.body? rest with
      | none => simp [ih h, hrest]
      | some r => simp [ih h, hrest]

theorem body?_slash_iff (h : s.through? text = some t) (rest : List Char) :
    s.body? (text ++ '/' :: rest) = some (text, rest) ↔ t = start := by
  rw [body?_append h]
  constructor
  · intro hbody
    rcases Option.map_eq_some_iff.mp hbody with ⟨⟨tail, behind⟩, htail, heq⟩
    obtain ⟨rfl, rfl⟩ : tail = [] ∧ behind = rest := by simpa using heq
    by_contra hopen
    rw [body?, if_neg (by simp [hopen])] at htail
    rcases Option.bind_eq_some_iff.mp htail with ⟨next, -, htail⟩
    rcases Option.bind_eq_some_iff.mp htail with ⟨r, -, htail⟩
    cases htail
  · rintro rfl
    simp [body?]

theorem ne_slash_of_through? (h : start.through? (c :: text) = some t) : c ≠ '/' := by
  rintro rfl
  simp [through?] at h

/-- What was written between slashes is one token when there is something between them that begins no
comment, and the scanner is back at the start behind it. -/
theorem token?_eq_some_iff (h : start.through? text = some t)
    (hflags : flags.all Registry.isIdentPart = true) (rest : List Char) :
    token? ('/' :: (text ++ '/' :: (flags ++ ';' :: rest))) = some (⟨text, flags⟩, ';' :: rest) ↔
      text ≠ [] ∧ text.head? ≠ some '*' ∧ t = start := by
  have hsemicolon : ¬Registry.isIdentPart ';' = true := by decide
  have hflags := List.all_eq_true.mp hflags
  have htake : (flags ++ ';' :: rest).takeWhile Registry.isIdentPart = flags := by
    rw [List.takeWhile_append_of_pos hflags, List.takeWhile_cons_of_neg hsemicolon, List.append_nil]
  have hdrop : (flags ++ ';' :: rest).dropWhile Registry.isIdentPart = ';' :: rest := by
    rw [List.dropWhile_append_of_pos hflags, List.dropWhile_cons_of_neg hsemicolon]
  cases text with
  | nil => simp [token?]
  | cons c text =>
    have hslash := ne_slash_of_through? h
    by_cases hstar : c = '*'
    · simp [token?, hstar]
    · rw [List.cons_append, token?, if_neg (by simp [hslash, hstar]), ← List.cons_append]
      simp only [ne_eq, reduceCtorEq, not_false_eq_true, List.head?_cons, Option.some.injEq, hstar,
        true_and, ← body?_slash_iff h (flags ++ ';' :: rest)]
      constructor
      · intro htoken
        rcases Option.bind_eq_some_iff.mp htoken with ⟨⟨body, behind⟩, hbody, heq⟩
        obtain ⟨⟨rfl, hfront⟩, hbehind⟩ : (body = c :: text ∧ _ = flags) ∧ _ = ';' :: rest := by
          simpa [pure] using heq
        have hwhole := List.takeWhile_append_dropWhile (p := Registry.isIdentPart) (l := behind)
        rw [hfront, hbehind] at hwhole
        rw [hbody, ← hwhole]
      · intro hbody
        rw [hbody]
        simp [htake, hdrop]

def isOrdinary (c : Char) : Bool := !isLineEnd c && c ∉ ['\\', '/', '[', ']']

theorem through?_ordinary (h : ∀ c ∈ text, isOrdinary c = true) :
    (⟨inside, false⟩ : Scanner).through? text = some ⟨inside, false⟩ := by
  induction text with
  | nil => rfl
  | cons c text ih =>
    rcases List.forall_mem_cons.mp h with ⟨hc, htext⟩
    simp only [isOrdinary, Bool.and_eq_true, Bool.not_eq_true', decide_eq_true_eq, List.mem_cons,
      List.not_mem_nil, or_false, not_or] at hc
    rcases hc with ⟨hend, hbackslash, hslash, hopen, hclose⟩
    simp [through?, read?, hend, hbackslash, hslash, hopen, hclose, ih htext]

theorem through?_escape (h : isLineEnd c = false) :
    (⟨inside, false⟩ : Scanner).through? ['\\', c] = some ⟨inside, false⟩ := by
  have hbackslash : isLineEnd '\\' = false := by decide
  simp [through?, read?, h, hbackslash, start]

end Scanner

open Scanner

theorem isLineEnd_eq (c : Char) : isLineEnd c = (lineEnd? c).isSome := by
  unfold isLineEnd lineEnd?
  split
  · rfl
  · rfl
  · rfl
  · rfl
  · simp_all

section Written

variable {c : Char} {inside : Bool} {text : List Char}

theorem through?_lineEnd? (h : lineEnd? c = some text) :
    (⟨inside, false⟩ : Scanner).through? text = some ⟨inside, false⟩ := by
  unfold lineEnd? at h
  split at h
  all_goals
    cases h
    try cases inside <;> decide

theorem isLineEnd_of_lineEnd? (h : lineEnd? c = none) : isLineEnd c = false := by
  rw [isLineEnd_eq, h]
  rfl

theorem through?_kept (hbackslash : c ≠ '\\') (hopen : c ≠ '[') (hclose : c = ']' → inside = false) :
    (⟨inside, false⟩ : Scanner).through? (kept c) = some ⟨inside, false⟩ := by
  unfold kept
  split
  · next text htext => exact through?_lineEnd? htext
  · next hnone =>
    have hend := isLineEnd_of_lineEnd? hnone
    split
    · exact through?_escape (by decide)
    · next hslash =>
      by_cases hc : c = ']'
      · subst hc
        rw [hclose rfl]
        decide
      · simp [through?, read?, hend, hbackslash, hopen, hslash, hc]

theorem through?_keptEscape (c : Char) :
    (⟨inside, false⟩ : Scanner).through? (keptEscape c) = some ⟨inside, false⟩ := by
  unfold keptEscape
  cases hend : lineEnd? c with
  | some text => exact through?_lineEnd? hend
  | none => exact through?_escape (isLineEnd_of_lineEnd? hend)

theorem through?_literally (c : Char) :
    (⟨inside, false⟩ : Scanner).through? (literally c) = some ⟨inside, false⟩ := by
  unfold literally
  split
  · next text htext => exact through?_lineEnd? htext
  · next hnone =>
    have hend := isLineEnd_of_lineEnd? hnone
    split
    · exact through?_escape hend
    · next hspecial =>
      apply through?_ordinary
      simp only [isSpecial, List.mem_cons, List.not_mem_nil, or_false, decide_eq_true_eq, not_or] at hspecial
      simp [isOrdinary, hend, hspecial]

end Written

/-- Where the scanner is when the reader of the host's pattern is there. The backslash of an escape is
written together with what it escapes. -/
def State.scanner : State → Scanner
  | .plain place | .escaped place | .quoted place | .quoteEnds place => ⟨place ≠ .outside, false⟩
  | .groupMark => .start

section Step

variable {s s' : State} {place : Place} {c : Char} {rest source written : List Char}

@[simp] theorem Place.entered_eq_outside_iff : place.entered = .outside ↔ place = .outside := by
  cases place <;> simp [entered]

theorem scanner_of_ne (h : place ≠ .outside) : (State.plain place).scanner = ⟨true, false⟩ := by
  simp [State.scanner, h]

theorem scanner_entered : (State.plain place.entered).scanner = (State.plain place).scanner := by
  simp [State.scanner]

/-- What the reader writes for one character takes the scanner where the reader goes. -/
theorem through?_step (h : step s c rest = .ok (written, s')) :
    s.scanner.through? written = some s'.scanner := by
  cases moves_of_step h with
  | backslash | unquote | quoteEnd => rfl
  | openClass | openGroup | negate | closeClass | begins | ends | groupMark => decide
  | outside hbackslash hopen => exact through?_kept hbackslash hopen fun _ => rfl
  | bracket houtside =>
    rw [scanner_of_ne houtside]
    decide
  | member houtside hbackslash _ hclose hopen =>
    rw [scanner_of_ne houtside]
    exact through?_kept hbackslash hopen fun heq => absurd heq hclose
  | quote => exact congrArg some scanner_entered.symm
  | escape =>
    rw [scanner_entered]
    exact through?_keptEscape c
  | quoted => exact through?_literally c

def finalFrom (s : State) : List Char → State
  | [] => s
  | c :: rest =>
    match step s c rest with
    | .ok (_, s) => finalFrom s rest
    | .error _ => s

theorem finalFrom_of_step (h : step s c rest = .ok (written, s')) :
    finalFrom s (c :: rest) = finalFrom s' rest := by
  rw [finalFrom, h]

def State.isClosed : State → Bool
  | .plain place | .quoted place | .quoteEnds place => place = .outside
  | .escaped _ => false
  | .groupMark => true

def closes (p : Pattern) : Bool := (finalFrom (.plain .outside) p.source.toList).isClosed

theorem through?_bodyFrom (h : bodyFrom s source = .ok written) : ∃ t,
    s.scanner.through? written = some t ∧ (t = start ↔ (finalFrom s source).isClosed = true) := by
  induction source generalizing s written with
  | nil =>
    cases h
    cases s with
    | escaped place =>
      refine ⟨⟨place ≠ .outside, true⟩, ?_, by simp [finalFrom, State.isClosed, start]⟩
      cases place <;> decide
    | groupMark => exact ⟨start, rfl, by decide⟩
    | plain place | quoted place | quoteEnds place =>
      exact ⟨_, rfl, by simp [finalFrom, State.isClosed, State.scanner, start]⟩
  | cons c rest ih =>
    obtain ⟨first, s', later, hstep, hlater, rfl⟩ := bodyFrom_cons_eq_ok.mp h
    obtain ⟨t, hthrough, hclosed⟩ := ih hlater
    refine ⟨t, through?_append (through?_step hstep) hthrough, ?_⟩
    rwa [finalFrom_of_step hstep]

end Step

theorem isIdentPart_modeLetters (m : Modes) : (modeLetters m).all Registry.isIdentPart = true := by
  unfold modeLetters
  cases m.caseInsensitive <;> cases m.multiline <;> decide

/-- The literal of a pattern is one token exactly when there is a body, the body begins with no star,
and the pattern closes. -/
theorem isToken_literal_iff {p : Pattern} {directive literal : String}
    (h : p.literal directive = .ok literal) : ∃ written, body p.source.toList = .ok written ∧
      literal.toList = '/' :: (written ++ '/' :: modeLetters p.modes) ∧
      (IsToken literal ⟨written, modeLetters p.modes⟩ ↔
        written ≠ [] ∧ written.head? ≠ some '*' ∧ p.closes = true) := by
  obtain ⟨written, hbody, htext⟩ := literal_eq_ok h
  obtain ⟨t, hthrough, hclosed⟩ := through?_bodyFrom hbody
  refine ⟨written, hbody, htext, ?_⟩
  simp only [IsToken, htext, true_and, List.cons_append, List.append_assoc,
    token?_eq_some_iff hthrough (isIdentPart_modeLetters p.modes), hclosed, forall_const, closes]

end Autoescape.Pattern

namespace Autoescape.Literal.CharClass
open Pattern Scanner

variable {inside : Bool} {text : List Char}

theorem isOrdinary_of_mem_padded {width n : Nat} {d : Char} (h : d ∈ Text.Hex.padded width n) :
    isOrdinary d = true := by
  have hall : ∀ k < 16, isOrdinary (Nat.digitChar k) = true := by decide
  rcases Text.Hex.exists_of_mem_padded h with ⟨k, hk, rfl⟩
  exact hall k hk

theorem through?_byNumber (c : Char) :
    (⟨inside, false⟩ : Scanner).through? (Character.byNumber c) = some ⟨inside, false⟩ := by
  unfold Character.byNumber
  split
  · exact through?_append (a := ['\\', 'u']) (through?_escape (by decide))
      (through?_ordinary fun _ => isOrdinary_of_mem_padded)
  · exact through?_append (a := ['\\', 'x']) (through?_escape (by decide))
      (through?_ordinary fun _ => isOrdinary_of_mem_padded)

/-- A printable member of a class leaves the class open: a look at all of them. -/
theorem through?_inClass_printable {c : Char} (h : Character.isPrintable c = true) :
    (⟨true, false⟩ : Scanner).through? (Character.inClass c) = some ⟨true, false⟩ := by
  have hall : ∀ n < 95, (⟨true, false⟩ : Scanner).through? (Character.inClass (Char.ofNat (n + 32)))
      = some ⟨true, false⟩ := by decide +kernel
  obtain ⟨n, hn, rfl⟩ := Character.exists_of_isPrintable h
  exact hall n hn

theorem through?_inClass (c : Char) :
    (⟨true, false⟩ : Scanner).through? (Character.inClass c) = some ⟨true, false⟩ := by
  by_cases hc : Character.isPrintable c = true
  · exact through?_inClass_printable hc
  · rw [Character.inClass, if_neg hc]
    exact through?_byNumber c

theorem through?_text (r : Run) :
    (⟨true, false⟩ : Scanner).through? r.text = some ⟨true, false⟩ := by
  unfold Run.text
  split
  · exact through?_inClass r.first
  · refine through?_append (through?_inClass r.first) ?_
    exact through?_append (a := ['-']) (by decide) (through?_inClass r.last)

theorem through?_runs (runs : List Run) :
    (⟨true, false⟩ : Scanner).through? (runs.flatMap Run.text) = some ⟨true, false⟩ := by
  induction runs with
  | nil => rfl
  | cons r runs ih => exact through?_append (through?_text r) ih

/-- A matcher is one token, whatever it matches. -/
theorem isToken_matcher (chars : List Char) : ∃ body, IsToken (matcher chars) ⟨body, ['g']⟩ := by
  have hthrough : start.through? ('[' :: ((runs chars).flatMap Run.text ++ [']'])) = some start :=
    through?_append (a := ['[']) (by decide)
      (through?_append (through?_runs (runs chars)) (by decide))
  refine ⟨'[' :: ((runs chars).flatMap Run.text ++ [']']), by simp [matcher], fun rest => ?_⟩
  have hflags : ['g'].all Registry.isIdentPart = true := by decide
  have htoken := (token?_eq_some_iff hthrough hflags rest).mpr ⟨by simp, by simp, rfl⟩
  simpa [matcher] using htoken

end Autoescape.Literal.CharClass

namespace Autoescape.Plan
open Block

variable {available : String → Bool} {directives : List Directive} {p : Plan}

theorem literals_ofDirectives (h : ofDirectives available directives = .ok p) :
    (∀ s ∈ p.resources.matchers, ∃ chars, s.value = Literal.CharClass.matcher chars) ∧
      ∀ s ∈ p.resources.filters, ∃ d ∈ directives, ∃ pattern, d.filter = some pattern ∧
        pattern.literal d.identifier = .ok s.value := by
  let q : Resources.Traits :=
    { owner := fun _ => True, table := fun _ => True,
      matcher := fun literal => ∃ chars, literal = Literal.CharClass.matcher chars,
      filter := fun literal => ∃ d ∈ directives, ∃ pattern, d.filter = some pattern ∧
        pattern.literal d.identifier = .ok literal }
  have hbrings (d : Directive) (hd : d ∈ directives) : d.Brings q :=
    ⟨trivial, fun _ _ => trivial, fun t _ => ⟨t.keys, rfl⟩,
      fun pattern literal hpattern hliteral => ⟨d, hd, pattern, hpattern, hliteral⟩⟩
  have hhave := have_ofDirectives (q := q) (fun _ _ _ _ => trivial) (fun d hd _ => hbrings d hd) h
  exact ⟨fun s hs => (hhave.matchers s hs).value, fun s hs => (hhave.filters s hs).value⟩

end Autoescape.Plan

namespace Autoescape.Generation
open Block Pattern

/-- What the pattern definitions among some statements come to. Every matcher is one token. A filter,
which is the literal of some directive's pattern, is one token whose end is the slash that was
written last exactly when there is a body, the body begins with no star, and the pattern closes. -/
structure DefinesPatterns (directives : List Directive) (statements : List Statement) : Prop where
  matcher : ∀ label literal, .matcher label literal ∈ statements → ∃ body, IsToken literal ⟨body, ['g']⟩
  filter : ∀ label literal, .filter label literal ∈ statements → ∃ d ∈ directives, ∃ pattern written,
    d.filter = some pattern ∧ body pattern.source.toList = .ok written ∧
    literal.toList = '/' :: (written ++ '/' :: modeLetters pattern.modes) ∧
    (IsToken literal ⟨written, modeLetters pattern.modes⟩ ↔
      written ≠ [] ∧ written.head? ≠ some '*' ∧ pattern.closes = true)

/-- Which pattern definitions of a block are what they are meant to be. -/
theorem definitions_are_tokens_iff {available : String → Bool} {directives : List Directive}
    {block : String} (h : generate available directives = .ok block) : ∃ p statements,
      Plan.ofDirectives available directives = .ok p ∧
      p.statements? (available reporter) = some statements ∧
      block = Plan.textOfLines (Plan.blockLines statements) ∧ DefinesPatterns directives statements := by
  rcases generate_eq_ok.mp h with ⟨p, statements, hplan, hstatements, hblock⟩
  rcases Plan.literals_ofDirectives hplan with ⟨hmatchers, hfilters⟩
  have hcontents := Plan.ofStatements_statements? (Plan.both_of_mem_wirings hplan) hstatements
  refine ⟨p, statements, hplan, hstatements, hblock, ⟨fun label literal hmem => ?_, fun label literal hmem => ?_⟩⟩
  · have hmatcher : (label, literal) ∈ p.contents.matchers := by
      rw [← hcontents]
      exact List.mem_filterMap.mpr ⟨_, hmem, rfl⟩
    rcases Pool.exists_of_mem_labelled hmatcher with ⟨s, hs, rfl⟩
    rcases hmatchers s hs with ⟨chars, hchars⟩
    rw [hchars]
    exact Literal.CharClass.isToken_matcher chars
  · have hfilter : (label, literal) ∈ p.contents.filters := by
      rw [← hcontents]
      exact List.mem_filterMap.mpr ⟨_, hmem, rfl⟩
    rcases Pool.exists_of_mem_labelled hfilter with ⟨s, hs, rfl⟩
    rcases hfilters s hs with ⟨d, hd, pattern, hpattern, hliteral⟩
    rcases isToken_literal_iff hliteral with ⟨written, hwritten, htext, htoken⟩
    exact ⟨d, hd, pattern, written, hpattern, hwritten, htext, htoken⟩

/-- A directive with a matcher and a filter, both of which are tokens. -/
theorem definitions_are_tokens_of_filterName :
    let d := (Directive.ofName "filterName").escape '<' "&lt;"
    ∃ block, generate (fun _ => false) [{ d with filter := some ⟨"^[a-z/]+$", .plain⟩ }] = .ok block ∧
      ∃ p statements, Plan.ofDirectives (fun _ => false)
          [{ d with filter := some ⟨"^[a-z/]+$", .plain⟩ }] = .ok p ∧
        p.statements? false = some statements ∧
        block = Plan.textOfLines (Plan.blockLines statements) ∧
        DefinesPatterns [{ d with filter := some ⟨"^[a-z/]+$", .plain⟩ }] statements :=
  ⟨_, rfl, definitions_are_tokens_iff rfl⟩

/-- An empty pattern is defined as two slashes, which begin a comment. -/
theorem empty_pattern_is_no_token :
    let d := { Directive.ofName "filterAny" with filter := some ⟨"", .plain⟩ }
    Registry.vetNames "escapers.json" d = .ok () ∧
      (generate (fun _ => false) [d]).isOk = true ∧
      ∃ p statements, Plan.ofDirectives (fun _ => false) [d] = .ok p ∧
        p.statements? false = some statements ∧ .filter "FILTER_ANY" "//" ∈ statements ∧
        ∀ rest, token? ("//".toList ++ ';' :: rest) = none :=
  ⟨by decide +kernel, by decide +kernel, _, _, rfl, rfl, List.mem_cons_self, fun _ => rfl⟩

end Autoescape.Generation
