import Autoescape.Proofs.CharClass.Runs
import Autoescape.Proofs.Printable

/-!
# Reading a character class

A global pattern that is one character class, read as patterns over sixteen-bit code units are.
What stands between the brackets is cut into units and plain minus signs; a minus sign between
two units makes them the ends of a range, any other stands for itself. The escapes that this
reader does not know (sets of characters, control letters, NUL) it refuses.
`read?_matcher` says that a matcher reads back as its runs.
-/
namespace Autoescape.Literal.CharClass

/-- A member of a class as it is written: a unit, or a minus sign without a backslash. -/
inductive Piece where
  | unit (n : Nat)
  | minus
deriving DecidableEq

def Piece.number : Piece → Nat
  | .unit n => n
  | .minus => 0x2D

/-- What the reader makes of the next character: a member, what a backslash escapes, or a digit
that so many more follow. -/
inductive Stage where
  | plain
  | escaped
  | numeral (missing value : Nat)
deriving DecidableEq

def control? (c : Char) : Option Nat :=
  match c with
  | 'b' => some 0x08
  | 't' => some 0x09
  | 'n' => some 0x0A
  | 'v' => some 0x0B
  | 'f' => some 0x0C
  | 'r' => some 0x0D
  | _ => none

def isSign (c : Char) : Bool := ' ' ≤ c && c ≤ '~' && !c.isAlphanum && c ≠ '_'

/-- The characters that stand for themselves: single units that end no line and mean nothing else. -/
def isBare (c : Char) : Bool :=
  c.toNat < 0x10000 && c ∉ ['\n', '\r', '\u2028', '\u2029', '\\', ']', '-']

def Stage.read? (s : Stage) (c : Char) : Option (List Piece × Stage) :=
  match s with
  | .plain =>
    if c = '\\' then some ([], .escaped)
    else if c = '-' then some ([.minus], .plain)
    else if isBare c then some ([.unit c.toNat], .plain)
    else none
  | .escaped =>
    if c = 'x' then some ([], .numeral 1 0)
    else if c = 'u' then some ([], .numeral 3 0)
    else match control? c with
      | some n => some ([.unit n], .plain)
      | none => if isSign c then some ([.unit c.toNat], .plain) else none
  | .numeral missing value => do
    let k ← Json.hexDigit? c
    match missing with
    | 0 => return ([.unit (value * 16 + k)], .plain)
    | missing + 1 => return ([], .numeral missing (value * 16 + k))

def Stage.readAll? (s : Stage) : List Char → Option (List Piece × Stage)
  | [] => some ([], s)
  | c :: rest => do
    let (first, s) ← s.read? c
    let (later, s) ← s.readAll? rest
    return (first ++ later, s)

def pieces? (s : Stage) : List Char → Option (List Piece × List Char)
  | [] => none
  | c :: rest =>
    if s = .plain ∧ c = ']' then some ([], rest)
    else do
      let (first, s) ← s.read? c
      let (later, rest) ← pieces? s rest
      return (first ++ later, rest)

structure Span where
  first : Nat
  last : Nat
deriving DecidableEq

/-- The spans that members make; a range that ends before it begins is an error. -/
def spans? : List Piece → Option (List Span)
  | [] => some []
  | a :: .minus :: b :: rest =>
    if a.number ≤ b.number then (spans? rest).map (⟨a.number, b.number⟩ :: ·) else none
  | a :: rest => (spans? rest).map (⟨a.number, a.number⟩ :: ·)

structure Class where
  negated : Bool
  spans : List Span
deriving DecidableEq

def Class.accepts (k : Class) (u : UInt16) : Bool :=
  (k.spans.any fun s => s.first ≤ u.toNat && u.toNat ≤ s.last) != k.negated

/-- The class of a text between its opening and its closing bracket, when the global flag and
nothing else follows. -/
def body? (negated : Bool) (text : List Char) : Option Class := do
  let (pieces, rest) ← pieces? .plain text
  if rest = ['/', 'g'] then return ⟨negated, ← spans? pieces⟩ else none

/-- The class of a global pattern literal that is a character class and nothing else. -/
def read? (literal : String) : Option Class :=
  match literal.toList with
  | '/' :: '[' :: '^' :: rest => body? true rest
  | '/' :: '[' :: rest => body? false rest
  | _ => none

theorem Stage.readAll?_append {s t u : Stage} {a b : List Char} {before behind : List Piece}
    (ha : s.readAll? a = some (before, t)) (hb : t.readAll? b = some (behind, u)) :
    s.readAll? (a ++ b) = some (before ++ behind, u) := by
  induction a generalizing s before with
  | nil =>
    obtain ⟨rfl, rfl⟩ : [] = before ∧ s = t := by simpa [readAll?] using ha
    exact hb
  | cons c a ih =>
    simp only [readAll?, Option.bind_eq_bind, Option.bind_eq_some_iff] at ha
    obtain ⟨⟨first, v⟩, hfirst, ⟨later, w⟩, hlater, heq⟩ := ha
    obtain ⟨rfl, rfl⟩ : first ++ later = before ∧ w = t := by simpa using heq
    simp [readAll?, hfirst, ih hlater]

/-- What reads back to the plain stage holds no bracket that closes the class. -/
theorem pieces?_append {s : Stage} {text rest : List Char} {before : List Piece}
    (h : s.readAll? text = some (before, .plain)) :
    pieces? s (text ++ rest) = (pieces? .plain rest).map fun r => (before ++ r.1, r.2) := by
  induction text generalizing s before with
  | nil =>
    obtain ⟨rfl, rfl⟩ : [] = before ∧ s = .plain := by simpa [Stage.readAll?] using h
    simp
  | cons c text ih =>
    simp only [Stage.readAll?, Option.bind_eq_bind, Option.bind_eq_some_iff] at h
    obtain ⟨⟨first, v⟩, hfirst, ⟨later, w⟩, hlater, heq⟩ := h
    obtain ⟨rfl, rfl⟩ : first ++ later = before ∧ w = .plain := by simpa using heq
    -- a plain stage reads no closing bracket, so the class is still open
    have hopen : ¬(s = .plain ∧ c = ']') := by
      rintro ⟨rfl, rfl⟩
      simp [Stage.read?, isBare] at hfirst
    rw [List.cons_append, pieces?, if_neg hopen, hfirst]
    cases hrest : pieces? .plain rest with
    | none => simp [ih hlater, hrest]
    | some r => simp [ih hlater, hrest]

section Members

variable {c : Char}

theorem readAll?_lastDigits_two {n : Nat} (h : n < 16 ^ 2) :
    (Stage.numeral 1 0).readAll? (Text.Hex.lastDigits 2 n) = some ([.unit n], .plain) := by
  have h0 := Text.Hex.hexDigit?_digitChar (n := n / 16 % 16) (by omega)
  have h1 := Text.Hex.hexDigit?_digitChar (n := n % 16) (by omega)
  have hn : n / 16 % 16 * 16 + n % 16 = n := by omega
  simp [Text.Hex.lastDigits, Stage.readAll?, Stage.read?, h0, h1, hn]

theorem readAll?_lastDigits_four {n : Nat} (h : n < 16 ^ 4) :
    (Stage.numeral 3 0).readAll? (Text.Hex.lastDigits 4 n) = some ([.unit n], .plain) := by
  have h0 := Text.Hex.hexDigit?_digitChar (n := n / 16 / 16 / 16 % 16) (by omega)
  have h1 := Text.Hex.hexDigit?_digitChar (n := n / 16 / 16 % 16) (by omega)
  have h2 := Text.Hex.hexDigit?_digitChar (n := n / 16 % 16) (by omega)
  have h3 := Text.Hex.hexDigit?_digitChar (n := n % 16) (by omega)
  have hn : ((n / 16 / 16 / 16 % 16 * 16 + n / 16 / 16 % 16) * 16 + n / 16 % 16) * 16 + n % 16 = n := by
    omega
  simp [Text.Hex.lastDigits, Stage.readAll?, Stage.read?, h0, h1, h2, h3, hn]

theorem readAll?_byNumber (h : c.toNat ≤ 0xFFFF) :
    Stage.plain.readAll? (Character.byNumber c) = some ([.unit c.toNat], .plain) := by
  unfold Character.byNumber
  split
  · have hdigits := readAll?_lastDigits_four (n := c.toNat) (by omega)
    rw [Text.Hex.padded_eq_lastDigits 3 (by omega)]
    exact Stage.readAll?_append (s := .plain) (a := ['\\', 'u']) rfl hdigits
  · have hdigits := readAll?_lastDigits_two (n := c.toNat) (by omega)
    rw [Text.Hex.padded_eq_lastDigits 1 (by omega)]
    exact Stage.readAll?_append (s := .plain) (a := ['\\', 'x']) rfl hdigits

/-- A printable character is written in one of three ways, and each reads back: a look at all of
them. -/
theorem readAll?_inClass_printable (h : Character.isPrintable c = true) :
    Stage.plain.readAll? (Character.inClass c) = some ([.unit c.toNat], .plain) ∧
      (Character.inClass c).head?.any (· ≠ '^') = true := by
  have hall : ∀ n < 95, Stage.plain.readAll? (Character.inClass (Char.ofNat (n + 32))) =
      some ([.unit (Char.ofNat (n + 32)).toNat], .plain) ∧
      (Character.inClass (Char.ofNat (n + 32))).head?.any (· ≠ '^') = true := by
    decide +kernel
  obtain ⟨n, hn, rfl⟩ := Character.exists_of_isPrintable h
  exact hall n hn

theorem readAll?_inClass (h : c.toNat ≤ 0xFFFF) :
    Stage.plain.readAll? (Character.inClass c) = some ([.unit c.toNat], .plain) := by
  by_cases hc : Character.isPrintable c = true
  · exact (readAll?_inClass_printable hc).1
  · rw [Character.inClass, if_neg hc]
    exact readAll?_byNumber h

/-- No member of a class begins with the sign of negation. -/
theorem inClass_eq_cons (c : Char) : ∃ d rest, Character.inClass c = d :: rest ∧ d ≠ '^' := by
  by_cases hc : Character.isPrintable c = true
  · obtain ⟨d, hd, hne⟩ := (Option.any_eq_true _ _).mp (readAll?_inClass_printable hc).2
    obtain ⟨rest, hrest⟩ := List.head?_eq_some_iff.mp hd
    exact ⟨d, rest, hrest, by simpa using hne⟩
  · rw [Character.inClass, if_neg hc, Character.byNumber]
    split <;> exact ⟨_, _, rfl, by decide⟩

end Members

def Run.pieces (r : Run) : List Piece :=
  if r.first = r.last then [.unit r.first.toNat]
  else [.unit r.first.toNat, .minus, .unit r.last.toNat]

def Run.span (r : Run) : Span := ⟨r.first.toNat, r.last.toNat⟩

theorem readAll?_text {r : Run} (hfirst : r.first.toNat ≤ 0xFFFF) (hlast : r.last.toNat ≤ 0xFFFF) :
    Stage.plain.readAll? r.text = some (r.pieces, .plain) := by
  unfold Run.text Run.pieces
  split
  · exact readAll?_inClass hfirst
  · have hrange : Stage.plain.readAll? ('-' :: Character.inClass r.last) =
        some ([.minus, .unit r.last.toNat], .plain) :=
      Stage.readAll?_append (s := .plain) (a := ['-']) rfl (readAll?_inClass hlast)
    exact Stage.readAll?_append (readAll?_inClass hfirst) hrange

theorem readAll?_runs {runs : List Run}
    (h : ∀ r ∈ runs, r.first.toNat ≤ 0xFFFF ∧ r.last.toNat ≤ 0xFFFF) :
    Stage.plain.readAll? (runs.flatMap Run.text) = some (runs.flatMap Run.pieces, .plain) := by
  induction runs with
  | nil => rfl
  | cons r rest ih =>
    obtain ⟨hr, hrest⟩ := List.forall_mem_cons.mp h
    rw [List.flatMap_cons, List.flatMap_cons]
    exact Stage.readAll?_append (readAll?_text hr.1 hr.2) (ih hrest)

/-- The members of runs make one span for each run: no run begins with a minus sign, so none is
drawn into the one before it. -/
theorem spans?_pieces {runs : List Run} (h : ∀ r ∈ runs, r.first.toNat ≤ r.last.toNat) :
    spans? (runs.flatMap Run.pieces) = some (runs.map Run.span) := by
  induction runs with
  | nil => rfl
  | cons r rest ih =>
    obtain ⟨hr, hrest⟩ := List.forall_mem_cons.mp h
    have ih := ih hrest
    rw [List.flatMap_cons, List.map_cons, Run.pieces]
    split
    · next heq =>
      -- what follows a single unit is a unit again, never a minus sign
      have hsingle : spans? (.unit r.first.toNat :: rest.flatMap Run.pieces) =
          (spans? (rest.flatMap Run.pieces)).map
            (⟨r.first.toNat, r.first.toNat⟩ :: ·) := by
        cases rest with
        | nil => rfl
        | cons s rest =>
          rw [List.flatMap_cons, Run.pieces]
          split <;> simp [spans?, Piece.number]
      rw [List.singleton_append, hsingle, ih, Run.span, ← heq]
      rfl
    · simp [spans?, Piece.number, hr, ih, Run.span]

theorem read?_of_runs (runs : List Run) (rest : List Char) :
    read? (String.ofList ('/' :: '[' :: (runs.flatMap Run.text ++ ']' :: rest))) =
      body? false (runs.flatMap Run.text ++ ']' :: rest) := by
  unfold read?
  rw [String.toList_ofList]
  cases runs with
  | nil => rfl
  | cons r runs =>
    obtain ⟨d, tail, hd, hne⟩ := inClass_eq_cons r.first
    have htext : ∃ tail, r.text = d :: tail := by
      unfold Run.text
      split
      · exact ⟨tail, hd⟩
      · exact ⟨_, by rw [hd]; rfl⟩
    obtain ⟨tail, htext⟩ := htext
    rw [List.flatMap_cons, htext]
    simp [hne]

theorem read?_matcher {chars : List Char} (h : ∀ c ∈ chars, c.toNat ≤ 0xFFFF) :
    read? (matcher chars) = some ⟨false, (runs chars).map Run.span⟩ := by
  have htidy := tidy_runs chars
  -- the ends of a run are covered, so they are characters of the matcher
  have hends (r : Run) (hr : r ∈ runs chars) : r.first.toNat ≤ 0xFFFF ∧ r.last.toNat ≤ 0xFFFF := by
    have hle := htidy.first_le_last r hr
    obtain ⟨c, hc, heq⟩ := (covers_runs chars _).mp ⟨r, hr, hle, Nat.le_refl r.last.toNat⟩
    have hlast := h c hc
    omega
  rw [matcher, read?_of_runs, body?, pieces?_append (readAll?_runs hends)]
  simp [pieces?, spans?_pieces htidy.first_le_last]

theorem accepts_matcher {chars : List Char} (h : ∀ c ∈ chars, c.toNat ≤ 0xFFFF) :
    ∃ k, read? (matcher chars) = some k ∧
      ∀ u : UInt16, k.accepts u = true ↔ ∃ c ∈ chars, c.toNat = u.toNat := by
  refine ⟨_, read?_matcher h, fun u => ?_⟩
  rw [← covers_runs]
  simp only [Class.accepts, Bool.bne_false, List.any_eq_true, List.mem_map, Bool.and_eq_true,
    decide_eq_true_eq, exists_exists_and_eq_and]
  rfl

end Autoescape.Literal.CharClass
