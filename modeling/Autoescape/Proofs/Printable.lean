import Autoescape.Literal.CharClass
import Autoescape.Literal.Quoted
import Autoescape.Pattern.Literal
import Autoescape.Proofs.Except
import Autoescape.Proofs.Hex
import Autoescape.Proofs.PatternStep

/-!
# What literals are made of

String literals and character classes hold printable ASCII only, whatever they stand for. Patterns
may hold more, but no line end.
-/
namespace Autoescape.Literal

namespace Character

theorem isPrintable_digitChar {k : Nat} (h : k < 16) : isPrintable (Nat.digitChar k) = true := by
  have hall : ∀ k < 16, isPrintable (Nat.digitChar k) = true := by decide
  exact hall k h

theorem exists_of_isPrintable {c : Char} (h : isPrintable c = true) : ∃ n < 95, c = Char.ofNat (n + 32) := by
  simp only [isPrintable, Bool.and_eq_true, decide_eq_true_eq, Char.le_def, UInt32.le_iff_toNat_le] at h
  have hlow : 32 ≤ c.toNat := h.1
  have hhigh : c.toNat ≤ 126 := h.2
  refine ⟨c.toNat - 32, by omega, ?_⟩
  rw [Nat.sub_add_cancel hlow, Char.ofNat_toNat]

theorem isPrintable_byNumber {c d : Char} (h : d ∈ byNumber c) : isPrintable d = true := by
  have hdigits {width n : Nat} (h : d ∈ Text.Hex.padded width n) : isPrintable d = true := by
    rcases Text.Hex.exists_of_mem_padded h with ⟨k, hk, rfl⟩
    exact isPrintable_digitChar hk
  unfold byNumber at h
  split at h
  all_goals
    simp only [List.mem_cons] at h
    rcases h with rfl | rfl | h
    · decide
    · decide
    · exact hdigits h

theorem isPrintable_stringEscape? {c : Char} {text : List Char} (h : stringEscape? c = some text) :
    text.all isPrintable = true := by
  unfold stringEscape? at h
  split at h
  all_goals
    cases h
    try decide

theorem isPrintable_inString {c d : Char} (h : d ∈ inString c) : isPrintable d = true := by
  unfold inString at h
  split at h
  · next text htext => exact List.all_eq_true.mp (isPrintable_stringEscape? htext) d h
  · split at h
    · next hprintable =>
      obtain rfl : d = c := by simpa using h
      exact hprintable
    · exact isPrintable_byNumber h

theorem isPrintable_alone {c d : Char} (h : d ∈ alone c) : isPrintable d = true := by
  unfold alone at h
  split at h
  · exact isPrintable_inString h
  · exact isPrintable_byNumber h

theorem isPrintable_inClass {c d : Char} (h : d ∈ inClass c) : isPrintable d = true := by
  unfold inClass at h
  split at h
  · next hprintable =>
    split at h
    · obtain rfl | rfl : d = '\\' ∨ d = c := by simpa using h
      · decide
      · exact hprintable
    · exact isPrintable_inString h
  · exact isPrintable_byNumber h

end Character

theorem Quoted.isPrintable_quote {text : List Char} {d : Char}
    (htext : ∀ d ∈ text, Character.isPrintable d = true) (h : d ∈ quote text) :
    Character.isPrintable d = true := by
  simp only [quote, List.mem_cons, List.mem_append, List.not_mem_nil, or_false] at h
  rcases h with rfl | h | rfl
  · decide
  · exact htext d h
  · decide

theorem Quoted.isPrintable_ofText {s : String} {d : Char} (h : d ∈ (ofText s).toList) :
    Character.isPrintable d = true := by
  rw [ofText, String.toList_ofList] at h
  refine isPrintable_quote (fun d hd => ?_) h
  rcases List.mem_flatMap.mp hd with ⟨c, -, hc⟩
  exact Character.isPrintable_inString hc

theorem Quoted.isPrintable_ofChar {c d : Char} (h : d ∈ (ofChar c).toList) :
    Character.isPrintable d = true := by
  rw [ofChar, String.toList_ofList] at h
  exact isPrintable_quote (fun d hd => Character.isPrintable_alone hd) h

theorem CharClass.isPrintable_matcher {chars : List Char} {d : Char} (h : d ∈ (matcher chars).toList) :
    Character.isPrintable d = true := by
  simp only [matcher, String.toList_ofList, List.mem_cons, List.mem_append, List.mem_flatMap,
    List.not_mem_nil, or_false] at h
  rcases h with rfl | rfl | ⟨r, -, h⟩ | rfl | rfl | rfl
  · decide
  · decide
  · unfold Run.text at h
    split at h
    · exact Character.isPrintable_inClass h
    · rcases List.mem_append.mp h with h | h
      · exact Character.isPrintable_inClass h
      · rcases List.mem_cons.mp h with rfl | h
        · decide
        · exact Character.isPrintable_inClass h
  · decide
  · decide
  · decide

end Autoescape.Literal

namespace Autoescape.Pattern

/-- Whether a text holds no character that ends a line, as a pattern literal has to. -/
def isSingleLine (text : List Char) : Bool := text.all fun c => (lineEnd? c).isNone

@[simp] theorem isSingleLine_nil : isSingleLine [] = true := rfl

@[simp] theorem isSingleLine_cons (c : Char) (text : List Char) :
    isSingleLine (c :: text) = ((lineEnd? c).isNone && isSingleLine text) := rfl

@[simp] theorem isSingleLine_append (text text' : List Char) :
    isSingleLine (text ++ text') = (isSingleLine text && isSingleLine text') := List.all_append

theorem isSingleLine_of_lineEnd? {c : Char} {text : List Char} (h : lineEnd? c = some text) :
    isSingleLine text = true := by
  unfold lineEnd? at h
  split at h
  all_goals
    cases h
    try decide

theorem isSingleLine_kept (c : Char) : isSingleLine (kept c) = true := by
  unfold kept
  split
  · next text htext => exact isSingleLine_of_lineEnd? htext
  · next hnone =>
    split
    · decide
    · simp [hnone]

theorem isSingleLine_keptEscape (c : Char) : isSingleLine (keptEscape c) = true := by
  have hbackslash : (lineEnd? '\\').isNone = true := by decide
  unfold keptEscape
  cases hend : lineEnd? c with
  | some text => exact isSingleLine_of_lineEnd? hend
  | none => simp [hend, hbackslash]

theorem isSingleLine_literally (c : Char) : isSingleLine (literally c) = true := by
  have hbackslash : (lineEnd? '\\').isNone = true := by decide
  unfold literally
  split
  · next text htext => exact isSingleLine_of_lineEnd? htext
  · next hnone =>
    split
    · simp [hnone, hbackslash]
    · simp [hnone]

variable {s s' : State} {c : Char} {rest written : List Char}

theorem isSingleLine_step (h : step s c rest = .ok (written, s')) : isSingleLine written = true := by
  cases moves_of_step h with
  | backslash | quote | unquote | quoteEnd => rfl
  | openClass | openGroup | negate | closeClass | bracket | begins | ends | groupMark => decide
  | outside | member => exact isSingleLine_kept c
  | escape => exact isSingleLine_keptEscape c
  | quoted => exact isSingleLine_literally c

theorem isSingleLine_bodyFrom {source : List Char} (h : bodyFrom s source = .ok written) :
    isSingleLine written = true := by
  induction source generalizing s written with
  | nil =>
    cases h
    cases s with
    | escaped place =>
      simp only [atEnd]
      decide
    | plain | quoted | quoteEnds | groupMark => rfl
  | cons c rest ih =>
    obtain ⟨first, s', later, hstep, hlater, rfl⟩ := bodyFrom_cons_eq_ok.mp h
    rw [isSingleLine_append, isSingleLine_step hstep, ih hlater]
    rfl

/-- A pattern has a literal when its dot stops at line ends and it has a body, which stands between
the slashes then. -/
theorem literal_eq_ok_iff {p : Pattern} {directive literal : String} :
    p.literal directive = .ok literal ↔ p.modes.dotAll = false ∧ ∃ written,
      body p.source.toList = .ok written ∧
      literal = String.ofList ('/' :: (written ++ '/' :: modeLetters p.modes)) := by
  unfold Pattern.literal literalChars
  cases hdot : p.modes.dotAll with
  | true => simp
  | false =>
    cases hbody : body p.source.toList with
    | error feature => simp
    | ok written => simp [Except.pure_eq_ok, eq_comm]

theorem literal_eq_ok {p : Pattern} {directive literal : String} (h : p.literal directive = .ok literal) :
    ∃ written, body p.source.toList = .ok written ∧
      literal.toList = '/' :: (written ++ '/' :: modeLetters p.modes) := by
  obtain ⟨-, written, hbody, rfl⟩ := literal_eq_ok_iff.mp h
  exact ⟨written, hbody, String.toList_ofList⟩

theorem isSingleLine_literal {p : Pattern} {directive literal : String}
    (h : p.literal directive = .ok literal) : isSingleLine literal.toList = true := by
  obtain ⟨written, hbody, htext⟩ := literal_eq_ok h
  have hslash : (lineEnd? '/').isNone = true := by decide
  have hletters : isSingleLine (modeLetters p.modes) = true := by
    unfold modeLetters
    cases p.modes.caseInsensitive <;> cases p.modes.multiline <;> decide
  simp [htext, hslash, hletters, isSingleLine_bodyFrom hbody]

end Autoescape.Pattern
