import Autoescape.Block.Text
import Autoescape.Proofs.Printable
import Autoescape.Proofs.Strip
import Mathlib.Data.List.DropRight

/-!
# The lines of a block

No line of a block can be taken for the line that ends it. All lines are written on one line each,
and what they begin with is known from the statement that they belong to.
-/
namespace Autoescape.Block

def OneLine (s : String) : Prop := ∀ c ∈ s.toList, c ≠ '\n' ∧ c ≠ '\r'

/-- A line whose first visible character is there, and is no slash. -/
def Begun (line : String) : Prop :=
  OneLine line ∧ (line.toList.dropWhile Text.Blank.isBlank).head?.any (· ≠ '/') = true

theorem OneLine.ofList {l : List Char} (h : (l.all fun c => c ≠ '\n' ∧ c ≠ '\r') = true) :
    OneLine (String.ofList l) := by
  intro c hc
  rw [String.toList_ofList] at hc
  simpa using List.all_eq_true.mp h c hc

theorem Begun.ofList {l : List Char} (h : (l.all fun c => c ≠ '\n' ∧ c ≠ '\r') = true)
    (hink : (l.dropWhile Text.Blank.isBlank).head?.any (· ≠ '/') = true) : Begun (String.ofList l) :=
  ⟨.ofList h, by rwa [String.toList_ofList]⟩

theorem OneLine.append {s t : String} (hs : OneLine s) (ht : OneLine t) : OneLine (s ++ t) := by
  intro c hc
  rw [String.toList_append, List.mem_append] at hc
  rcases hc with hc | hc
  · exact hs c hc
  · exact ht c hc

theorem Begun.append {s t : String} (hs : Begun s) (ht : OneLine t) : Begun (s ++ t) := by
  refine ⟨hs.1.append ht, ?_⟩
  rw [String.toList_append, List.dropWhile_append]
  have hink := hs.2
  cases hdrop : s.toList.dropWhile Text.Blank.isBlank with
  | nil => simp [hdrop] at hink
  | cons c rest => simpa [hdrop] using hink

theorem Begun.indent {l : List Char} {t : String} (hl : l.all (· = ' ') = true) (ht : Begun t) :
    Begun (String.ofList l ++ t) := by
  simp only [List.all_eq_true, decide_eq_true_eq] at hl
  have hone : OneLine (String.ofList l) := by
    intro c hc
    rw [String.toList_ofList] at hc
    rw [hl c hc]
    decide
  have hdrop : l.dropWhile Text.Blank.isBlank = [] := by
    rw [List.dropWhile_eq_nil_iff]
    intro c hc
    rw [hl c hc]
    decide
  refine ⟨hone.append ht.1, ?_⟩
  rw [String.toList_append, String.toList_ofList, List.dropWhile_append, hdrop]
  exact ht.2

/-- A line that begins otherwise is not the line that ends a block. -/
theorem Begun.not_isMarker {line : String} (h : Begun line) :
    ¬Source.isMarker endMarker line.toList := by
  intro hmarker
  -- the marker is what trimming leaves, so its slash is the first visible character
  have htrim : Text.Blank.trim line.toList = endMarker.toList := of_decide_eq_true hmarker
  have hprefix : endMarker.toList <+: line.toList.dropWhile Text.Blank.isBlank :=
    htrim ▸ List.rdropWhile_prefix Text.Blank.isBlank _
  rcases hprefix with ⟨rest, hrest⟩
  have hslash : (line.toList.dropWhile Text.Blank.isBlank).head? = some '/' := by
    rw [← hrest]
    rfl
  have hink := h.2
  rw [hslash] at hink
  exact absurd hink (by decide)

/-- A line whose first character is there, and does not begin the namespace. -/
def Aside (line : String) : Prop := line.toList.head?.any (· ≠ 's') = true

theorem Aside.ofList {l : List Char} (h : l.head?.any (· ≠ 's') = true) : Aside (String.ofList l) := by
  rwa [Aside, String.toList_ofList]

theorem Aside.append {line : String} (h : Aside line) (rest : String) : Aside (line ++ rest) := by
  unfold Aside at h ⊢
  rw [String.toList_append]
  cases hline : line.toList with
  | nil => simp [hline] at h
  | cons c tail => simpa [hline] using h

/-- A line that belongs to a statement but assigns nothing. -/
structure Inner (line : String) : Prop where
  begun : Begun line
  aside : Aside line

namespace Inner

theorem ofList {l : List Char} (h : (l.all fun c => c ≠ '\n' ∧ c ≠ '\r') = true)
    (hink : (l.dropWhile Text.Blank.isBlank).head?.any (· ≠ '/') = true)
    (hfirst : l.head?.any (· ≠ 's') = true) : Inner (String.ofList l) :=
  ⟨.ofList h hink, .ofList hfirst⟩

theorem append {s t : String} (hs : Inner s) (ht : OneLine t) : Inner (s ++ t) :=
  ⟨hs.begun.append ht, hs.aside.append t⟩

theorem indent {l : List Char} {t : String} (hl : l.all (· = ' ') = true)
    (hfirst : l.head?.any (· ≠ 's') = true) (ht : Begun t) : Inner (String.ofList l ++ t) :=
  ⟨.indent hl ht, .append (.ofList hfirst) t⟩

end Inner

/-- What a line inside a block can be. -/
def Fits (line : String) : Prop := line = "" ∨ line = "/**" ∨ Begun line

theorem Fits.whole {line : String} (h : Fits line) : Text.Line.Whole line.toList := by
  rcases h with rfl | rfl | ⟨hone, -⟩
  · exact ⟨by decide, by decide⟩
  · exact ⟨by decide, by decide⟩
  · refine ⟨fun hmem => (hone _ hmem).1 rfl, fun hlast => ?_⟩
    exact (hone _ (List.mem_of_getLast? hlast)).2 rfl

theorem Fits.not_isMarker {line : String} (h : Fits line) :
    ¬Source.isMarker endMarker line.toList := by
  rcases h with rfl | rfl | hbegun
  · decide
  · decide
  · exact hbegun.not_isMarker

theorem toList_textOfLines (lines : List String) :
    (Plan.textOfLines lines).toList = Text.Line.text (lines.map String.toList) := by
  simp [Plan.textOfLines, Text.Line.text, String.toList_join, List.flatMap_map]

/-- A block of lines that fit is found again. -/
theorem isBlock_of_fits {statements : List Statement}
    (h : ∀ s ∈ statements, ∀ line ∈ s.lines, Fits line) :
    Source.IsBlock (Plan.textOfLines (Plan.blockLines statements)) := by
  refine ⟨(statements.flatMap Statement.lines ++ [""]).map String.toList, ?_, ?_⟩
  · intro line hline
    rcases List.mem_map.mp hline with ⟨text, htext, rfl⟩
    have hfits : Fits text := by
      rcases List.mem_append.mp htext with htext | hblank
      · rcases List.mem_flatMap.mp htext with ⟨s, hs, hmem⟩
        exact h s hs text hmem
      · exact .inl (by simpa using hblank)
    exact ⟨hfits.whole, hfits.not_isMarker⟩
  · simp [toList_textOfLines, Plan.blockLines]

theorem OneLine.of_forall {s : String} {p : Char → Prop} (hfeed : ¬p '\n') (hreturn : ¬p '\r')
    (h : ∀ c ∈ s.toList, p c) : OneLine s := by
  intro c hc
  constructor
  · rintro rfl
    exact hfeed (h _ hc)
  · rintro rfl
    exact hreturn (h _ hc)

theorem oneLine_of_isPrintable {s : String}
    (h : ∀ c ∈ s.toList, Literal.Character.isPrintable c = true) : OneLine s :=
  .of_forall (by decide) (by decide) h

theorem oneLine_ofText (s : String) : OneLine (Literal.Quoted.ofText s) :=
  oneLine_of_isPrintable fun _ => Literal.Quoted.isPrintable_ofText

theorem oneLine_ofChar (c : Char) : OneLine (Literal.Quoted.ofChar c) :=
  oneLine_of_isPrintable fun _ => Literal.Quoted.isPrintable_ofChar

theorem oneLine_matcher (chars : List Char) : OneLine (Literal.CharClass.matcher chars) :=
  oneLine_of_isPrintable fun _ => Literal.CharClass.isPrintable_matcher

theorem oneLine_literal {p : Pattern} {directive literal : String}
    (h : p.literal directive = .ok literal) : OneLine literal :=
  .of_forall (p := fun c => (Pattern.lineEnd? c).isNone = true) (by decide) (by decide)
    (List.all_eq_true.mp (Pattern.isSingleLine_literal h))

/-- What holds of the characters of some texts and of a separator holds of those of the joined text. -/
theorem forall_mem_intercalate {p : Char → Prop} {separator : String} {parts : List String}
    (hseparator : ∀ c ∈ separator.toList, p c) (h : ∀ part ∈ parts, ∀ c ∈ part.toList, p c) :
    ∀ c ∈ (separator.intercalate parts).toList, p c := by
  induction parts with
  | nil => simp
  | cons first rest ih =>
    rcases List.forall_mem_cons.mp h with ⟨hfirst, hrest⟩
    cases rest with
    | nil => simpa using hfirst
    | cons second rest =>
      rw [String.intercalate_cons_cons, String.toList_append, String.toList_append]
      exact List.forall_mem_append.mpr ⟨List.forall_mem_append.mpr ⟨hfirst, hseparator⟩, ih hrest⟩

def Statement.OneLine : Statement → Prop
  | .forwarding f => Block.OneLine f.directive ∧ Block.OneLine f.function
  | .table label _ => Block.OneLine label
  | .replacer label => Block.OneLine label
  | .matcher label literal => Block.OneLine label ∧ Block.OneLine literal
  | .filter label literal => Block.OneLine label ∧ Block.OneLine literal
  | .helper directive check replacing => Block.OneLine directive ∧
    (∀ k ∈ check, Block.OneLine k.filter) ∧
    ∀ r ∈ replacing, Block.OneLine r.matcher ∧ Block.OneLine r.table
  | .tagPattern => True
  | .openPattern => True
  | .safeTags => True

theorem oneLine_set (texts : List String) : OneLine (Literal.Quoted.set texts) := by
  have hparts : OneLine (", ".intercalate (texts.map fun s => Literal.Quoted.ofText s ++ ": 1")) := by
    refine forall_mem_intercalate (OneLine.ofList (by decide)) fun part hpart => ?_
    rcases List.mem_map.mp hpart with ⟨text, -, rfl⟩
    exact (oneLine_ofText text).append (.ofList (by decide))
  exact .append (.append (.ofList (by decide)) hparts) (.ofList (by decide))

theorem begun_scope : Begun scope := .ofList (by decide) (by decide)

section Symbol

variable {label : String} (h : OneLine label)

include h

theorem oneLine_tableSymbol : OneLine (tableSymbol label) :=
  .append (.append (.ofList (by decide)) h) (.ofList (by decide))

theorem oneLine_replacerSymbol : OneLine (replacerSymbol label) :=
  .append (.append (.ofList (by decide)) h) (.ofList (by decide))

theorem oneLine_matcherSymbol : OneLine (matcherSymbol label) :=
  .append (.append (.ofList (by decide)) h) (.ofList (by decide))

theorem oneLine_filterSymbol : OneLine (filterSymbol label) :=
  .append (.append (.ofList (by decide)) h) (.ofList (by decide))

theorem oneLine_helperSymbol : OneLine (helperSymbol label) := h.append (.ofList (by decide))

end Symbol

theorem entryLines_cons (e : Char × String) (entries : List (Char × String)) :
    entryLines (e :: entries) =
      (entryLine e ++ if entries.isEmpty then "" else ",") :: entryLines entries := by
  cases entries <;> simp [entryLines]

theorem inner_entryLines (entries : List (Char × String)) : ∀ line ∈ entryLines entries, Inner line := by
  have hkey (c : Char) : Begun (Literal.Quoted.ofChar c) := by
    refine ⟨oneLine_ofChar c, ?_⟩
    rw [Literal.Quoted.ofChar, String.toList_ofList]
    rfl
  have hentry (e : Char × String) : Inner (entryLine e) :=
    .append (.append (.indent (by decide) rfl (hkey e.1)) (.ofList (by decide))) (oneLine_ofText e.2)
  induction entries with
  | nil => simp [entryLines]
  | cons e entries ih =>
    rw [entryLines_cons]
    refine List.forall_mem_cons.mpr ⟨(hentry e).append ?_, ih⟩
    split <;> exact .ofList (by decide)

theorem inner_checkLines {k : Check} (directive : String) (hfilter : OneLine k.filter) :
    ∀ line ∈ checkLines directive k, Inner line := by
  intro line hline
  simp only [checkLines, List.mem_append, List.mem_cons, List.not_mem_nil, or_false] at hline
  rcases hline with (rfl | hreport) | rfl | rfl
  · exact .append (.append (.append (.ofList (by decide) (by decide) rfl) begun_scope.1)
      (oneLine_filterSymbol hfilter)) (.ofList (by decide))
  · split at hreport
    · rw [List.mem_singleton] at hreport
      subst hreport
      have hreporter : Begun reporter := .ofList (by decide) (by decide)
      exact .append (.append (.append (.indent (by decide) rfl hreporter) (.ofList (by decide)))
        (oneLine_ofText _)) (.ofList (by decide))
    · exact absurd hreport (by simp)
  · exact .append (.append (.ofList (by decide) (by decide) rfl) (oneLine_ofText _)) (.ofList (by decide))
  · exact .ofList (by decide) (by decide) rfl

theorem inner_resultLines {replacing : Option Replacing}
    (h : ∀ r ∈ replacing, OneLine r.matcher ∧ OneLine r.table) :
    ∀ line ∈ resultLines replacing, Inner line := by
  cases replacing with
  | none =>
    simp only [resultLines, List.mem_singleton]
    rintro line rfl
    exact .ofList (by decide) (by decide) rfl
  | some r =>
    rcases h r rfl with ⟨hmatcher, htable⟩
    simp only [resultLines, List.mem_cons, List.not_mem_nil, or_false]
    rintro line (rfl | rfl | rfl)
    · exact .ofList (by decide) (by decide) rfl
    · exact .append (.append (.indent (by decide) rfl begun_scope) (oneLine_matcherSymbol hmatcher))
        (.ofList (by decide))
    · exact .append (.append (.indent (by decide) rfl begun_scope) (oneLine_replacerSymbol htable))
        (.ofList (by decide))

namespace Statement

theorem inner_comment {s : Statement} (h : s.OneLine) : ∀ line ∈ s.comment, Inner line := by
  cases s with
  | helper directive check replacing =>
    simp only [comment, List.mem_cons, List.not_mem_nil, or_false]
    rintro line (rfl | rfl | rfl)
    · exact .append (.ofList (by decide) (by decide) rfl) h.1
    · exact .ofList (by decide) (by decide) rfl
    · exact .ofList (by decide) (by decide) rfl
  | _ =>
    -- all other comments are literals
    simp only [comment]
    repeat refine List.forall_mem_cons.mpr ⟨.ofList (by decide) (by decide) rfl, ?_⟩
    exact List.forall_mem_nil _

theorem oneLine_symbol {s : Statement} (h : s.OneLine) : Block.OneLine s.symbol := by
  cases s with
  | forwarding f => exact oneLine_helperSymbol h.1
  | table label t => exact oneLine_tableSymbol h
  | replacer label => exact oneLine_replacerSymbol h
  | matcher label literal => exact oneLine_matcherSymbol h.1
  | filter label literal => exact oneLine_filterSymbol h.1
  | helper directive check replacing => exact oneLine_helperSymbol h.1
  | tagPattern | openPattern | safeTags => exact .ofList (by decide)

theorem oneLine_value {s : Statement} (h : s.OneLine) : Block.OneLine s.value.1 := by
  cases s with
  | matcher label literal => exact h.2.append (.ofList (by decide))
  | filter label literal => exact h.2.append (.ofList (by decide))
  | tagPattern => exact (oneLine_literal literal_htmlTag).append (.ofList (by decide))
  | safeTags => exact (oneLine_set _).append (.ofList (by decide))
  | forwarding | table | replacer | helper | openPattern => exact .ofList (by decide)

/-- The lines behind the one that assigns are indented, or close what it opened. -/
theorem inner_value {s : Statement} (h : s.OneLine) : ∀ line ∈ s.value.2, Inner line := by
  intro line hline
  cases s with
  | forwarding f =>
    simp only [value, List.mem_cons, List.not_mem_nil, or_false] at hline
    rcases hline with rfl | rfl
    · exact .append (.append (.ofList (by decide) (by decide) rfl) h.2) (.ofList (by decide))
    · exact .ofList (by decide) (by decide) rfl
  | table label t =>
    simp only [value, List.mem_append, List.mem_singleton] at hline
    rcases hline with hentry | rfl
    · exact inner_entryLines t.entries line hentry
    · exact .ofList (by decide) (by decide) rfl
  | replacer label =>
    simp only [value, List.mem_cons, List.not_mem_nil, or_false] at hline
    rcases hline with rfl | rfl
    · exact .append (.append (.append (.ofList (by decide) (by decide) rfl) begun_scope.1)
        (oneLine_tableSymbol h)) (.ofList (by decide))
    · exact .ofList (by decide) (by decide) rfl
  | helper directive check replacing =>
    simp only [value, List.mem_cons, List.mem_append, List.not_mem_nil, or_false] at hline
    rcases hline with rfl | (hcheck | hresult) | rfl
    · exact .ofList (by decide) (by decide) rfl
    · cases check with
      | none => simp at hcheck
      | some k => exact inner_checkLines directive (h.2.1 k rfl) line hcheck
    · exact inner_resultLines h.2.2 line hresult
    · exact .ofList (by decide) (by decide) rfl
  | matcher | filter | tagPattern | openPattern | safeTags => simp [value] at hline

def body (s : Statement) : List String :=
  "/**" :: (s.comment ++ " */" :: (scope ++ s.symbol ++ " = " ++ s.value.1) :: s.value.2)

theorem lines_eq (s : Statement) : s.lines = "" :: s.body := by
  simp [lines, body]

theorem begun_body {s : Statement} (h : s.OneLine) : ∀ line ∈ s.body, line = "/**" ∨ Begun line := by
  intro line hline
  simp only [body, List.mem_cons, List.mem_append] at hline
  rcases hline with rfl | hcomment | rfl | rfl | hvalue
  · exact .inl rfl
  · exact .inr (inner_comment h line hcomment).begun
  · exact .inr (.ofList (by decide) (by decide))
  · exact .inr (.append (.append (begun_scope.append (oneLine_symbol h)) (.ofList (by decide)))
      (oneLine_value h))
  · exact .inr (inner_value h line hvalue).begun

theorem fits_lines {s : Statement} (h : s.OneLine) : ∀ line ∈ s.lines, Fits line := by
  intro line hline
  rw [lines_eq] at hline
  rcases List.mem_cons.mp hline with rfl | hline
  · exact .inl rfl
  · exact .inr (begun_body h line hline)

end Statement

/-- The lines of a block are read back from its text. -/
theorem lines_textOfLines {statements : List Statement} (h : ∀ s ∈ statements, s.OneLine) :
    Text.Line.lines (Plan.textOfLines (Plan.blockLines statements)).toList =
      (Plan.blockLines statements).map String.toList := by
  rw [toList_textOfLines]
  apply Text.Line.lines_text
  intro line hline
  rcases List.mem_map.mp hline with ⟨text, htext, rfl⟩
  simp only [Plan.blockLines, List.mem_cons, List.mem_append, List.mem_flatMap, List.not_mem_nil,
    or_false] at htext
  rcases htext with rfl | ⟨s, hs, hmem⟩ | rfl | rfl
  · exact ⟨by decide, by decide⟩
  · exact (Statement.fits_lines (h s hs) text hmem).whole
  · exact ⟨by decide, by decide⟩
  · exact ⟨by decide, by decide⟩

end Autoescape.Block
