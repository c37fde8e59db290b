import Autoescape.Proofs.PatternStep
import Autoescape.Proofs.PatternToken
import Autoescape.Proofs.Symbols

/-!
# Which blocks are ASCII

All that a block says is ASCII when names are checked, but for the literals of filters: they keep
the characters of their patterns. `block_ascii_iff` says exactly when that matters: a block is ASCII
unless a directive that is not handed on has a pattern with a character above U+007F, other than
the two separators that end lines.
-/
namespace Autoescape

def Ascii (s : String) : Prop := ∀ c ∈ s.toList, c.toNat < 0x80

namespace Ascii

@[simp] theorem append_iff {s t : String} : Ascii (s ++ t) ↔ Ascii s ∧ Ascii t := by
  simp only [Ascii, String.toList_append, List.forall_mem_append]

theorem append {s t : String} (hs : Ascii s) (ht : Ascii t) : Ascii (s ++ t) := append_iff.mpr ⟨hs, ht⟩

theorem ofList {l : List Char} (h : (l.all fun c => c.toNat < 0x80) = true) : Ascii (String.ofList l) := by
  intro c hc
  rw [String.toList_ofList] at hc
  simpa using List.all_eq_true.mp h c hc

theorem of_isPrintable {s : String} (h : ∀ c ∈ s.toList, Literal.Character.isPrintable c = true) :
    Ascii s := by
  intro c hc
  have hprintable := h c hc
  simp only [Literal.Character.isPrintable, Bool.and_eq_true, decide_eq_true_eq, Char.le_def,
    UInt32.le_iff_toNat_le] at hprintable
  exact Nat.lt_of_le_of_lt hprintable.2 (by decide)

end Ascii

theorem Plain.ascii {name : String} (h : Plain name) : Ascii name :=
  fun c hc => Registry.toNat_lt_of_isIdentPart (h c hc)

theorem Registry.ascii_function {path : String} {d : Directive} (h : vetNames path d = .ok ())
    {function : String} (hmem : function ∈ d.functions) : Ascii function := by
  intro c hc
  rcases isIdentPart_of_isQualified ((vetNames_eq_ok.mp h).2 function hmem) c hc with rfl | hpart
  · decide
  · exact toNat_lt_of_isIdentPart hpart

namespace Pattern

/-- The characters that come out of a pattern as ASCII: those of ASCII, and the line ends outside it,
which are always written as escapes. -/
def Portable (c : Char) : Prop := c.toNat < 0x80 ∨ c = '\u2028' ∨ c = '\u2029'

/-- What is written for a character is ASCII exactly when the character is portable. -/
def Shows (c : Char) (written : List Char) : Prop := (∀ d ∈ written, d.toNat < 0x80) ↔ Portable c

section Step

variable {s s' : State} {place : Place} {c : Char} {rest source written : List Char}

theorem Shows.of_portable (hc : Portable c) (h : (written.all fun d => d.toNat < 0x80) = true) :
    Shows c written :=
  ⟨fun _ => hc, fun _ d hd => by simpa using List.all_eq_true.mp h d hd⟩

theorem Shows.of_ascii (hc : c.toNat < 0x80) (h : (written.all fun d => d.toNat < 0x80) = true) :
    Shows c written :=
  .of_portable (.inl hc) h

theorem shows_of_lineEnd? (h : lineEnd? c = some written) : Shows c written := by
  unfold lineEnd? at h
  split at h
  · cases h
    exact .of_ascii (by decide) (by decide)
  · cases h
    exact .of_ascii (by decide) (by decide)
  · cases h
    exact .of_portable (.inr (.inl rfl)) (by decide)
  · cases h
    exact .of_portable (.inr (.inr rfl)) (by decide)
  · cases h

theorem portable_iff_of_lineEnd? (h : lineEnd? c = none) : Portable c ↔ c.toNat < 0x80 := by
  refine ⟨?_, .inl⟩
  rintro (hc | rfl | rfl)
  · exact hc
  · cases h
  · cases h

theorem shows_single (h : lineEnd? c = none) : Shows c [c] := by
  simp [Shows, portable_iff_of_lineEnd? h]

theorem shows_pair (h : lineEnd? c = none) : Shows c ['\\', c] := by
  simp [Shows, portable_iff_of_lineEnd? h]

theorem shows_kept (c : Char) : Shows c (kept c) := by
  unfold kept
  split
  · next text htext => exact shows_of_lineEnd? htext
  · next hnone =>
    split
    · next hslash =>
      subst hslash
      exact shows_pair hnone
    · exact shows_single hnone

theorem shows_keptEscape (c : Char) : Shows c (keptEscape c) := by
  unfold keptEscape
  cases hend : lineEnd? c with
  | some text => exact shows_of_lineEnd? hend
  | none => exact shows_pair hend

theorem shows_literally (c : Char) : Shows c (literally c) := by
  unfold literally
  split
  · next text htext => exact shows_of_lineEnd? htext
  · next hnone =>
    split
    · exact shows_pair hnone
    · exact shows_single hnone

theorem shows_step (hexpects : Expects s (c :: rest)) (h : step s c rest = .ok (written, s')) :
    Shows c written := by
  cases moves_of_step h with
  | backslash | openClass | openGroup | negate | closeClass | bracket | begins | ends | quote | unquote =>
    exact .of_ascii (by decide) (by decide)
  | outside | member => exact shows_kept c
  | escape => exact shows_keptEscape c
  | quoted => exact shows_literally c
  | quoteEnd =>
    obtain rfl : c = 'E' := Option.some.inj hexpects
    exact .of_ascii (by decide) (by decide)
  | groupMark =>
    obtain rfl : c = '?' := Option.some.inj hexpects
    exact .of_ascii (by decide) (by decide)

theorem ascii_bodyFrom_iff (hexpects : Expects s source) (h : bodyFrom s source = .ok written) :
    (∀ d ∈ written, d.toNat < 0x80) ↔ ∀ c ∈ source, Portable c := by
  induction source generalizing s written with
  | nil =>
    cases h
    cases s <;> simp [atEnd]
  | cons c rest ih =>
    obtain ⟨first, s', later, hstep, hlater, rfl⟩ := bodyFrom_cons_eq_ok.mp h
    have hfirst : (∀ d ∈ first, d.toNat < 0x80) ↔ Portable c := shows_step hexpects hstep
    rw [List.forall_mem_append, List.forall_mem_cons, hfirst, ih (expects_step hstep) hlater]

end Step

/-- A literal is ASCII exactly when all characters of the pattern are portable. -/
theorem ascii_literal_iff {p : Pattern} {directive literal : String}
    (h : p.literal directive = .ok literal) : Ascii literal ↔ ∀ c ∈ p.source.toList, Portable c := by
  obtain ⟨written, hbody, htext⟩ := literal_eq_ok h
  have hletters : ∀ d ∈ modeLetters p.modes, d.toNat < 0x80 := by
    unfold modeLetters
    cases p.modes.caseInsensitive <;> cases p.modes.multiline <;> simp
  rw [← ascii_bodyFrom_iff (s := .plain .outside) trivial hbody, Ascii, htext]
  simpa [or_imp, forall_and] using fun _ => hletters

end Pattern

namespace Block

theorem ascii_scope : Ascii scope := .ofList (by decide)

theorem ascii_ofText (s : String) : Ascii (Literal.Quoted.ofText s) :=
  .of_isPrintable fun _ => Literal.Quoted.isPrintable_ofText

theorem ascii_entryLines (entries : List (Char × String)) : ∀ line ∈ entryLines entries, Ascii line := by
  have hentry (e : Char × String) : Ascii (entryLine e) := by
    have hkey : Ascii (Literal.Quoted.ofChar e.1) := .of_isPrintable fun _ => Literal.Quoted.isPrintable_ofChar
    exact .append (.append (.append (.ofList (by decide)) hkey) (.ofList (by decide))) (ascii_ofText e.2)
  induction entries with
  | nil => simp [entryLines]
  | cons e entries ih =>
    rw [entryLines_cons]
    refine List.forall_mem_cons.mpr ⟨(hentry e).append ?_, ih⟩
    split <;> exact .ofList (by decide)

theorem ascii_checkLines {k : Check} (directive : String) (hfilter : Plain k.filter) :
    ∀ line ∈ checkLines directive k, Ascii line := by
  have hsymbol : Ascii (filterSymbol k.filter) :=
    .append (.append (.ofList (by decide)) hfilter.ascii) (.ofList (by decide))
  have hreporter : Ascii reporter := .ofList (by decide)
  simp only [checkLines, List.mem_append, List.mem_cons, List.not_mem_nil, or_false]
  rintro line ((rfl | hreport) | rfl | rfl)
  · exact .append (.append (.append (.ofList (by decide)) ascii_scope) hsymbol) (.ofList (by decide))
  · split at hreport
    · obtain rfl := List.mem_singleton.mp hreport
      exact .append (.append (.append (.append (.ofList (by decide)) hreporter) (.ofList (by decide)))
        (ascii_ofText _)) (.ofList (by decide))
    · exact absurd hreport List.not_mem_nil
  · exact .append (.append (.ofList (by decide)) (ascii_ofText _)) (.ofList (by decide))
  · exact .ofList (by decide)

theorem ascii_resultLines {replacing : Option Replacing}
    (h : ∀ r ∈ replacing, Plain r.matcher ∧ Plain r.table) :
    ∀ line ∈ resultLines replacing, Ascii line := by
  cases replacing with
  | none =>
    simp only [resultLines, List.mem_singleton]
    rintro line rfl
    exact .ofList (by decide)
  | some r =>
    obtain ⟨hmatcher, htable⟩ := h r rfl
    have hmatcher : Ascii (matcherSymbol r.matcher) :=
      .append (.append (.ofList (by decide)) hmatcher.ascii) (.ofList (by decide))
    have htable : Ascii (replacerSymbol r.table) :=
      .append (.append (.ofList (by decide)) htable.ascii) (.ofList (by decide))
    simp only [resultLines, List.mem_cons, List.not_mem_nil, or_false]
    rintro line (rfl | rfl | rfl)
    · exact .ofList (by decide)
    · exact .append (.append (.append (.ofList (by decide)) ascii_scope) hmatcher) (.ofList (by decide))
    · exact .append (.append (.append (.ofList (by decide)) ascii_scope) htable) (.ofList (by decide))

namespace Statement

/-- What a statement takes over as it is, besides names and labels, is ASCII. -/
def InAscii : Statement → Prop
  | .forwarding f => Ascii f.function
  | .matcher _ literal | .filter _ literal => Ascii literal
  | _ => True

theorem ascii_comment {s : Statement} (h : s.Named) : ∀ line ∈ s.comment, Ascii line := by
  cases s with
  | helper directive check replacing =>
    simp only [comment, List.mem_cons, List.not_mem_nil, or_false]
    rintro line (rfl | rfl | rfl)
    · exact .append (.ofList (by decide)) h.1.ascii
    · exact .ofList (by decide)
    · exact .ofList (by decide)
  | _ =>
    -- all other comments are literals
    simp only [comment]
    repeat refine List.forall_mem_cons.mpr ⟨.ofList (by decide), ?_⟩
    exact List.forall_mem_nil _

theorem ascii_value_iff {s : Statement} (h : s.Named) :
    (Ascii s.value.1 ∧ ∀ line ∈ s.value.2, Ascii line) ↔ s.InAscii := by
  have hopen : Ascii "\x7d;" := .ofList (by decide)
  cases s with
  | forwarding f =>
    have hfront : Ascii "  return " := .ofList (by decide)
    have hback : Ascii "(String(v));" := .ofList (by decide)
    have hfunction : Ascii "function(v) \x7b" := .ofList (by decide)
    simp [value, InAscii, hfunction, hfront, hback, hopen]
  | matcher label literal =>
    have hend : Ascii ";" := .ofList (by decide)
    simp [value, InAscii, hend]
  | filter label literal =>
    have hend : Ascii ";" := .ofList (by decide)
    simp [value, InAscii, hend]
  | table label t =>
    have hbrace : Ascii "\x7b" := .ofList (by decide)
    simpa [value, InAscii, hbrace, or_imp, forall_and, hopen] using ascii_entryLines t.entries
  | replacer label =>
    have hfunction : Ascii "function(ch) \x7b" := .ofList (by decide)
    have hfront : Ascii "  return " := .ofList (by decide)
    have hsymbol : Ascii (tableSymbol label) :=
      .append (.append (.ofList (by decide)) (Plain.ascii h)) (.ofList (by decide))
    have hback : Ascii "[ch];" := .ofList (by decide)
    simp [value, InAscii, hfunction, hfront, ascii_scope, hsymbol, hback, hopen]
  | helper directive check replacing =>
    have hfunction : Ascii "function(value) \x7b" := .ofList (by decide)
    have hvalue : Ascii "  var str = String(value);" := .ofList (by decide)
    have hcheck : ∀ line ∈ check.elim [] (checkLines directive), Ascii line := by
      cases check with
      | none => simp
      | some k => exact ascii_checkLines directive (h.2.1 k rfl)
    have hresult := ascii_resultLines h.2.2
    simp only [value, InAscii, List.forall_mem_cons, List.forall_mem_append, hfunction, hvalue,
      true_and, iff_true]
    exact ⟨⟨hcheck, hresult⟩, hopen, List.forall_mem_nil _⟩
  | safeTags =>
    have hset : Ascii (Literal.Quoted.set formattingTags) := by
      have hparts : Ascii (", ".intercalate (formattingTags.map fun s => Literal.Quoted.ofText s ++ ": 1")) := by
        refine forall_mem_intercalate (Ascii.ofList (by decide)) fun part hpart => ?_
        obtain ⟨text, -, rfl⟩ := List.mem_map.mp hpart
        exact (ascii_ofText text).append (.ofList (by decide))
      exact .append (.append (.ofList (by decide)) hparts) (.ofList (by decide))
    exact ⟨fun _ => trivial, fun _ => ⟨hset.append (.ofList (by decide)), List.forall_mem_nil _⟩⟩
  | tagPattern =>
    have hliteral : Ascii htmlTagLiteral := .ofList (by decide)
    exact ⟨fun _ => trivial, fun _ => ⟨hliteral.append (.ofList (by decide)), List.forall_mem_nil _⟩⟩
  | openPattern => exact ⟨fun _ => trivial, fun _ => ⟨.ofList (by decide), List.forall_mem_nil _⟩⟩

theorem ascii_lines_iff {s : Statement} (h : s.Named) : (∀ line ∈ s.lines, Ascii line) ↔ s.InAscii := by
  have hempty : Ascii "" := .ofList (by decide)
  have hbegin : Ascii "/**" := .ofList (by decide)
  have hend : Ascii " */" := .ofList (by decide)
  have hassign : Ascii " = " := .ofList (by decide)
  have hsymbol := (plain_symbol h).ascii
  have hcomment := ascii_comment h
  rw [← ascii_value_iff h]
  simp only [lines, List.forall_mem_cons, List.forall_mem_append, Ascii.append_iff, hempty, hbegin,
    hend, hassign, ascii_scope, hsymbol, true_and]
  refine ⟨fun hlines => ⟨hlines.1.2.1, hlines.2⟩, fun hvalue => ⟨⟨hcomment, hvalue.1, ?_⟩, hvalue.2⟩⟩
  exact List.forall_mem_nil _

end Statement

theorem ascii_textOfLines {lines : List String} :
    Ascii (Plan.textOfLines lines) ↔ ∀ line ∈ lines, Ascii line := by
  rw [Ascii, toList_textOfLines, Text.Line.text, List.flatMap_map]
  constructor
  · intro htext line hline c hc
    exact htext c (List.mem_flatMap.mpr ⟨line, hline, List.mem_append_left _ hc⟩)
  · intro hlines c hc
    obtain ⟨line, hline, hc⟩ := List.mem_flatMap.mp hc
    rcases List.mem_append.mp hc with hc | hfeed
    · exact hlines line hline c hc
    · obtain rfl := List.mem_singleton.mp hfeed
      decide

theorem ascii_blockLines_iff {statements : List Statement} (h : ∀ s ∈ statements, s.Named) :
    Ascii (Plan.textOfLines (Plan.blockLines statements)) ↔ ∀ s ∈ statements, s.InAscii := by
  have hstart : Ascii startMarker := .ofList (by decide)
  have hend : ∀ line ∈ ["", endMarker], Ascii line := by
    refine List.forall_mem_cons.mpr ⟨.ofList (by decide), ?_⟩
    exact List.forall_mem_cons.mpr ⟨.ofList (by decide), List.forall_mem_nil _⟩
  rw [ascii_textOfLines, Plan.blockLines, List.forall_mem_cons, List.forall_mem_append]
  constructor
  · rintro ⟨-, hlines, -⟩ s hs
    exact (Statement.ascii_lines_iff (h s hs)).mp fun line hline =>
      hlines line (List.mem_flatMap.mpr ⟨s, hs, hline⟩)
  · refine fun hstatements => ⟨hstart, fun line hline => ?_, hend⟩
    obtain ⟨s, hs, hline⟩ := List.mem_flatMap.mp hline
    exact (Statement.ascii_lines_iff (h s hs)).mpr (hstatements s hs) line hline

end Block

namespace Plan
open Block

variable {available : String → Bool} {directives : List Directive} {p : Plan}

/-- Every filter is the literal of the pattern of a directive that is not handed on. -/
theorem literal_of_mem_filters (h : ofDirectives available directives = .ok p) {s : Shared String}
    (hs : s ∈ p.resources.filters) : ∃ d ∈ directives, standIn? available d = none ∧ ∃ pattern,
      d.filter = some pattern ∧ pattern.literal d.identifier = .ok s.value := by
  let q : Resources.Traits :=
    { owner := fun _ => True, table := fun _ => True, matcher := fun _ => True,
      filter := fun literal => ∃ d ∈ directives, standIn? available d = none ∧ ∃ pattern,
        d.filter = some pattern ∧ pattern.literal d.identifier = .ok literal }
  have hhave := have_ofDirectives (q := q) (fun _ _ _ _ => trivial) (fun d hd hstand =>
    ⟨trivial, fun _ _ => trivial, fun _ _ => trivial,
      fun pattern literal hpattern hliteral => ⟨d, hd, hstand, pattern, hpattern, hliteral⟩⟩) h
  exact (hhave.filters s hs).value

/-- The pattern of every directive that is not handed on has a literal among the filters. -/
theorem exists_filter_of_mem (h : ofDirectives available directives = .ok p) {d : Directive}
    (hd : d ∈ directives) (hstand : standIn? available d = none) {pattern : Pattern}
    (hpattern : d.filter = some pattern) :
    ∃ s ∈ p.resources.filters, pattern.literal d.identifier = .ok s.value := by
  have hfilters := forall₂_helpers (fun r d _ => standIn? available d = none → ∀ pattern,
      d.filter = some pattern → ∃ s ∈ r.filters, pattern.literal d.identifier = .ok s.value) ?_ ?_ ?_ h
  · obtain ⟨helper, -, hhelper⟩ := exists_of_forall₂ hfilters.flip hd
    exact hhelper hstand pattern hpattern
  · intro r r' d helper hgrow hold hstand pattern hpattern
    obtain ⟨s, hs, hliteral⟩ := hold hstand pattern hpattern
    obtain ⟨i, hi⟩ := List.mem_iff_getElem?.mp hs
    obtain ⟨t, ht, -, hvalue⟩ := hgrow.filters i s hi
    exact ⟨t, List.mem_of_getElem? ht, hvalue ▸ hliteral⟩
  · intro r d function hsome hnone
    rw [hnone] at hsome
    cases hsome
  · intro r r' d w _ hwire _ pattern hpattern
    obtain ⟨mid, -, hfilter, -⟩ := wire_eq_ok.mp hwire
    rcases addFilter_eq_ok.mp hfilter with ⟨hnone, -⟩ | ⟨own, literal, hown, hliteral, rfl, -⟩
    · rw [hnone] at hpattern
      cases hpattern
    · obtain rfl : own = pattern := Option.some.inj (hown.symm.trans hpattern)
      obtain ⟨s, hs, hvalue⟩ := Pool.getElem?_share literal d.owner mid.filters
      exact ⟨s, List.mem_of_getElem? hs, hvalue ▸ hliteral⟩

theorem inAscii_statements?_iff {reports : Bool} {statements : List Statement}
    (hvet : ∀ d ∈ directives, ∃ path, Registry.vetNames path d = .ok ())
    (hplan : ofDirectives available directives = .ok p) (h : p.statements? reports = some statements) :
    (∀ s ∈ statements, s.InAscii) ↔ ∀ s ∈ p.resources.filters, Ascii s.value := by
  obtain ⟨helpers, hhelpers, rfl⟩ := statements?_eq_some.mp h
  constructor
  · intro hstatements s hs
    refine hstatements (.filter s.label s.value) ?_
    simp only [List.mem_append, resourceStatements]
    exact .inl (.inl (.inr (.inr (List.mem_map.mpr ⟨s, hs, rfl⟩))))
  · intro hfilters s hs
    simp only [List.mem_append, resourceStatements, List.mem_flatMap, List.mem_map, List.mem_cons,
      List.not_mem_nil, or_false] at hs
    rcases hs with ((⟨f, hf, rfl⟩ | (⟨t, -, rfl | rfl⟩ | ⟨m, hm, rfl⟩) | ⟨s, hs, rfl⟩) | hhelper) | rfl | rfl | rfl
    · obtain ⟨d, hd, -, hfunction⟩ := exists_of_forall₂ (describes_ofDirectives hplan) (mem_forwardings.mp hf)
      obtain ⟨path, hvet⟩ := hvet d hd
      exact Registry.ascii_function hvet hfunction
    · trivial
    · trivial
    · obtain ⟨chars, hchars⟩ := (literals_ofDirectives hplan).1 m hm
      change Ascii m.value
      rw [hchars]
      exact .of_isPrintable fun _ => Literal.CharClass.isPrintable_matcher
    · exact hfilters s hs
    · obtain ⟨w, -, hstatement⟩ := exists_of_forall₂ (Option.forall₂_of_mapM hhelpers) hhelper
      obtain ⟨check, -, replacing, -, rfl⟩ := helperStatement?_eq_some.mp hstatement
      trivial
    · trivial
    · trivial
    · trivial

end Plan

namespace Generation

/-- Which blocks are ASCII. For directives with checked names, whatever characters there are in
replacements and in what stands for rejected values, every character of the block is below U+0080
exactly when each pattern that is translated holds, above U+007F, the separators of lines and of
paragraphs only: all other characters there are copied into the block. -/
theorem block_ascii_iff {available : String → Bool} {directives : List Directive} {block : String}
    (hvet : ∀ d ∈ directives, ∃ path, Registry.vetNames path d = .ok ())
    (h : generate available directives = .ok block) :
    (∀ c ∈ block.toList, c.toNat < 0x80) ↔
      ∀ d ∈ directives, Plan.standIn? available d = none → ∀ pattern ∈ d.filter,
        ∀ c ∈ pattern.source.toList, c.toNat < 0x80 ∨ c = '\u2028' ∨ c = '\u2029' := by
  obtain ⟨p, statements, hplan, hstatements, rfl⟩ := generate_eq_ok.mp h
  have hblock := Block.ascii_blockLines_iff (Plan.named_statements? hvet hplan hstatements)
  rw [Plan.inAscii_statements?_iff hvet hplan hstatements] at hblock
  refine hblock.trans ⟨fun hfilters d hd hstand pattern hpattern => ?_, fun hsources s hs => ?_⟩
  · obtain ⟨s, hs, hliteral⟩ := Plan.exists_filter_of_mem hplan hd hstand hpattern
    exact (Pattern.ascii_literal_iff hliteral).mp (hfilters s hs)
  · obtain ⟨d, hd, hstand, pattern, hpattern, hliteral⟩ := Plan.literal_of_mem_filters hplan hs
    exact (Pattern.ascii_literal_iff hliteral).mpr (hsources d hd hstand pattern hpattern)

/-- Text outside ASCII everywhere but in a pattern, and in the pattern a line separator. -/
theorem block_ascii_of_filterName :
    let d := { (Directive.ofName "filterName").escape 'ä' "→😀" with
      filter := some ⟨"^[a-z\u2028]+$", .plain⟩, innocuous := "ünnötig" }
    ∃ block, generate (fun _ => false) [d] = .ok block ∧
      ((∀ c ∈ block.toList, c.toNat < 0x80) ↔
        ∀ d' ∈ [d], Plan.standIn? (fun _ => false) d' = none → ∀ pattern ∈ d'.filter,
          ∀ c ∈ pattern.source.toList, c.toNat < 0x80 ∨ c = '\u2028' ∨ c = '\u2029') ∧
      ∀ c ∈ block.toList, c.toNat < 0x80 := by
  intro d
  have hvet : ∀ d' ∈ [d], ∃ path, Registry.vetNames path d' = .ok () := by
    intro d' hd'
    obtain rfl := List.mem_singleton.mp hd'
    exact ⟨"escapers.json", by decide +kernel⟩
  have hascii := block_ascii_iff hvet (rfl : generate (fun _ => false) [d] = .ok _)
  refine ⟨_, rfl, hascii, hascii.mpr ?_⟩
  intro d' hd' _ pattern hpattern
  obtain rfl := List.mem_singleton.mp hd'
  obtain rfl := Option.some.inj hpattern
  have hall : ("^[a-z\u2028]+$".toList.all fun c => c.toNat < 0x80 || c = '\u2028' || c = '\u2029') =
      true := by decide
  intro c hc
  simpa [or_assoc] using List.all_eq_true.mp hall c hc

/-- A letter with an accent in a pattern stands in the block as it is. -/
theorem accented_pattern_is_not_ascii :
    let d := { Directive.ofName "filterName" with filter := some ⟨"é", .plain⟩ }
    Registry.vetNames "escapers.json" d = .ok () ∧
      ∃ block, generate (fun _ => false) [d] = .ok block ∧ ¬∀ c ∈ block.toList, c.toNat < 0x80 := by
  intro d
  have hvet : Registry.vetNames "escapers.json" d = .ok () := by decide +kernel
  have hchecked : ∀ d' ∈ [d], ∃ path, Registry.vetNames path d' = .ok () := by
    intro d' hd'
    obtain rfl := List.mem_singleton.mp hd'
    exact ⟨_, hvet⟩
  obtain ⟨block, hblock⟩ : ∃ block, generate (fun _ => false) [d] = .ok block := ⟨_, rfl⟩
  refine ⟨hvet, block, hblock, fun hascii => ?_⟩
  obtain ⟨p, statements, hplan, hstatements, rfl⟩ := generate_eq_ok.mp hblock
  have hinAscii := (Block.ascii_blockLines_iff (Plan.named_statements? hchecked hplan hstatements)).mp hascii
  have hfilters := (Plan.inAscii_statements?_iff hchecked hplan hstatements).mp hinAscii
  obtain ⟨s, hs, hliteral⟩ := Plan.exists_filter_of_mem hplan (List.mem_singleton_self d) rfl rfl
  rcases (Pattern.ascii_literal_iff hliteral).mp (hfilters s hs) 'é' (by decide) with h | h | h
  · exact absurd h (by decide)
  · exact absurd h (by decide)
  · exact absurd h (by decide)

end Generation
end Autoescape
