import Autoescape.Proofs.Contents
import Autoescape.Proofs.QuotedReader
import Autoescape.Proofs.Symbols
import Mathlib.Data.Set.List

/-!
# A block can be read back

What is free in a block stands between separators that it cannot imitate: names and literals hold no
line end, string literals no quote that is not escaped, and inside a statement no line is blank. So
the text of a block determines its lines, these its statements, and these what the plan contains.
-/
namespace Autoescape

def Table.Single (t : Table) : Prop := ∀ e ∈ t.entries, ∀ c ∈ e.1 :: e.2.toList, c.toNat ≤ 0xFFFF

theorem Table.single_merge {t u : Table} (ht : t.Single) (hu : u.Single) : (t.merge u).Single := by
  rintro ⟨c, text⟩ he
  have hget := (get?_eq_some_iff _ c text).mpr he
  rw [get?_merge, Option.or_eq_some_iff] at hget
  rcases hget with hget | ⟨-, hget⟩
  · exact hu _ ((get?_eq_some_iff u c text).mp hget)
  · exact ht _ ((get?_eq_some_iff t c text).mp hget)

/-- What a directive puts into the generated code in place of a value consists of single units. -/
structure Directive.Single (d : Directive) : Prop where
  escaped : ∀ e ∈ d.escapes, ∀ c ∈ e.escaped.toList, c.toNat ≤ 0xFFFF
  innocuous : ∀ c ∈ d.innocuous.toList, c.toNat ≤ 0xFFFF

theorem Directive.single_table? {d : Directive} {t : Table} (hd : d.Single) (h : d.table? = .ok (some t)) :
    t.Single := by
  rcases table?_eq_ok h with ⟨-, heq⟩ | ⟨u, heq, -, hget, hplain⟩
  · cases heq
  · cases heq
    rintro ⟨c, text⟩ he
    have hescape := (hget c text).mp ((t.get?_eq_some_iff c text).mpr he)
    exact List.forall_mem_cons.mpr ⟨hplain _ hescape, hd.escaped _ hescape⟩

namespace Block

def Statement.Single : Statement → Prop
  | .table _ t => t.Single
  | .helper _ check _ => ∀ k ∈ check, ∀ c ∈ k.innocuous.toList, c.toNat ≤ 0xFFFF
  | _ => True

/-- A statement whose text can be taken apart again. -/
structure Statement.Readable (s : Statement) : Prop where
  named : s.Named
  single : s.Single

section Entries

variable {e e' : Char × String} {entries entries' : List (Char × String)} {rest rest' : String}

theorem entryLine_append (e : Char × String) (rest : String) : entryLine e ++ rest =
    "  " ++ (Literal.Quoted.ofChar e.1 ++ (": " ++ (Literal.Quoted.ofText e.2 ++ rest))) := by
  simp [entryLine, String.append_assoc]

theorem entryLine_append_inj (he : ∀ c ∈ e.1 :: e.2.toList, c.toNat ≤ 0xFFFF)
    (he' : ∀ c ∈ e'.1 :: e'.2.toList, c.toNat ≤ 0xFFFF)
    (h : entryLine e ++ rest = entryLine e' ++ rest') : e = e' ∧ rest = rest' := by
  rcases List.forall_mem_cons.mp he with ⟨hkey, htext⟩
  rcases List.forall_mem_cons.mp he' with ⟨hkey', htext'⟩
  rw [entryLine_append, entryLine_append, String.append_right_inj] at h
  rcases Literal.Quoted.ofChar_append_inj hkey hkey' h with ⟨hkeys, h⟩
  rw [String.append_right_inj] at h
  rcases Literal.Quoted.ofText_append_inj htext htext' h with ⟨htexts, h⟩
  exact ⟨Prod.ext hkeys htexts, h⟩

theorem entryLines_inj (h : ∀ e ∈ entries, ∀ c ∈ e.1 :: e.2.toList, c.toNat ≤ 0xFFFF)
    (h' : ∀ e ∈ entries', ∀ c ∈ e.1 :: e.2.toList, c.toNat ≤ 0xFFFF)
    (heq : entryLines entries = entryLines entries') : entries = entries' := by
  induction entries generalizing entries' with
  | nil =>
    cases entries' with
    | nil => rfl
    | cons e' later' => simp [entryLines, entryLines_cons] at heq
  | cons e later ih =>
    cases entries' with
    | nil => simp [entryLines, entryLines_cons] at heq
    | cons e' later' =>
      rcases List.forall_mem_cons.mp h with ⟨he, hlater⟩
      rcases List.forall_mem_cons.mp h' with ⟨he', hlater'⟩
      rw [entryLines_cons, entryLines_cons, List.cons.injEq] at heq
      rw [(entryLine_append_inj he he' heq.1).1, ih hlater hlater' heq.2]

end Entries

section Helper

variable {directive : String} {k k' : Check} {replacing replacing' : Option Replacing}
  {rest rest' : List String}

theorem filterSymbol_inj {label label' : String} (h : filterSymbol label = filterSymbol label') :
    label = label' := by
  simpa [filterSymbol] using h

def rejectLines (innocuous : String) : List String :=
  ["    return " ++ Literal.Quoted.ofText innocuous ++ ";", "  \x7d"]

def reportLine (directive : String) : String :=
  "    " ++ reporter ++ "(" ++ Literal.Quoted.ofText ("Bad value `%s` for |" ++ directive) ++ ", [str]);"

theorem checkLines_eq (directive : String) (k : Check) : checkLines directive k =
    ("  if (!" ++ scope ++ filterSymbol k.filter ++ ".test(str)) \x7b") ::
      ((if k.reports then [reportLine directive] else []) ++ rejectLines k.innocuous) := by
  simp [checkLines, reportLine, rejectLines]

theorem rejectLines_append_inj {innocuous innocuous' : String}
    (hk : ∀ c ∈ innocuous.toList, c.toNat ≤ 0xFFFF) (hk' : ∀ c ∈ innocuous'.toList, c.toNat ≤ 0xFFFF)
    (h : rejectLines innocuous ++ rest = rejectLines innocuous' ++ rest') :
    innocuous = innocuous' ∧ rest = rest' := by
  simp only [rejectLines, List.cons_append, List.nil_append, List.cons.injEq, String.append_left_inj,
    String.append_right_inj, true_and] at h
  exact ⟨Literal.Quoted.ofText_inj hk hk' h.1, h.2⟩

theorem reportLine_cons_ne (directive innocuous : String) :
    reportLine directive :: rest ≠ rejectLines innocuous ++ rest' := by
  intro h
  have hline := congrArg String.toList (List.cons.inj h).1
  simp [reportLine, reporter] at hline

theorem checkLines_append_inj (hk : ∀ c ∈ k.innocuous.toList, c.toNat ≤ 0xFFFF)
    (hk' : ∀ c ∈ k'.innocuous.toList, c.toNat ≤ 0xFFFF)
    (h : checkLines directive k ++ rest = checkLines directive k' ++ rest') : k = k' ∧ rest = rest' := by
  rcases k with ⟨filter, innocuous, reports⟩
  rcases k' with ⟨filter', innocuous', reports'⟩
  simp only [checkLines_eq, List.cons_append, List.cons.injEq, String.append_left_inj,
    String.append_right_inj] at h
  rcases h with ⟨hfilter, h⟩
  cases filterSymbol_inj hfilter
  match reports, reports' with
  | false, false =>
    rcases rejectLines_append_inj hk hk' h with ⟨rfl, hrest⟩
    exact ⟨rfl, hrest⟩
  | true, true =>
    rcases rejectLines_append_inj hk hk' (List.cons.inj h).2 with ⟨rfl, hrest⟩
    exact ⟨rfl, hrest⟩
  | true, false => exact absurd h (reportLine_cons_ne directive innocuous')
  | false, true => exact absurd h.symm (reportLine_cons_ne directive innocuous)

theorem resultLines_append_inj (h : resultLines replacing ++ rest = resultLines replacing' ++ rest') :
    replacing = replacing' ∧ rest = rest' := by
  have hreturn : "  return str;" ≠ "  return str.replace(" := by decide
  match replacing, replacing' with
  | none, none => exact ⟨rfl, (List.cons.inj h).2⟩
  | none, some r' => exact absurd (List.cons.inj h).1 hreturn
  | some r, none => exact absurd (List.cons.inj h).1.symm hreturn
  | some ⟨matcher, table⟩, some ⟨matcher', table'⟩ =>
    simp only [resultLines, matcherSymbol, replacerSymbol, List.cons_append, List.nil_append,
      List.cons.injEq, String.append_left_inj, String.append_right_inj, true_and] at h
    rcases h with ⟨rfl, rfl, hrest⟩
    exact ⟨rfl, hrest⟩

theorem resultLines_append_ne : resultLines replacing ++ rest ≠ checkLines directive k ++ rest' := by
  intro h
  rw [checkLines_eq] at h
  cases replacing with
  | none | some =>
    have hline := congrArg String.toList (List.cons.inj h).1
    simp at hline

theorem helperLines_inj {check check' : Option Check}
    (hk : ∀ k ∈ check, ∀ c ∈ k.innocuous.toList, c.toNat ≤ 0xFFFF)
    (hk' : ∀ k ∈ check', ∀ c ∈ k.innocuous.toList, c.toNat ≤ 0xFFFF)
    (h : check.elim [] (checkLines directive) ++ resultLines replacing ++ rest =
      check'.elim [] (checkLines directive) ++ resultLines replacing' ++ rest') :
    check = check' ∧ replacing = replacing' := by
  rw [List.append_assoc, List.append_assoc] at h
  match check, check' with
  | none, none => exact ⟨rfl, (resultLines_append_inj h).1⟩
  | none, some k' => exact absurd h resultLines_append_ne
  | some k, none => exact absurd h.symm resultLines_append_ne
  | some k, some k' =>
    rcases checkLines_append_inj (hk k rfl) (hk' k' rfl) h with ⟨rfl, hresult⟩
    exact ⟨rfl, (resultLines_append_inj hresult).1⟩

end Helper

namespace Statement

variable {s t : Statement}

/-- Statements with the same lines assign the same symbol. -/
theorem subject_eq_of_lines (hs : s.Named) (ht : t.Named) (h : s.lines = t.lines) :
    s.subject = t.subject := by
  have hassigned := filterMap_assigned?_lines hs
  rw [h, filterMap_assigned?_lines ht] at hassigned
  apply Subject.symbol_injective
  rw [symbol_subject, symbol_subject]
  exact (List.singleton_inj.mp hassigned).symm

theorem value_eq_of_lines (h : s.lines = t.lines) (hsubject : s.subject = t.subject)
    (hcomment : s.comment = t.comment) : s.value = t.value := by
  have hsymbol : s.symbol = t.symbol := by rw [← symbol_subject, hsubject, symbol_subject]
  simp only [lines, hcomment, hsymbol, List.cons_append, List.nil_append, List.append_assoc,
    List.cons.injEq, List.append_cancel_left_eq, String.append_right_inj, true_and] at h
  exact Prod.ext h.1 h.2

/-- The comment of a helper tells whether it hands on. -/
theorem lines_forwarding_ne_helper (f : Forwarding) (directive : String) (check : Option Check)
    (replacing : Option Replacing) : (forwarding f).lines ≠ (helper directive check replacing).lines := by
  intro h
  simp only [lines, comment, List.cons_append, List.cons.injEq, true_and] at h
  have hline := congrArg String.toList h.1
  simp at hline

/-- A statement is read back from its lines. -/
theorem eq_of_lines (hs : s.Readable) (ht : t.Readable) (h : s.lines = t.lines) : s = t := by
  have hsubject := subject_eq_of_lines hs.named ht.named h
  cases s <;> cases t
  case forwarding.forwarding f g =>
    rcases f with ⟨directive, function⟩
    rcases g with ⟨directive', function'⟩
    obtain rfl : directive = directive' := by simpa [subject] using hsubject
    obtain rfl : function = function' := by simpa [value] using value_eq_of_lines h rfl rfl
    rfl
  case forwarding.helper f directive check replacing =>
    exact absurd h (lines_forwarding_ne_helper f directive check replacing)
  case helper.forwarding directive check replacing g =>
    exact absurd h.symm (lines_forwarding_ne_helper g directive check replacing)
  case helper.helper directive check replacing directive' check' replacing' =>
    obtain rfl : directive = directive' := by simpa [subject] using hsubject
    have hvalue := value_eq_of_lines h rfl rfl
    have hlines := (List.cons.inj (Prod.mk.inj hvalue).2).2
    rcases helperLines_inj hs.single ht.single hlines with ⟨rfl, rfl⟩
    rfl
  case table.table label t label' t' =>
    obtain rfl : label = label' := by simpa [subject] using hsubject
    have hvalue := value_eq_of_lines h rfl rfl
    have hlines := List.append_cancel_right (Prod.mk.inj hvalue).2
    have hentries := entryLines_inj hs.single ht.single hlines
    rcases t with ⟨entries, ascending⟩
    obtain rfl : entries = t'.entries := hentries
    rfl
  case matcher.matcher label literal label' literal' =>
    obtain rfl : label = label' := by simpa [subject] using hsubject
    obtain rfl : literal = literal' := by simpa [value] using value_eq_of_lines h rfl rfl
    rfl
  case filter.filter label literal label' literal' =>
    obtain rfl : label = label' := by simpa [subject] using hsubject
    obtain rfl : literal = literal' := by simpa [value] using value_eq_of_lines h rfl rfl
    rfl
  case replacer.replacer label label' =>
    obtain rfl : label = label' := by simpa [subject] using hsubject
    rfl
  -- all others are constants, or are told apart by their subjects
  all_goals first | rfl | simp [subject] at hsubject

theorem eq_of_map_body {statements statements' : List Statement} (h : ∀ s ∈ statements, s.Readable)
    (h' : ∀ s ∈ statements', s.Readable) (heq : statements.map body = statements'.map body) :
    statements = statements' := by
  have hinjective : Function.Injective fun s : {s : Statement // s.Readable} => s.1.body := by
    intro s t hbody
    refine Subtype.ext (eq_of_lines s.2 t.2 ?_)
    rw [lines_eq, lines_eq]
    exact congrArg ("" :: ·) hbody
  lift statements to List {s : Statement // s.Readable} using h
  lift statements' to List {s : Statement // s.Readable} using h'
  rw [List.map_map, List.map_map] at heq
  rw [List.map_injective_iff.mpr hinjective heq]

end Statement

section Parts

variable {α : Type} {a : α}

theorem flatMap_cons_eq_intercalate (first : List α) (parts : List (List α)) :
    (first :: parts).flatMap (a :: ·) = a :: [a].intercalate (first :: parts) := by
  induction parts generalizing first with
  | nil => simp
  | cons second parts ih => rw [List.flatMap_cons, ih, List.intercalate_cons_cons]; simp

/-- Parts with a separator before each are read back, when no part holds it. -/
theorem flatMap_cons_inj [DecidableEq α] {parts parts' : List (List α)} (h : ∀ part ∈ parts, a ∉ part)
    (h' : ∀ part ∈ parts', a ∉ part) (heq : parts.flatMap (a :: ·) = parts'.flatMap (a :: ·)) :
    parts = parts' := by
  match parts, parts' with
  | [], [] => rfl
  | [], part' :: parts' => simp at heq
  | part :: parts, [] => simp at heq
  | part :: parts, part' :: parts' =>
    rw [flatMap_cons_eq_intercalate, flatMap_cons_eq_intercalate, List.cons.injEq] at heq
    rw [← List.splitOn_intercalate a h (List.cons_ne_nil _ _), heq.2,
      List.splitOn_intercalate a h' (List.cons_ne_nil _ _)]

end Parts

theorem Statement.blank_notMem_body {s : Statement} (h : s.OneLine) : "" ∉ s.body := by
  intro hblank
  rcases begun_body h "" hblank with heq | hbegun
  · exact absurd heq (by decide)
  · exact absurd hbegun.2 (by decide)

theorem blockLines_eq (statements : List Statement) : Plan.blockLines statements =
    startMarker :: (statements.map Statement.body ++ [[endMarker]]).flatMap ("" :: ·) := by
  simp [Plan.blockLines, List.flatMap_map, funext Statement.lines_eq]

theorem eq_of_textOfLines {statements statements' : List Statement} (h : ∀ s ∈ statements, s.Readable)
    (h' : ∀ s ∈ statements', s.Readable)
    (heq : Plan.textOfLines (Plan.blockLines statements) = Plan.textOfLines (Plan.blockLines statements')) :
    statements = statements' := by
  have hlines : Plan.blockLines statements = Plan.blockLines statements' := by
    have hread := lines_textOfLines fun s hs => (h s hs).named.oneLine
    rw [heq, lines_textOfLines fun s hs => (h' s hs).named.oneLine] at hread
    exact List.map_injective_iff.mpr (fun _ _ => String.toList_injective) hread.symm
  have hparts {l : List Statement} (hl : ∀ s ∈ l, s.Readable) :
      ∀ part ∈ l.map Statement.body ++ [[endMarker]], "" ∉ part := by
    intro part hpart
    rcases List.mem_append.mp hpart with hpart | hpart
    · rcases List.mem_map.mp hpart with ⟨s, hs, rfl⟩
      exact Statement.blank_notMem_body (hl s hs).named.oneLine
    · rw [List.mem_singleton.mp hpart]
      decide
  rw [blockLines_eq, blockLines_eq, List.cons.injEq] at hlines
  exact Statement.eq_of_map_body h h'
    (List.append_cancel_right (flatMap_cons_inj (hparts h) (hparts h') hlines.2))

end Block

namespace Plan
open Block (Statement)

variable {available : String → Bool} {directives : List Directive} {p : Plan} {reports : Bool}
  {statements : List Statement}

def singleTraits : Resources.Traits :=
  { owner := fun _ => True, table := Table.Single, matcher := fun _ => True, filter := fun _ => True }

theorem single_ofDirectives (hsingle : ∀ d ∈ directives, d.Single)
    (h : ofDirectives available directives = .ok p) : p.resources.Have singleTraits := by
  refine have_ofDirectives (fun _ _ => Table.single_merge) (fun d hd _ => ?_) h
  exact ⟨trivial, fun t => Directive.single_table? (hsingle d hd), fun _ _ => trivial,
    fun _ _ _ _ => trivial⟩

theorem readable_statements? (hvet : ∀ d ∈ directives, ∃ path, Registry.vetNames path d = .ok ())
    (hsingle : ∀ d ∈ directives, d.Single) (hplan : ofDirectives available directives = .ok p)
    (h : p.statements? reports = some statements) : ∀ s ∈ statements, s.Readable := by
  refine fun s hs => ⟨named_statements? hvet hplan h s hs, ?_⟩
  have hcontents := ofStatements_statements? (both_of_mem_wirings hplan) h
  cases s with
  | table label t =>
    have htable : (label, t) ∈ p.contents.tables := by
      rw [← hcontents]
      exact List.mem_filterMap.mpr ⟨_, hs, rfl⟩
    rcases Pool.exists_of_mem_labelled htable with ⟨entry, hentry, rfl⟩
    exact ((single_ofDirectives hsingle hplan).tables entry hentry).value
  | helper directive check replacing =>
    rintro k rfl
    have hreference : ∃ reference ∈ p.contents.references, reference.innocuous = some k.innocuous := by
      rw [← hcontents]
      exact ⟨_, List.mem_filterMap.mpr ⟨_, hs, rfl⟩, rfl⟩
    rcases hreference with ⟨_, hmem, hinnocuous⟩
    rcases List.mem_map.mp hmem with ⟨w, hw, rfl⟩
    rcases exists_of_forall₂ (describes_ofDirectives hplan) (mem_wirings.mp hw) with ⟨d, hd, hdescribes⟩
    obtain ⟨-, -, heq⟩ : ∃ i, w.filter = some i ∧ w.innocuous = k.innocuous := by
      simpa [Reference.ofWiring] using hinnocuous
    have hk : k.innocuous = d.innocuous := heq ▸ hdescribes.2.1
    rw [hk]
    exact (hsingle d hd).innocuous
  | _ => trivial

/-- What a block contains is read back from its text. For directives with checked names, whose
replacements and innocuous outputs consist of single units, two plans with the same block contain the
same. -/
theorem contents_eq_of_block {directives' : List Directive} {p' : Plan} {block : String}
    (hvet : ∀ d ∈ directives, ∃ path, Registry.vetNames path d = .ok ())
    (hvet' : ∀ d ∈ directives', ∃ path, Registry.vetNames path d = .ok ())
    (hsingle : ∀ d ∈ directives, d.Single) (hsingle' : ∀ d ∈ directives', d.Single)
    (hplan : ofDirectives available directives = .ok p)
    (hplan' : ofDirectives available directives' = .ok p')
    (h : p.block? available = some block) (h' : p'.block? available = some block) :
    p.contents = p'.contents := by
  rcases block?_eq_some.mp h with ⟨statements, hstatements, hblock⟩
  rcases block?_eq_some.mp h' with ⟨statements', hstatements', hblock'⟩
  have hsame : statements = statements' :=
    Block.eq_of_textOfLines (readable_statements? hvet hsingle hplan hstatements)
      (readable_statements? hvet' hsingle' hplan' hstatements') (hblock.trans hblock'.symm)
  calc
    p.contents = Contents.ofStatements statements :=
      (ofStatements_statements? (both_of_mem_wirings hplan) hstatements).symm
    _ = Contents.ofStatements statements' := by rw [hsame]
    _ = p'.contents := ofStatements_statements? (both_of_mem_wirings hplan') hstatements'

/-- Two plans that differ in the order of a directive that is handed on and one that is not have the
same block. -/
theorem contents_eq_of_block_for_swapped :
    let available (name : String) : Bool := name = "goog.string.htmlEscape"
    let handedOn := (Directive.ofName "|escapeHtml").function "goog.string.htmlEscape"
    let filtering := { (Directive.ofName "|filterTag").escape '<' "&lt;" with
      filter := some ⟨"^[a-z]*$", .plain⟩, innocuous := "zSoyz" }
    ∃ p p' block, ofDirectives available [handedOn, filtering] = .ok p ∧
      ofDirectives available [filtering, handedOn] = .ok p' ∧ p.helpers ≠ p'.helpers ∧
      p.block? available = some block ∧ p'.block? available = some block ∧ p.contents = p'.contents := by
  intro available handedOn filtering
  have hvet : ∀ d ∈ [handedOn, filtering], ∃ path, Registry.vetNames path d = .ok () := by
    intro d hd
    refine ⟨"escapers.json", ?_⟩
    rcases List.mem_pair.mp hd with rfl | rfl <;> decide +kernel
  have hsingle : ∀ d ∈ [handedOn, filtering], d.Single := by
    intro d hd
    rcases List.mem_pair.mp hd with rfl | rfl <;>
      constructor <;> simp [handedOn, filtering, Directive.ofName, Directive.escape, Directive.function]
  have hswapped {d : Directive} (hd : d ∈ [filtering, handedOn]) : d ∈ [handedOn, filtering] :=
    List.mem_pair.mpr (List.mem_pair.mp hd).symm
  let found (directives : List Directive) := (ofDirectives available directives).toOption
  have hblock : (found [handedOn, filtering]).bind (block? available) =
      (found [filtering, handedOn]).bind (block? available) := rfl
  have hsome : ((found [handedOn, filtering]).bind (block? available)).isSome = true := by decide +kernel
  have hdiffer : (found [handedOn, filtering]).map Plan.helpers ≠
      (found [filtering, handedOn]).map Plan.helpers := by decide +kernel
  rcases Option.isSome_iff_exists.mp hsome with ⟨block, hfound⟩
  have hfound' := hblock.symm.trans hfound
  rcases hplan : ofDirectives available [handedOn, filtering] with fault | p
  · simp [found, hplan, Except.toOption] at hfound
  rcases hplan' : ofDirectives available [filtering, handedOn] with fault | p'
  · simp [found, hplan', Except.toOption] at hfound'
  simp only [found, hplan, hplan', Except.toOption, Option.bind_some, Option.map_some, ne_eq,
    Option.some.injEq] at hfound hfound' hdiffer
  exact ⟨p, p', block, rfl, rfl, hdiffer, hfound, hfound',
    contents_eq_of_block hvet (fun d hd => hvet d (hswapped hd)) hsingle
      (fun d hd => hsingle d (hswapped hd)) hplan hplan' hfound hfound'⟩

end Plan
end Autoescape
