import Autoescape.Proofs.Directory
import Autoescape.Proofs.Documents
import Autoescape.Proofs.Json.Accepted
import Autoescape.Proofs.Names
import Mathlib.Computability.Language

/-!
# Which registry files are taken

A registry file is taken when it holds a text, the text denotes a list of directives, and each name in
them belongs to a regular language over identifiers. Of what is wrong with a file, the text goes before
the directives, and these as a whole before any name.
-/
namespace Autoescape

open scoped Computability

namespace Registry

/-! ### Names -/

def letters (s : Set Char) : Language Char := {w | ∃ c ∈ s, w = [c]}

def identifierStarts : Set Char := Set.Icc 'A' 'Z' ∪ Set.Icc 'a' 'z' ∪ {'_', '$'}

def identifierParts : Set Char := identifierStarts ∪ Set.Icc '0' '9'

/-- Letters, digits, underscores and dollar signs, with no digit in front. -/
def identifiers : Language Char := letters identifierStarts * (letters identifierParts)∗

/-- The names of directives: an identifier, and any number of bars in front of it. -/
def directiveNames : Language Char := (letters {'|'})∗ * identifiers

/-- The names of functions: identifiers with dots between them. -/
def functionNames : Language Char := identifiers * (letters {'.'} * identifiers)∗

theorem mem_letters {s : Set Char} {w : List Char} : w ∈ letters s ↔ ∃ c ∈ s, w = [c] := Iff.rfl

theorem mem_kstar_letters {s : Set Char} {w : List Char} : w ∈ (letters s)∗ ↔ ∀ c ∈ w, c ∈ s := by
  rw [Language.mem_kstar]
  constructor
  · rintro ⟨words, rfl, hwords⟩ c hc
    obtain ⟨w, hw, hc⟩ := List.mem_flatten.mp hc
    obtain ⟨d, hd, rfl⟩ := hwords w hw
    obtain rfl : c = d := by simpa using hc
    exact hd
  · intro h
    exact ⟨w.map ([·]), (List.flatMap_singleton' w).symm, by simpa [mem_letters] using h⟩

theorem isIdentStart_iff {c : Char} : isIdentStart c = true ↔ c ∈ identifierStarts := by
  simp only [isIdentStart, identifierStarts, Bool.or_eq_true, decide_eq_true_eq, Char.isAlpha_iff, or_assoc]
  rfl

theorem isIdentPart_iff {c : Char} : isIdentPart c = true ↔ c ∈ identifierParts := by
  simp [isIdentPart, identifierParts, isIdentStart_iff, Char.isDigit_iff]

theorem isIdent_iff {w : List Char} : isIdent w = true ↔ w ∈ identifiers := by
  rw [identifiers, Language.mem_mul]
  simp only [mem_letters, mem_kstar_letters]
  cases w with
  | nil => simp [isIdent]
  | cons c rest => simp [isIdent, isIdentStart_iff, isIdentPart_iff]

theorem notMem_of_mem_identifiers {w : List Char} (hw : w ∈ identifiers) {c : Char}
    (hc : isIdentPart c = false) : c ∉ w := by
  intro hmem
  rw [isIdentPart_of_isIdent (isIdent_iff.mpr hw) c hmem] at hc
  cases hc

theorem isIdent_dropWhile_iff {w : List Char} :
    isIdent (w.dropWhile (· = '|')) = true ↔ w ∈ directiveNames := by
  rw [isIdent_iff, directiveNames, Language.mem_mul]
  constructor
  · intro h
    have hbars : ∀ c ∈ w.takeWhile (· = '|'), c = '|' := fun c hc => by
      simpa using List.mem_takeWhile_imp hc
    exact ⟨_, mem_kstar_letters.mpr hbars, _, h, List.takeWhile_append_dropWhile⟩
  · rintro ⟨bars, hbars, name, hname, rfl⟩
    have hall : ∀ c ∈ bars, decide (c = '|') = true := by simpa using mem_kstar_letters.mp hbars
    have hnone : name.dropWhile (· = '|') = name := by
      have hbar := notMem_of_mem_identifiers hname (c := '|') (by decide)
      refine List.dropWhile_eq_self_iff.mpr fun hlength hfirst => hbar ?_
      rw [← of_decide_eq_true hfirst]
      exact List.getElem_mem hlength
    rwa [List.dropWhile_append_of_pos hall, hnone]

theorem intercalate_dot (first : List Char) (rest : List (List Char)) :
    ['.'].intercalate (first :: rest) = first ++ rest.flatMap ('.' :: ·) := by
  induction rest generalizing first with
  | nil => simp
  | cons second rest ih => simp [List.intercalate_cons_cons, ih]

theorem mem_functionNames {w : List Char} : w ∈ functionNames ↔
    ∃ pieces, pieces ≠ [] ∧ (∀ piece ∈ pieces, piece ∈ identifiers) ∧ w = ['.'].intercalate pieces := by
  rw [functionNames, Language.mem_mul]
  constructor
  · rintro ⟨first, hfirst, later, hlater, rfl⟩
    obtain ⟨words, rfl, hwords⟩ := hlater
    have hword : ∀ word ∈ words, ∃ piece ∈ identifiers, '.' :: piece = word := by
      intro word hmem
      obtain ⟨_, ⟨_, rfl, rfl⟩, piece, hpiece, rfl⟩ := Language.mem_mul.mp (hwords word hmem)
      exact ⟨piece, hpiece, rfl⟩
    obtain ⟨rest, rfl⟩ : words ∈ Set.range (List.map ('.' :: ·)) := by
      rw [Set.range_list_map]
      intro word hmem
      obtain ⟨piece, -, hpiece⟩ := hword word hmem
      exact ⟨piece, hpiece⟩
    refine ⟨first :: rest, nofun, List.forall_mem_cons.mpr ⟨hfirst, fun piece hpiece => ?_⟩, ?_⟩
    · obtain ⟨_, hmem, ⟨⟩⟩ := hword _ (List.mem_map_of_mem hpiece)
      exact hmem
    · rw [intercalate_dot, List.flatMap]
  · rintro ⟨pieces, hne, hpieces, rfl⟩
    obtain ⟨first, rest, rfl⟩ := List.exists_cons_of_ne_nil hne
    obtain ⟨hfirst, hrest⟩ := List.forall_mem_cons.mp hpieces
    refine ⟨first, hfirst, rest.flatMap ('.' :: ·), ?_, (intercalate_dot first rest).symm⟩
    refine Language.join_mem_kstar fun word hword => ?_
    obtain ⟨piece, hpiece, rfl⟩ := List.mem_map.mp hword
    exact Language.append_mem_mul (a := ['.']) ⟨'.', rfl, rfl⟩ (hrest piece hpiece)

theorem isQualified_iff {w : List Char} : isQualified w = true ↔ w ∈ functionNames := by
  rw [mem_functionNames, isQualified, Text.Split.pieces_eq_splitOn, List.all_eq_true]
  simp only [isIdent_iff]
  constructor
  · intro h
    exact ⟨w.splitOn '.', List.splitOn_ne_nil '.' w, h, (List.intercalate_splitOn '.').symm⟩
  · rintro ⟨pieces, hne, hpieces, rfl⟩
    have hdot : ∀ piece ∈ pieces, '.' ∉ piece := fun piece h =>
      notMem_of_mem_identifiers (hpieces piece h) (by decide)
    rwa [List.splitOn_intercalate '.' hdot hne]

instance : DecidablePred (· ∈ functionNames) := fun _ => decidable_of_iff _ isQualified_iff

/-- Every piece between dots is there, and nothing stands behind the last one. -/
example : "goog.string".toList ∈ functionNames ∧ "goog..string".toList ∉ functionNames ∧
    "$\n".toList ∉ functionNames := by decide

end Registry

/-- The name of a directive and those of its functions belong to their languages. -/
structure Directive.WellNamed (d : Directive) : Prop where
  name : d.name.toList ∈ Registry.directiveNames
  functions : ∀ f ∈ d.functions, f.toList ∈ Registry.functionNames

/-- What is reported of the names of a directive: its own name, and only if that is good the first of its
functions that is not. -/
inductive Directive.Misnamed (path : String) (d : Directive) : Fault → Prop where
  | name (h : d.name.toList ∉ Registry.directiveNames) : d.Misnamed path (.directiveName path d.name)
  | function {before after : List String} {f : String} (hname : d.name.toList ∈ Registry.directiveNames)
      (hfunctions : d.functions = before ++ f :: after)
      (hbefore : ∀ earlier ∈ before, earlier.toList ∈ Registry.functionNames)
      (h : f.toList ∉ Registry.functionNames) : d.Misnamed path (.functionName path f d.identifier)

namespace Registry

variable {path text : String} {d : Directive} {directives : List Directive} {fault : Fault}

theorem isIdent_identifier_iff : isIdent d.identifier.toList = true ↔ d.name.toList ∈ directiveNames := by
  rw [Directive.identifier, String.toList_ofList, isIdent_dropWhile_iff]

theorem vetNames_eq_ok_iff : vetNames path d = .ok () ↔ d.WellNamed := by
  simp only [vetNames_eq_ok, isIdent_identifier_iff, isQualified_iff]
  exact ⟨fun h => ⟨h.1, h.2⟩, fun h => ⟨h.name, h.functions⟩⟩

theorem vetNames_eq_error_iff : vetNames path d = .error fault ↔ d.Misnamed path fault := by
  unfold vetNames
  by_cases hname : d.name.toList ∈ directiveNames
  · rw [if_neg (by simpa using isIdent_identifier_iff.mpr hname)]
    have hfind (f : String) : (d.functions.find? fun name => !isQualified name.toList) = some f ↔
        f.toList ∉ functionNames ∧ ∃ before after, d.functions = before ++ f :: after ∧
          ∀ earlier ∈ before, earlier.toList ∈ functionNames := by
      simp [List.find?_eq_some_iff_append, ← isQualified_iff]
    constructor
    · intro h
      split at h
      · next f hf =>
        cases h
        obtain ⟨hbad, before, after, hfunctions, hbefore⟩ := (hfind f).mp hf
        exact .function hname hfunctions hbefore hbad
      · cases h
    · rintro (hbad | ⟨-, hfunctions, hbefore, hbad⟩)
      · exact absurd hname hbad
      · rw [(hfind _).mpr ⟨hbad, _, _, hfunctions, hbefore⟩]
  · have hident : ¬isIdent d.identifier.toList = true := isIdent_identifier_iff.not.mpr hname
    rw [if_pos (by simpa using hident), Except.error.injEq]
    constructor
    · rintro rfl
      exact .name hname
    · rintro (- | ⟨hgood, -, -, -⟩)
      · rfl
      · exact absurd hgood hname

/-! ### Files -/

def Decodes (text : String) (directives : List Directive) : Prop :=
  ∃ v, Json.Denotes text v ∧ Given directives v

theorem parse?_eq_some_iff : parse? text = some directives ↔ Decodes text directives := by
  rw [parse?, Option.bind_eq_bind, Option.bind_eq_some_iff]
  simp only [Json.parse?_eq_some_iff, Directive.reads_ofJson?.listOf _ directives]
  rfl

theorem ofText_eq_ok_iff : ofText path text = .ok directives ↔
    Decodes text directives ∧ ∀ d ∈ directives, d.WellNamed := by
  unfold ofText
  cases hparse : parse? text with
  | none =>
    have hnone : ¬Decodes text directives := by simp [← parse?_eq_some_iff, hparse]
    exact iff_of_false nofun fun h => hnone h.1
  | some found =>
    have hfound : Decodes text directives ↔ found = directives := by simp [← parse?_eq_some_iff, hparse]
    have hnames : found.forM (vetNames path) = .ok () ↔ ∀ d ∈ found, d.WellNamed := by
      simp only [Except.forM_eq_ok, vetNames_eq_ok_iff]
    rw [hfound, Except.bind_eq_ok]
    constructor
    · rintro ⟨⟨⟩, hvetted, ⟨⟩⟩
      exact ⟨rfl, hnames.mp hvetted⟩
    · rintro ⟨rfl, hgood⟩
      exact ⟨(), hnames.mpr hgood, rfl⟩

theorem ofText_eq_error_iff : ofText path text = .error fault ↔
    (fault = .malformed path ∧ ∀ directives, ¬Decodes text directives) ∨
      ∃ before d after, Decodes text (before ++ d :: after) ∧ (∀ earlier ∈ before, earlier.WellNamed) ∧
        d.Misnamed path fault := by
  unfold ofText
  cases hparse : parse? text with
  | none =>
    have hnone (directives : List Directive) : ¬Decodes text directives := by
      simp [← parse?_eq_some_iff, hparse]
    simp [hnone, eq_comm]
  | some found =>
    have hfound (directives : List Directive) : Decodes text directives ↔ found = directives := by
      simp [← parse?_eq_some_iff, hparse]
    simp only [Except.bind_eq_error, Except.forM_eq_error, vetNames_eq_ok_iff, vetNames_eq_error_iff, hfound]
    simp [Except.pure_eq_ok]

inductive Refused (disk : Storage.Disk) (path : String) : Fault → Prop where
  | unreadable {refusal : Refusal} (h : disk.read path = .error refusal) :
      Refused disk path (.read path refusal)
  | undecodable {text : String} (htext : disk.Yields path text)
      (h : ∀ directives, ¬Decodes text directives) : Refused disk path (.malformed path)
  | misnamed {text : String} {before after : List Directive} {d : Directive} {fault : Fault}
      (htext : disk.Yields path text) (hdecodes : Decodes text (before ++ d :: after))
      (hbefore : ∀ earlier ∈ before, earlier.WellNamed) (h : d.Misnamed path fault) : Refused disk path fault

variable {disk : Storage.Disk}

theorem load_eq_ok_iff : load disk path = .ok directives ↔
    ∃ text, disk.Yields path text ∧ Decodes text directives ∧ ∀ d ∈ directives, d.WellNamed := by
  have hread (text : String) :
      (disk.read path).mapError (Fault.read path) = .ok text ↔ disk.Yields path text := by
    rw [← Storage.Disk.read_eq_ok_iff]
    cases disk.read path <;> simp [Except.mapError]
  simp only [load, Except.bind_eq_ok, hread, ofText_eq_ok_iff]

theorem load_eq_error_iff : load disk path = .error fault ↔ Refused disk path fault := by
  cases hread : disk.read path with
  | error refusal =>
    have hnone (text : String) : ¬disk.Yields path text := by
      simp [← Storage.Disk.read_eq_ok_iff, hread]
    have hload : load disk path = .error (.read path refusal) := by
      simp [load, hread, Except.mapError]
    rw [hload, Except.error.injEq]
    constructor
    · rintro rfl
      exact .unreadable hread
    · rintro (h | ⟨htext, -⟩ | ⟨htext, -, -, -⟩)
      · cases hread.symm.trans h
        rfl
      · exact absurd htext (hnone _)
      · exact absurd htext (hnone _)
  | ok text =>
    have hload : load disk path = ofText path text := by
      simp [load, hread, Except.mapError]
    have htext : disk.Yields path text := Storage.Disk.read_eq_ok_iff.mp hread
    have honly {text' : String} (h : disk.Yields path text') : text' = text :=
      Except.ok.inj ((Storage.Disk.read_eq_ok_iff.mpr h).symm.trans hread)
    rw [hload, ofText_eq_error_iff]
    constructor
    · rintro (⟨rfl, hnone⟩ | ⟨before, d, after, hdecodes, hbefore, hd⟩)
      · exact .undecodable htext hnone
      · exact .misnamed htext hdecodes hbefore hd
    · rintro (h | ⟨htext', hnone⟩ | ⟨htext', hdecodes, hbefore, hd⟩)
      · cases hread.symm.trans h
      · obtain rfl := honly htext'
        exact .inl ⟨rfl, hnone⟩
      · obtain rfl := honly htext'
        exact .inr ⟨_, _, _, hdecodes, hbefore, hd⟩

theorem Refused.code (h : Refused disk path fault) :
    (fault.code = "ESC-READ" ∧ ∀ text, ¬disk.Yields path text) ∨
      (fault.code = "ESC-REGISTRY" ∧ ∃ text, disk.Yields path text) := by
  cases h with
  | unreadable hread => exact .inl ⟨rfl, fun text => by simp [← Storage.Disk.read_eq_ok_iff, hread]⟩
  | undecodable htext => exact .inr ⟨rfl, _, htext⟩
  | misnamed htext _ _ hd => cases hd <;> exact .inr ⟨rfl, _, htext⟩

/-- A registry file is taken, and its directives in their order, when it yields a text that decodes to
directives of which all are well named. Else it is refused: because it yields no text; because its text,
whatever names stand in it, decodes to nothing; or for the first directive that is not well named. -/
theorem load_exact (disk : Storage.Disk) (path : String) :
    (∀ directives, load disk path = .ok directives ↔
      ∃ text, disk.Yields path text ∧ Decodes text directives ∧ ∀ d ∈ directives, d.WellNamed) ∧
    (∀ fault, load disk path = .error fault ↔ Refused disk path fault) ∧
    ∀ fault, Refused disk path fault →
      (fault.code = "ESC-READ" ∧ ∀ text, ¬disk.Yields path text) ∨
        (fault.code = "ESC-REGISTRY" ∧ ∃ text, disk.Yields path text) :=
  ⟨fun _ => load_eq_ok_iff, fun _ => load_eq_error_iff, fun _ => Refused.code⟩

end Registry
end Autoescape
