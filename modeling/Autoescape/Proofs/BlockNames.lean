import Autoescape.Proofs.BlockLines
import Autoescape.Proofs.Names
import Autoescape.Proofs.Provenance

/-!
# The names in a block

Checked names are plain, and so are all names and labels that a plan makes of them. What a block says
stands on one line each, so a block of directives with checked names is found again.
-/
namespace Autoescape
open Block (OneLine Statement)

def Plain (name : String) : Prop := ∀ c ∈ name.toList, Registry.isIdentPart c = true

theorem Plain.oneLine {name : String} (h : Plain name) : OneLine name :=
  .of_forall (p := fun c => Registry.isIdentPart c = true) (by decide) (by decide) h

theorem Plain.append {s t : String} (hs : Plain s) (ht : Plain t) : Plain (s ++ t) := by
  intro c hc
  rw [String.toList_append, List.mem_append] at hc
  exact hc.elim (hs c) (ht c)

theorem Plain.ofList {l : List Char} (h : l.all Registry.isIdentPart = true) : Plain (String.ofList l) := by
  intro c hc
  rw [String.toList_ofList] at hc
  exact List.all_eq_true.mp h c hc

theorem Plain.blank_notMem {name : String} (h : Plain name) : ' ' ∉ name.toList := by
  intro hblank
  exact absurd (h ' ' hblank) (by decide)

namespace Registry

variable {path : String} {d : Directive} (h : vetNames path d = .ok ())

include h

theorem plain_identifier : Plain d.identifier := isIdentPart_of_isIdent (vetNames_eq_ok.mp h).1

theorem plain_owner : Plain d.owner := by
  intro c hc
  rw [Directive.owner, String.toList_ofList] at hc
  exact isIdentPart_underscored (isIdentPart_of_isIdent (vetNames_eq_ok.mp h).1) c hc

theorem oneLine_function {function : String} (hmem : function ∈ d.functions) : OneLine function :=
  .of_forall (p := fun c => c = '.' ∨ isIdentPart c = true) (by decide) (by decide)
    (isIdentPart_of_isQualified ((vetNames_eq_ok.mp h).2 function hmem))

end Registry

theorem Shared.plain_label {α : Type} {s : Shared α} (h : ∀ owner ∈ s.owners, Plain owner) :
    Plain s.label :=
  Block.forall_mem_intercalate (Plain.ofList (by decide)) h

/-- All names and labels of a statement are plain, and what else is free in it stands on one line. -/
def Block.Statement.Named : Statement → Prop
  | .forwarding f => Plain f.directive ∧ Block.OneLine f.function
  | .table label _ => Plain label
  | .replacer label => Plain label
  | .matcher label literal => Plain label ∧ Block.OneLine literal
  | .filter label literal => Plain label ∧ Block.OneLine literal
  | .helper directive check replacing => Plain directive ∧ (∀ k ∈ check, Plain k.filter) ∧
    ∀ r ∈ replacing, Plain r.matcher ∧ Plain r.table
  | .tagPattern | .openPattern | .safeTags => True

theorem Block.Statement.Named.oneLine {s : Statement} (h : s.Named) : s.OneLine := by
  cases s with
  | forwarding f => exact ⟨h.1.oneLine, h.2⟩
  | table label t => exact Plain.oneLine h
  | replacer label => exact Plain.oneLine h
  | matcher label literal => exact ⟨h.1.oneLine, h.2⟩
  | filter label literal => exact ⟨h.1.oneLine, h.2⟩
  | helper directive check replacing =>
    exact ⟨h.1.oneLine, fun k hk => (h.2.1 k hk).oneLine,
      fun r hr => ⟨(h.2.2 r hr).1.oneLine, (h.2.2 r hr).2.oneLine⟩⟩
  | tagPattern | openPattern | safeTags => trivial

namespace Plan

variable {available : String → Bool} {directives : List Directive} {p : Plan} {reports : Bool}

/-- Names without blanks or line ends, and literals without line ends. -/
def plainTraits : Resources.Traits :=
  { owner := Plain, table := fun _ => True, matcher := OneLine, filter := OneLine }

theorem plain_ofDirectives (hvet : ∀ d ∈ directives, ∃ path, Registry.vetNames path d = .ok ())
    (h : ofDirectives available directives = .ok p) : p.resources.Have plainTraits := by
  refine have_ofDirectives (fun _ _ _ _ => trivial) (fun d hd _ => ?_) h
  rcases hvet d hd with ⟨path, hvet⟩
  exact ⟨Registry.plain_owner hvet, fun _ _ => trivial, fun t _ => Block.oneLine_matcher t.keys,
    fun _ _ _ hliteral => Block.oneLine_literal hliteral⟩

theorem named_helperStatement? {w : Wiring} {s : Statement} (hp : p.resources.Have plainTraits)
    (hw : Plain w.directive) (hboth : w.table.isSome = w.matcher.isSome)
    (h : p.helperStatement? reports w = some s) : s.Named := by
  rcases helperStatement?_eq_some.mp h with ⟨check, hcheck, replacing, hreplacing, rfl⟩
  refine ⟨hw, fun k hk => ?_, fun r hr => ?_⟩
  · obtain rfl : check = some k := hk
    rcases check?_eq_some.mp hcheck with ⟨-, heq⟩ | ⟨i, -, s, hs, heq⟩
    · cases heq
    · cases heq
      exact Shared.plain_label (hp.filters s (List.mem_of_getElem? hs)).owners
  · obtain rfl : replacing = some r := hr
    rcases (replacing?_eq_some hboth).mp hreplacing with ⟨-, -, heq⟩ | ⟨i, j, -, -, s, hs, m, hm, heq⟩
    · cases heq
    · cases heq
      exact ⟨Shared.plain_label (hp.matchers m (List.mem_of_getElem? hm)).owners,
        Shared.plain_label (hp.tables s (List.mem_of_getElem? hs)).owners⟩

theorem named_resourceStatements {r : Resources} (hr : r.Have plainTraits) :
    ∀ s ∈ resourceStatements r, s.Named := by
  intro s hs
  simp only [resourceStatements, List.mem_append, List.mem_flatMap, List.mem_map, List.mem_cons,
    List.not_mem_nil, or_false] at hs
  rcases hs with (⟨t, ht, rfl | rfl⟩ | ⟨m, hm, rfl⟩) | ⟨f, hf, rfl⟩
  · exact Shared.plain_label (hr.tables t ht).owners
  · exact Shared.plain_label (hr.tables t ht).owners
  · exact ⟨Shared.plain_label (hr.matchers m hm).owners, (hr.matchers m hm).value⟩
  · exact ⟨Shared.plain_label (hr.filters f hf).owners, (hr.filters f hf).value⟩

/-- All that a block of directives with checked names says has plain names and stands on one line. -/
theorem named_statements? {statements : List Statement}
    (hvet : ∀ d ∈ directives, ∃ path, Registry.vetNames path d = .ok ())
    (hplan : ofDirectives available directives = .ok p)
    (h : p.statements? reports = some statements) : ∀ s ∈ statements, s.Named := by
  have hresources := plain_ofDirectives hvet hplan
  have hdescribes {helper : Helper} (hmem : helper ∈ p.helpers) : ∃ d path,
      Registry.vetNames path d = .ok () ∧ Describes d helper := by
    rcases exists_of_forall₂ (describes_ofDirectives hplan) hmem with ⟨d, hd, hdescribes⟩
    rcases hvet d hd with ⟨path, hvet⟩
    exact ⟨d, path, hvet, hdescribes⟩
  rcases statements?_eq_some.mp h with ⟨helpers, hhelpers, rfl⟩
  simp only [List.mem_append, List.mem_map, List.mem_cons, List.not_mem_nil, or_false]
  rintro s (((⟨f, hf, rfl⟩ | hs) | hs) | rfl | rfl | rfl)
  · rcases hdescribes (mem_forwardings.mp hf) with ⟨d, path, hvet, hdirective, hfunction⟩
    refine ⟨?_, Registry.oneLine_function hvet hfunction⟩
    rw [hdirective]
    exact Registry.plain_identifier hvet
  · exact named_resourceStatements hresources s hs
  · rcases exists_of_forall₂ (Option.forall₂_of_mapM hhelpers) hs with ⟨w, hw, hstatement⟩
    rcases hdescribes (mem_wirings.mp hw) with ⟨d, path, hvet, hdirective, -, hboth⟩
    refine named_helperStatement? hresources ?_ hboth hstatement
    rw [hdirective]
    exact Registry.plain_identifier hvet
  · trivial
  · trivial
  · trivial

end Plan

/-- What is generated for directives with checked names is a block that can be found again. -/
theorem Generation.isBlock_generate {available : String → Bool} {directives : List Directive}
    {block : String} (hvet : ∀ d ∈ directives, ∃ path, Registry.vetNames path d = .ok ())
    (h : generate available directives = .ok block) : Source.IsBlock block := by
  rcases generate_eq_ok.mp h with ⟨p, statements, hplan, hstatements, rfl⟩
  refine Block.isBlock_of_fits fun s hs => Block.Statement.fits_lines ?_
  exact (Plan.named_statements? hvet hplan hstatements s hs).oneLine

end Autoescape
