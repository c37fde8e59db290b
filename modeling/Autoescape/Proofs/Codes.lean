import Autoescape.Proofs.Except
import Autoescape.Run

/-!
# Which codes a stage of a run can give

Each stage has codes of its own, and no stage before the writing has the code of the writing.
-/
namespace Autoescape

def Generation.codes : List String :=
  ["ESC-AMBIGUOUS", "ESC-ASTRAL", "ESC-PATTERN", "ESC-UNIMPLEMENTED", "ESC-DANGLING"]

def Run.codes : List String := "ESC-CONFIG" :: "ESC-READ" :: Generation.codes

theorem Directive.failsOnly_table? (d : Directive) :
    Except.FailsOnly (·.code ∈ Generation.codes) d.table? := by
  unfold table?
  split
  · trivial
  · refine (Except.FailsOnly.foldlM (fun t e => ?_) _ _).map
    unfold addEscape
    split
    · simp [Fault.code, Generation.codes]
    · split
      · simp [Fault.code, Generation.codes]
      · trivial

theorem Pattern.failsOnly_literal (directive : String) (p : Pattern) :
    Except.FailsOnly (·.code ∈ Generation.codes) (p.literal directive) := by
  unfold literal
  cases p.literalChars with
  | error feature => simp [Fault.code, Generation.codes]
  | ok chars => trivial

theorem Resources.failsOnly_addFilter (r : Resources) (directive owner : String) (p : Pattern) :
    Except.FailsOnly (·.code ∈ Generation.codes) (r.addFilter directive owner p) := by
  have hliteral := p.failsOnly_literal directive
  cases h : p.literal directive with
  | error fault =>
    rw [h] at hliteral
    rwa [addFilter_of_error h]
  | ok literal =>
    rw [addFilter_of_ok h]
    trivial

namespace Plan

theorem failsOnly_wire (r : Resources) (d : Directive) :
    Except.FailsOnly (·.code ∈ Generation.codes) (wire r d) := by
  refine .bind (d.failsOnly_table?.bind fun t => ?_) fun tables => ?_
  · cases t <;> trivial
  · refine .bind ?_ fun filters => ?_
    · unfold addFilter
      cases d.filter with
      | none => trivial
      | some p => exact (Resources.failsOnly_addFilter _ _ _ p).bind fun _ => trivial
    · cases d.nonAsciiLead with
      | none => trivial
      | some lead =>
        change (Fault.nonAsciiLead d.identifier).code ∈ Generation.codes
        simp [Fault.code, Generation.codes]

theorem failsOnly_ofDirectives (available : String → Bool) (directives : List Directive) :
    Except.FailsOnly (·.code ∈ Generation.codes) (ofDirectives available directives) := by
  refine Except.FailsOnly.foldlM (fun p d => ?_) _ _
  unfold add
  cases standIn? available d with
  | some function => trivial
  | none => exact (failsOnly_wire p.resources d).bind fun _ => trivial

end Plan

theorem Generation.failsOnly_generate (available : String → Bool) (directives : List Directive) :
    Except.FailsOnly (·.code ∈ codes) (generate available directives) := by
  refine (Plan.failsOnly_ofDirectives available directives).bind fun p => ?_
  cases p.block? available with
  | none => simp [Fault.code, codes]
  | some block => trivial

namespace Configuration

theorem failsOnly_checkOutput (d : Storage.Disk) (output : String) :
    Except.FailsOnly (·.code = "ESC-CONFIG") (checkOutput d output) := by
  unfold checkOutput
  dsimp only
  split
  · simp [Fault.code]
  · split
    · simp [Fault.code]
    · by_cases hmark : d.isReadOnly (if d.isThere output then output else Storage.Path.directory output)
      · rw [if_pos hmark]
        simp [Fault.code]
      · rw [if_neg hmark]
        trivial

theorem failsOnly_destination (d : Storage.Disk) (c : Configuration) :
    Except.FailsOnly (·.code = "ESC-CONFIG") (c.destination d) := by
  unfold destination
  cases c.output with
  | none => simp [Fault.code]
  | some output =>
    refine (failsOnly_checkOutput d output).bind fun _ => .bind (.forM (fun input => ?_) _) fun _ => trivial
    unfold checkInput
    split
    · simp [Fault.code]
    · trivial

end Configuration

theorem Availability.failsOnly_ofGlobs [Regex.Engine] (globs : List String) :
    Except.FailsOnly (·.code = "ESC-CONFIG") (ofGlobs globs) := by
  refine .bind (.mapM fun glob _ => ?_) fun _ => trivial
  unfold Glob.compile
  split
  · simp [Fault.code]
  · cases Regex.Engine.compile (Glob.expression glob) with
    | error error => simp [Except.mapError, Fault.code]
    | ok compiled => trivial

theorem Run.failsOnly_readInput (d : Storage.Disk) (input : String) :
    Except.FailsOnly (·.code = "ESC-READ") (readInput d input) := by
  unfold readInput
  cases d.read input with
  | error refusal => simp [Except.mapError, Fault.code]
  | ok text => trivial

/-- Whatever stops a run before the writing, it has no code of the writing. -/
theorem Run.failsOnly_prepare [Regex.Engine] (d : Storage.Disk) (c : Configuration) (directives : List Directive) :
    Except.FailsOnly (·.code ∈ codes) (prepare d c directives) := by
  have hconfig (fault : Fault) (h : fault.code = "ESC-CONFIG") : fault.code ∈ codes := by
    simp [codes, h]
  refine .bind ((c.failsOnly_destination d).mono hconfig) fun output => ?_
  refine .bind ((Availability.failsOnly_ofGlobs c.globs).mono hconfig) fun available => ?_
  refine .bind ((Generation.failsOnly_generate _ _).mono fun fault h => ?_) fun block => ?_
  · simp [codes, h]
  · refine .bind (.bind (.mono (.mapM fun input _ => failsOnly_readInput d input) fun fault h => ?_)
      fun _ => trivial) fun _ => trivial
    simp [codes, h]

end Autoescape
