import Autoescape.Proofs.Codes
import Autoescape.Proofs.Disk

/-!
# A run does all of its work or none

All reading comes before all writing. So the output may be one of the inputs, a fault before the
writing leaves the files alone, and a fault of the writing costs at most the output.
-/
namespace Autoescape

theorem Configuration.checkOutput_eq_ok {d : Storage.Disk} {output : String} :
    checkOutput d output = .ok () ↔ d.isDirectory output = false ∧
      d.isDirectory (Storage.Path.directory output) = true ∧
      d.isReadOnly (if d.isThere output then output else Storage.Path.directory output) = false := by
  unfold checkOutput
  dsimp only
  cases d.isDirectory output with
  | true => simp
  | false =>
    cases d.isDirectory (Storage.Path.directory output) with
    | false => simp
    | true =>
      cases d.isReadOnly (if d.isThere output then output else Storage.Path.directory output) with
      | true => simp
      | false => simp [Except.pure_eq_ok]

theorem Configuration.destination_eq_ok {d : Storage.Disk} {c : Configuration} {output : String} :
    c.destination d = .ok output ↔ c.output = some output ∧ checkOutput d output = .ok () ∧
      c.inputs.forM (checkInput d) = .ok () := by
  unfold destination
  cases hc : c.output with
  | none => simp
  | some named =>
    constructor
    · intro h
      rcases Except.bind_eq_ok.mp h with ⟨⟨⟩, hout, h⟩
      rcases Except.bind_eq_ok.mp h with ⟨⟨⟩, hinputs, h⟩
      cases h
      exact ⟨rfl, hout, hinputs⟩
    · rintro ⟨hnamed, hout, hinputs⟩
      cases hnamed
      exact Except.bind_eq_ok.mpr ⟨(), hout, Except.bind_eq_ok.mpr ⟨(), hinputs, rfl⟩⟩

theorem Configuration.checkInput_eq_ok {d : Storage.Disk} {input : String} :
    checkInput d input = .ok () ↔ d.isFile input = true ∧ ∃ r, d.openForReading input = .ok r := by
  unfold checkInput
  cases d.isFile input with
  | false => simp
  | true => cases d.openForReading input <;> simp [Except.isOk, Except.toBool]

namespace Run
open Storage

variable {d d' : Disk} {c : Configuration} {directives : List Directive} {output text : String}

theorem readInput_eq_ok {input : String} : readInput d input = .ok text ↔ d.read input = .ok text := by
  unfold readInput
  cases d.read input <;> simp [Except.mapError]

theorem prepare_eq_ok [Regex.Engine] :
    prepare d c directives = .ok (output, text) ↔ c.destination d = .ok output ∧
      ∃ available block texts, c.availability = .ok available ∧
        Generation.generate available.has directives = .ok block ∧
        c.inputs.mapM (readInput d) = .ok texts ∧ text = Source.withBlock texts block := by
  rw [prepare, Except.bind_eq_ok]
  constructor
  · rintro ⟨named, hdestination, h⟩
    rcases Except.bind_eq_ok.mp h with ⟨available, havailable, h⟩
    rcases Except.bind_eq_ok.mp h with ⟨block, hblock, h⟩
    rcases Except.bind_eq_ok.mp h with ⟨whole, hcontents, h⟩
    rcases Except.bind_eq_ok.mp hcontents with ⟨texts, htexts, hwhole⟩
    cases h
    cases hwhole
    exact ⟨hdestination, available, block, texts, havailable, hblock, htexts, rfl⟩
  · rintro ⟨hdestination, available, block, texts, havailable, hblock, htexts, rfl⟩
    refine ⟨output, hdestination, Except.bind_eq_ok.mpr ⟨available, havailable, ?_⟩⟩
    refine Except.bind_eq_ok.mpr ⟨block, hblock, Except.bind_eq_ok.mpr ⟨_, ?_, rfl⟩⟩
    exact Except.bind_eq_ok.mpr ⟨texts, htexts, rfl⟩

theorem run_eq_ok [Regex.Engine] :
    run d c directives = (.ok output, d') ↔ ∃ text, prepare d c directives = .ok (output, text) ∧
      d.write output text = (.ok (), d') := by
  unfold run deliver
  cases hprepare : prepare d c directives with
  | error fault => simp
  | ok r =>
    rcases r with ⟨named, text⟩
    rcases hwrite : d.write named text with ⟨result, after⟩
    cases result with
    | error refusal =>
      simp only [hwrite, Except.mapError, Prod.mk.injEq, reduceCtorEq, false_and, Except.ok.injEq,
        false_iff, not_exists, not_and, and_imp]
      rintro text' rfl rfl
      simp [hwrite]
    | ok _ =>
      simp only [hwrite, Except.mapError, Prod.mk.injEq, Except.ok.injEq]
      constructor
      · rintro ⟨rfl, rfl⟩
        exact ⟨text, ⟨rfl, rfl⟩, hwrite⟩
      · rintro ⟨text', ⟨rfl, rfl⟩, hwrite'⟩
        rw [hwrite] at hwrite'
        simpa using hwrite'

theorem run_eq_error [Regex.Engine] {fault : Fault} (h : run d c directives = (.error fault, d')) :
    (prepare d c directives = .error fault ∧ d' = d) ∨
    ∃ output text refusal, prepare d c directives = .ok (output, text) ∧
      fault = .write output refusal ∧ d.write output text = (.error refusal, d') := by
  unfold run deliver at h
  cases hprepare : prepare d c directives with
  | error fault' =>
    simp only [hprepare, Prod.mk.injEq, Except.error.injEq] at h
    exact .inl ⟨by rw [h.1], h.2.symm⟩
  | ok r =>
    rcases r with ⟨named, text⟩
    rcases hwrite : d.write named text with ⟨result, after⟩
    cases result with
    | ok _ => simp [hprepare, hwrite, Except.mapError] at h
    | error refusal =>
      simp only [hprepare, hwrite, Except.mapError, Prod.mk.injEq, Except.error.injEq] at h
      rcases h with ⟨rfl, rfl⟩
      exact .inr ⟨named, text, refusal, rfl, rfl, hwrite⟩

theorem isMarked_of_prepare [Regex.Engine] {l : Location}
    (hprepare : prepare d c directives = .ok (output, text))
    (htarget : d.target output = .ok l) : d.isMarked l = false := by
  rcases Configuration.destination_eq_ok.mp (prepare_eq_ok.mp hprepare).1 with ⟨-, hout, -⟩
  have hmark := (Configuration.checkOutput_eq_ok.mp hout).2.2
  cases hnode : d.node? l with
  | none => simp [Disk.isMarked, hnode]
  | some n =>
    have hlocate := Disk.locate_of_target htarget hnode
    have hthere : d.isThere output = true := Disk.holds_of_locate hlocate
    rw [if_pos hthere, Disk.isReadOnly, Disk.holds_of_locate hlocate] at hmark
    simpa [Disk.isMarked, hnode] using hmark

/-- A run that fails with another code than that of the writing leaves all files as they are, and
so does one that cannot open its output. One that cannot store in the opened output takes the
output away and leaves all else as it is. One that succeeds changes the output only, and leaves
there what the inputs, as they were before, make with the block. The file system has no links, and
whatever permissions would refuse is up to the medium. -/
theorem run_all_or_nothing [Regex.Engine] (d : Disk) (c : Configuration) (directives : List Directive) :
    match run d c directives with
    | (.error fault, d') =>
      (fault.code ≠ "ESC-WRITE" ∧ d' = d) ∨
      ∃ output text refusal, prepare d c directives = .ok (output, text) ∧
        fault = .write output refusal ∧
        ((d.create output = .error refusal ∧ d' = d) ∨
          ∃ l opened, d.create output = .ok (l, opened) ∧ opened.store l text = .error refusal ∧
            d'.locate output = .error .notFound ∧ Disk.SameBesides l d d')
    | (.ok output, d') =>
      c.output = some output ∧ ∃ available block texts l, c.availability = .ok available ∧
        Generation.generate available.has directives = .ok block ∧
        c.inputs.mapM (readInput d) = .ok texts ∧
        d'.locate output = .ok (l, .file (Source.withBlock texts block).toUTF8 false) ∧
        Disk.SameBesides l d d' := by
  rcases hrun : run d c directives with ⟨result, d'⟩
  cases result with
  | error fault =>
    rcases run_eq_error hrun with ⟨hprepare, rfl⟩ | ⟨output, text, refusal, hprepare, rfl, hwrite⟩
    · have hcode := failsOnly_prepare d' c directives
      rw [hprepare] at hcode
      refine .inl ⟨?_, rfl⟩
      intro hwrite
      simp [hwrite, codes, Generation.codes] at hcode
    · refine .inr ⟨output, text, refusal, hprepare, rfl, ?_⟩
      rcases Disk.write_eq_error hwrite with ⟨hcreate, rfl⟩ | ⟨l, opened, hcreate, hstore, rfl⟩
      · exact .inl ⟨hcreate, rfl⟩
      · rcases Disk.erase_of_create hcreate with ⟨hsame, hgone⟩
        exact .inr ⟨l, opened, hcreate, hstore, hgone, hsame⟩
  | ok output =>
    rcases run_eq_ok.mp hrun with ⟨text, hprepare, hwrite⟩
    rcases Disk.write_eq_ok.mp hwrite with ⟨l, htarget, hfile, -, -, rfl⟩
    rw [isMarked_of_prepare hprepare htarget]
    rcases prepare_eq_ok.mp hprepare with
      ⟨hdestination, available, block, texts, havailable, hblock, htexts, rfl⟩
    rcases Disk.put_of_target htarget hfile with ⟨hsame, hthere⟩
    exact ⟨(Configuration.destination_eq_ok.mp hdestination).1, available, block, texts, l,
      havailable, hblock, htexts, hthere, hsame⟩

end Run
end Autoescape
