import Autoescape.Proofs.BlockNames
import Autoescape.Proofs.Run
import Autoescape.Regex.Automaton
import Autoescape.Storage.Setup

/-!
# Regenerating a block

A run whose output is its input takes the old block away and puts the new one in its place. So the
run repeats its own output, and of many runs in a row only the last one shows.
-/
namespace Autoescape.Run
open Storage

variable {d d' e : Disk} {l l' : Location} {output named text text' next : String}
  {globs : List String} {directives : List Directive}

/-- Regenerates the block of an output that has one. -/
def inPlace (output : String) (globs : List String) : Configuration := ⟨[output], some output, globs⟩

/-- The output is a file with a text, which can be read and may be written. -/
structure Holds (d : Disk) (output : String) (l : Location) (text : String) : Prop where
  target : d.target output = .ok l
  node? : d.node? l = some (.file text.toUTF8 false)
  parent : d.isDirectory (Path.directory output) = true
  reading : d.medium.reading l = none

namespace Holds

theorem locate (h : Holds d output l text) : d.locate output = .ok (l, .file text.toUTF8 false) :=
  Disk.locate_of_target h.target h.node?

theorem fileable (h : Holds d output l text) : d.Fileable l := by
  intro n hn
  rw [h.node?] at hn
  cases hn
  rfl

theorem unique (h : Holds d output l text) (h' : Holds d output l' text') : l = l' ∧ text = text' := by
  have heq := h.locate.symm.trans h'.locate
  simp only [Except.ok.injEq, Prod.mk.injEq, Node.file.injEq, and_true] at heq
  exact ⟨heq.1, String.toByteArray_inj.mp heq.2⟩

theorem of_put (htarget : d.target output = .ok l) (hfile : d.Fileable l)
    (hparent : d.isDirectory (Path.directory output) = true) (hreading : d.medium.reading l = none)
    (text : String) : Holds (d.put l (.file text.toUTF8 false)) output l text := by
  have hput : Disk.SameBesides l d (d.put l (.file text.toUTF8 false)) := .put hfile.not_directory nofun
  exact ⟨hput.target_eq_ok htarget, Disk.node?_put_self _ _ _, Disk.isDirectory_put hfile hparent, hreading⟩

theorem put (h : Holds d output l text) (next : String) :
    Holds (d.put l (.file next.toUTF8 false)) output l next :=
  of_put h.target h.fileable h.parent h.reading next

theorem readInput (h : Holds d output l text) : Run.readInput d output = .ok text := by
  rw [Run.readInput, (Disk.read_eq_ok h.locate).mpr ⟨h.reading, rfl⟩]
  rfl

theorem destination (h : Holds d output l text) (globs : List String) :
    (inPlace output globs).destination d = .ok output := by
  refine Configuration.destination_eq_ok.mpr ⟨rfl, ?_, ?_⟩
  · have hthere : d.isThere output = true := Disk.holds_of_locate h.locate
    refine Configuration.checkOutput_eq_ok.mpr ⟨Disk.holds_of_locate h.locate, h.parent, ?_⟩
    rw [if_pos hthere]
    exact Disk.holds_of_locate h.locate
  · refine Except.forM_eq_ok.mpr fun input hinput => ?_
    rw [List.mem_singleton.mp hinput, Configuration.checkInput_eq_ok]
    exact ⟨Disk.holds_of_locate h.locate, _, Disk.openForReading_eq_ok.mpr ⟨h.locate, by simp [h.reading]⟩⟩

theorem prepare_inPlace [Regex.Engine] (h : Holds d output l text) :
    prepare d (inPlace output globs) directives = .ok (named, next) ↔ named = output ∧
      ∃ available block, Availability.ofGlobs globs = .ok available ∧
        Generation.generate available.has directives = .ok block ∧
        next = Source.withBlock [text] block := by
  rw [prepare_eq_ok, h.destination]
  have htexts : (inPlace output globs).inputs.mapM (Run.readInput d) = .ok [text] := by
    simp [inPlace, h.readInput, Except.pure_eq_ok]
  simp only [htexts, Except.ok.injEq]
  constructor
  · rintro ⟨rfl, available, block, texts, havailable, hblock, rfl, rfl⟩
    exact ⟨rfl, available, block, havailable, hblock, rfl⟩
  · rintro ⟨rfl, available, block, havailable, hblock, rfl⟩
    exact ⟨rfl, available, block, _, havailable, hblock, rfl, rfl⟩

theorem run_inPlace [Regex.Engine] (h : Holds d output l text) :
    run d (inPlace output globs) directives = (.ok named, d') ↔ named = output ∧
      ∃ available block, Availability.ofGlobs globs = .ok available ∧
        Generation.generate available.has directives = .ok block ∧
        d.medium.opening l = none ∧
        d.medium.storing l (Source.withBlock [text] block) = none ∧
        d' = d.put l (.file (Source.withBlock [text] block).toUTF8 false) := by
  have hmark : d.isMarked l = false := by simp [Disk.isMarked, h.node?, Node.isReadOnly]
  rw [run_eq_ok]
  constructor
  · rintro ⟨next, hprepare, hwrite⟩
    rcases h.prepare_inPlace.mp hprepare with ⟨rfl, available, block, havailable, hblock, rfl⟩
    rcases Disk.write_eq_ok.mp hwrite with ⟨l', htarget, -, hopening, hstoring, rfl⟩
    rw [h.target] at htarget
    cases htarget
    rw [hmark]
    exact ⟨rfl, available, block, havailable, hblock, hopening, hstoring, rfl⟩
  · rintro ⟨rfl, available, block, havailable, hblock, hopening, hstoring, rfl⟩
    refine ⟨_, h.prepare_inPlace.mpr ⟨rfl, available, block, havailable, hblock, rfl⟩, ?_⟩
    refine Disk.write_eq_ok.mpr ⟨l, h.target, h.fileable, hopening, hstoring, ?_⟩
    rw [hmark]

/-- A block that the text was given before makes no difference to a run in place. -/
theorem run_inPlace_put [Regex.Engine] {block : String} (h : Holds d output l text)
    (hclean : Source.Clean text) (hblock : Source.IsBlock block) :
    run (d.put l (.file (Source.withBlock [text] block).toUTF8 false)) (inPlace output globs) directives
        = (.ok named, d') ↔
      run d (inPlace output globs) directives = (.ok named, d') := by
  have hmerge (next : String) :
      Source.withBlock [Source.withBlock [text] block] next = Source.withBlock [text] next :=
    Source.withBlock_withBlock (by simp) (by simpa using hclean) hblock next
  rw [(h.put _).run_inPlace, h.run_inPlace]
  simp only [hmerge, Disk.put_put, Disk.medium_put]

end Holds

theorem exists_holds [Regex.Engine]
    (hprepare : prepare d (inPlace output globs) directives = .ok (named, next))
    (htarget : d.target named = .ok l) :
    named = output ∧ ∃ text, d.read output = .ok text ∧ Holds d output l text := by
  rcases prepare_eq_ok.mp hprepare with ⟨hdestination, available, block, texts, -, -, htexts, -⟩
  rcases Configuration.destination_eq_ok.mp hdestination with ⟨hnamed, hout, hinputs⟩
  obtain rfl : output = named := by simpa [inPlace] using hnamed
  have hmark := isMarked_of_prepare hprepare htarget
  have hinput := Except.forM_eq_ok.mp hinputs output (by simp [inPlace])
  have hfile := (Configuration.checkInput_eq_ok.mp hinput).1
  have hread : ∃ text, d.read output = .ok text := by
    cases Except.forall₂_of_mapM htexts with
    | cons hfirst _ => exact ⟨_, readInput_eq_ok.mp hfirst⟩
  rcases hread with ⟨text, hread⟩
  rcases Disk.holds_iff.mp hfile with ⟨l', n, hlocate, hn⟩
  -- the file that is read lies where the path leads for writing
  have hl : l' = l := by
    have hwalk := (Disk.locate_eq_ok.mp hlocate).2.1
    rw [(Disk.walk_of_target htarget).2] at hwalk
    cases hwalk
    rfl
  subst hl
  have hnode := (Disk.locate_eq_ok.mp hlocate).2.2
  cases n with
  | directory mark => cases hn
  | device device => cases hn
  | file contents mark =>
    rcases (Disk.read_eq_ok hlocate).mp hread with ⟨hreading, rfl⟩
    obtain rfl : mark = false := by simpa [Disk.isMarked, hnode, Node.isReadOnly] using hmark
    exact ⟨rfl, text, hread, htarget, hnode, (Configuration.checkOutput_eq_ok.mp hout).2.1, hreading⟩

/-- After a run in place nothing is changed, or the output has a new block, or the medium has
refused the text and the output is lost. -/
theorem run_inPlace_cases [Regex.Engine] (d : Disk) (output : String) (globs : List String)
    (directives : List Directive) :
    (run d (inPlace output globs) directives).2 = d ∨
    (d.medium ≠ .sound ∧ (run d (inPlace output globs) directives).2.locate output = .error .notFound) ∨
    ∃ l text available block, Holds d output l text ∧ d.read output = .ok text ∧
      Generation.generate available directives = .ok block ∧
      (run d (inPlace output globs) directives).2
        = d.put l (.file (Source.withBlock [text] block).toUTF8 false) := by
  rcases hrun : run d (inPlace output globs) directives with ⟨result, d'⟩
  cases result with
  | error fault =>
    rcases run_eq_error hrun with ⟨-, rfl⟩ | ⟨named, next, refusal, hprepare, -, hwrite⟩
    · exact .inl rfl
    · rcases Disk.write_eq_error hwrite with ⟨-, rfl⟩ | ⟨l, opened, hcreate, -, rfl⟩
      · exact .inl rfl
      · rcases exists_holds hprepare (Disk.create_eq_ok.mp hcreate).1 with ⟨rfl, text, -, hholds⟩
        refine .inr (.inl ⟨fun hsound => ?_, (Disk.erase_of_create hcreate).2⟩)
        have hstored := Disk.write_of_sound next hsound hholds.target hholds.fileable
        rw [hwrite] at hstored
        cases hstored
  | ok named =>
    rcases run_eq_ok.mp hrun with ⟨next, hprepare, hwrite⟩
    rcases Disk.write_eq_ok.mp hwrite with ⟨l, htarget, -⟩
    rcases exists_holds hprepare htarget with ⟨rfl, text, hread, hholds⟩
    rcases hholds.run_inPlace.mp hrun with ⟨-, available, block, -, hblock, -, -, rfl⟩
    exact .inr (.inr ⟨l, text, available.has, block, hholds, hread, hblock, rfl⟩)

def Checked (directives : List Directive) : Prop :=
  ∀ d ∈ directives, ∃ path, Registry.vetNames path d = .ok ()

theorem run_own_output [Regex.Engine] {c : Configuration} (hchecked : Checked directives)
    (hreading : ∀ l, d.medium.reading l = none) (hne : c.inputs ≠ [])
    (hclean : ∀ input ∈ c.inputs, ∀ text, d.read input = .ok text → Source.Clean text)
    (hrun : run d c directives = (.ok output, d')) :
    run d' (inPlace output c.globs) directives = (.ok output, d') := by
  rcases run_eq_ok.mp hrun with ⟨text, hprepare, hwrite⟩
  rcases Disk.write_eq_ok.mp hwrite with ⟨l, htarget, hfile, hopening, hstoring, rfl⟩
  rw [isMarked_of_prepare hprepare htarget]
  rcases prepare_eq_ok.mp hprepare with
    ⟨hdestination, available, block, texts, havailable, hblock, htexts, rfl⟩
  have hparent := (Configuration.checkOutput_eq_ok.mp (Configuration.destination_eq_ok.mp hdestination).2.1).2.1
  have hholds := Holds.of_put htarget hfile hparent (hreading l) (Source.withBlock texts block)
  have hread := Except.forall₂_of_mapM htexts
  have hmerge : Source.withBlock [Source.withBlock texts block] block = Source.withBlock texts block := by
    refine Source.withBlock_withBlock ?_ ?_ (Generation.isBlock_generate hchecked hblock) block
    · intro hnil
      rw [hnil, List.forall₂_nil_right_iff] at hread
      exact hne hread
    · intro source hsource
      rcases exists_of_forall₂ hread hsource with ⟨input, hinput, hsource⟩
      exact hclean input hinput source (readInput_eq_ok.mp hsource)
  refine hholds.run_inPlace.mpr ⟨rfl, available, block, havailable, hblock, hopening, ?_, ?_⟩
  · rw [hmerge]
    exact hstoring
  · rw [hmerge, Disk.put_put]

/-- What can have become of a disk after some runs in place. -/
inductive Reached (d : Disk) (output : String) : Disk → Prop where
  | untouched : Reached d output d
  | replaced {l : Location} {text block : String} (holds : Holds d output l text)
    (clean : Source.Clean text) (isBlock : Source.IsBlock block) :
    Reached d output (d.put l (.file (Source.withBlock [text] block).toUTF8 false))
  | lost {e : Disk} (medium : d.medium ≠ .sound) (gone : e.locate output = .error .notFound) :
    Reached d output e

/-- One more run in place. The text stays the one that was there before all runs: only the block
behind it changes. -/
theorem reached_step [Regex.Engine] (hclean : ∀ text, d.read output = .ok text → Source.Clean text)
    (hchecked : Checked directives) (h : Reached d output e) :
    Reached d output (run e (inPlace output globs) directives).2 := by
  have hcases := run_inPlace_cases e output globs directives
  cases h with
  | untouched =>
    rcases hcases with hsame | ⟨hmedium, hgone⟩ | ⟨l, text, available, block, hholds, hread, hblock, hput⟩
    · rw [hsame]
      exact .untouched
    · exact .lost hmedium hgone
    · rw [hput]
      exact .replaced hholds (hclean text hread) (Generation.isBlock_generate hchecked hblock)
  | replaced hholds htext hold =>
    rcases hcases with hsame | ⟨hmedium, hgone⟩ | ⟨l', text', available, block, hnow, -, hblock, hput⟩
    · rw [hsame]
      exact .replaced hholds htext hold
    · exact .lost hmedium hgone
    · rcases (hholds.put _).unique hnow with ⟨rfl, rfl⟩
      rw [hput, Disk.put_put, Source.withBlock_withBlock (by simp) (by simpa using htext) hold]
      exact .replaced hholds htext (Generation.isBlock_generate hchecked hblock)
  | lost hmedium hgone =>
    rcases hcases with hsame | ⟨-, hgone'⟩ | ⟨l, text, available, block, hholds, -⟩
    · rw [hsame]
      exact .lost hmedium hgone
    · exact .lost hmedium hgone'
    · rw [hholds.locate] at hgone
      cases hgone

/-- The runs in place that some globs and registries ask for, one after the other. -/
def runsInPlace [Regex.Engine] (d : Disk) (output : String)
    (steps : List (List String × List Directive)) : Disk :=
  steps.foldl (fun d step => (run d (inPlace output step.1) step.2).2) d

theorem reached_runsInPlace [Regex.Engine] {steps : List (List String × List Directive)}
    (hclean : ∀ text, d.read output = .ok text → Source.Clean text)
    (hchecked : ∀ step ∈ steps, Checked step.2) : Reached d output (runsInPlace d output steps) := by
  -- the disk moves with every run, what it was reached from does not
  suffices ∀ e, Reached d output e → Reached d output (runsInPlace e output steps) from this d .untouched
  intro e he
  induction steps generalizing e with
  | nil => exact he
  | cons step rest ih =>
    refine ih (fun s hs => hchecked s (List.mem_cons_of_mem step hs)) _ ?_
    exact reached_step hclean (hchecked step List.mem_cons_self) he

theorem run_of_reached [Regex.Engine] (h : Reached d output e)
    (hrun : run e (inPlace output globs) directives = (.ok named, d')) :
    run d (inPlace output globs) directives = (.ok named, d') := by
  cases h with
  | untouched => exact hrun
  | replaced hholds htext hold => exact (hholds.run_inPlace_put htext hold).mp hrun
  | lost hmedium hgone =>
    -- a run cannot succeed without its input
    rcases run_eq_ok.mp hrun with ⟨next, hprepare, hwrite⟩
    rcases Disk.write_eq_ok.mp hwrite with ⟨l, htarget, -⟩
    rcases exists_holds hprepare htarget with ⟨rfl, text, -, hholds⟩
    rw [hholds.locate] at hgone
    cases hgone

theorem run_after_reached [Regex.Engine] (hsound : d.medium = .sound) (h : Reached d output e)
    (hrun : run d (inPlace output globs) directives = (.ok named, d')) :
    run e (inPlace output globs) directives = (.ok named, d') := by
  cases h with
  | untouched => exact hrun
  | replaced hholds htext hold => exact (hholds.run_inPlace_put htext hold).mpr hrun
  | lost hmedium hgone => exact absurd hsound hmedium

/-- Regeneration replaces the block and nothing else. A text with a generated block, read as an
input, counts as the inputs that it was made of. So a run on its own output leaves it as it is, and
of any runs in place only the last one shows. -/
theorem regeneration_replaces_block [Regex.Engine] :
    (∀ (available : String → Bool) (directives : List Directive) (block : String)
        (sources : List String) (next : String),
      Checked directives → Generation.generate available directives = .ok block →
      sources ≠ [] → (∀ source ∈ sources, Source.Clean source) →
      Source.withBlock [Source.withBlock sources block] next = Source.withBlock sources next) ∧
    (∀ (d d' : Disk) (c : Configuration) (directives : List Directive) (output : String),
      Checked directives → (∀ l, d.medium.reading l = none) → c.inputs ≠ [] →
      (∀ input ∈ c.inputs, ∀ text, d.read input = .ok text → Source.Clean text) →
      run d c directives = (.ok output, d') →
      run d' (inPlace output c.globs) directives = (.ok output, d')) ∧
    (∀ (d d' : Disk) (output : String) (steps : List (List String × List Directive))
        (globs : List String) (directives : List Directive),
      (∀ step ∈ steps, Checked step.2) → (∀ text, d.read output = .ok text → Source.Clean text) →
      (run (runsInPlace d output steps) (inPlace output globs) directives = (.ok output, d') →
        run d (inPlace output globs) directives = (.ok output, d')) ∧
      (d.medium = .sound → run d (inPlace output globs) directives = (.ok output, d') →
        run (runsInPlace d output steps) (inPlace output globs) directives = (.ok output, d'))) := by
  refine ⟨?_, ?_, ?_⟩
  · intro available directives block sources next hchecked hblock hne hclean
    exact Source.withBlock_withBlock hne hclean (Generation.isBlock_generate hchecked hblock) next
  · intro d d' c directives output hchecked hreading hne hclean hrun
    exact run_own_output hchecked hreading hne hclean hrun
  · intro d d' output steps globs directives hchecked hclean
    have hreached := reached_runsInPlace hclean hchecked
    exact ⟨run_of_reached hreached, fun hsound => run_after_reached hsound hreached⟩

/-- A file with one line is regenerated. Another block takes the place of the first one, the same run
changes nothing, and a run that follows others does what it does alone. -/
theorem regeneration_replaces_block_of_line :
    let d := Disk.fresh.put ["work", "out.js"] (.file "a\n".toUTF8 false)
    let directives := [(Directive.ofName "escapeHtml").escape '<' "&lt;"]
    ∃ block d', Generation.generate (fun _ => false) directives = .ok block ∧
      Source.withBlock [Source.withBlock ["a\n"] block] "" = Source.withBlock ["a\n"] "" ∧
      run d (inPlace "out.js" []) directives = (.ok "out.js", d') ∧
      run d' (inPlace "out.js" []) directives = (.ok "out.js", d') ∧
      run (runsInPlace d "out.js" [([], []), ([], directives)]) (inPlace "out.js" []) directives
        = (.ok "out.js", d') := by
  intro d directives
  have hok : (run d (inPlace "out.js" []) directives).1 = .ok "out.js" := by decide +kernel
  have hgenerated : (Generation.generate (fun _ => false) directives).isOk = true := by decide +kernel
  have hread : d.read "out.js" = .ok "a\n" := by decide +kernel
  have hclean : Source.Clean "a\n" := by
    unfold Source.Clean
    decide
  have hchecked : Checked directives := by
    intro directive hdirective
    rw [List.mem_singleton.mp hdirective]
    exact ⟨"", by decide⟩
  have hfile (text : String) (htext : d.read "out.js" = .ok text) : Source.Clean text := by
    rw [hread] at htext
    cases htext
    exact hclean
  rcases hblock : Generation.generate (fun _ => false) directives with fault | block
  · rw [hblock] at hgenerated
    cases hgenerated
  rcases hrun : run d (inPlace "out.js" []) directives with ⟨result, d'⟩
  obtain rfl : result = .ok "out.js" := by rwa [hrun] at hok
  refine ⟨block, d', rfl, ?_, rfl, ?_, ?_⟩
  · exact regeneration_replaces_block.1 _ _ _ ["a\n"] "" hchecked hblock (by simp) (by simpa using hclean)
  · refine regeneration_replaces_block.2.1 _ _ _ _ _ hchecked (fun _ => rfl) (by simp [inPlace]) ?_ hrun
    intro input hinput
    rw [List.mem_singleton.mp hinput]
    exact hfile
  · refine (regeneration_replaces_block.2.2 _ _ _ _ _ _ ?_ hfile).2 rfl hrun
    intro step hstep
    rcases List.mem_cons.mp hstep with rfl | hstep
    · exact fun directive hdirective => absurd hdirective List.not_mem_nil
    · rw [List.mem_singleton.mp hstep]
      exact hchecked

end Autoescape.Run
