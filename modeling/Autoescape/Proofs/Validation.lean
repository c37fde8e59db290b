import Autoescape.Proofs.Directory
import Autoescape.Proofs.Run
import Autoescape.Regex.Automaton
import Autoescape.Storage.Setup

/-!
# What the check of the paths is worth

A run looks at all its paths before it begins. Where nothing refuses to be written, the check finds
everything that could go wrong with them later, but for two things: an input may give no text, and
an output may be no name that a file can have. `Run.destination_complete_iff` says that these are all.
-/
namespace Autoescape
open Storage

namespace Storage

namespace Path

/-- What stands behind the last slash of a path. -/
def name (path : String) : String := (segments path).getLast (segments_ne_nil path)

/-- A path under which a file can be made, once its directory is there. -/
structure NamesFile (path : String) : Prop where
  noNul : '\x00' ∉ path.toList
  length : path.utf8ByteSize ≤ Disk.pathLimit
  named : name path ≠ "" ∧ name path ≠ "." ∧ name path ≠ ".."
  nameLength : (name path).utf8ByteSize ≤ Disk.nameLimit

theorem exists_segments_eq (path : String) : ∃ front, segments path = front ++ [name path] :=
  ⟨(segments path).dropLast, (List.dropLast_concat_getLast (segments_ne_nil path)).symm⟩

theorem name_of_segments {path last : String} {front : List String}
    (h : segments path = front ++ [last]) : name path = last := by
  simp [name, h]

end Path

namespace Disk

variable {d : Disk} {l : Location} {path : String}

theorem checkPath_eq_ok :
    checkPath path = .ok () ↔ '\x00' ∉ path.toList ∧ path ≠ "" ∧ path.utf8ByteSize ≤ pathLimit := by
  unfold checkPath
  by_cases hnul : '\x00' ∈ path.toList
  · simp [hnul]
  · by_cases hempty : path = ""
    · simp [hempty]
    · by_cases hlong : path.utf8ByteSize > pathLimit
      · simp [hnul, hempty, hlong]
      · simp [hnul, hempty, hlong, Nat.le_of_not_lt hlong]

theorem enter_name_eq_ok {segment : String} {l' : Location}
    (hname : segment ≠ "" ∧ segment ≠ "." ∧ segment ≠ "..") :
    d.enter l segment = .ok l' ↔ (∃ mark, d.node? l = some (.directory mark)) ∧
      segment.utf8ByteSize ≤ nameLimit ∧ l' = l ++ [segment] := by
  constructor
  · intro h
    rcases directory_of_enter h with ⟨mark, hmark⟩
    by_cases hlong : segment.utf8ByteSize > nameLimit
    · simp [enter, hmark, hname, hlong] at h
    · refine ⟨⟨mark, hmark⟩, Nat.le_of_not_lt hlong, ?_⟩
      simpa [enter, hmark, hname, hlong, eq_comm] using h
  · rintro ⟨⟨mark, hmark⟩, hshort, rfl⟩
    simp [enter, hmark, hname, Nat.not_lt.mpr hshort]

theorem namesFile_of_target (h : d.target path = .ok l) : Path.NamesFile path := by
  rcases target_eq_ok.mp h with ⟨hcheck, front, name, parent, hsegments, hname, -, henter⟩
  rcases checkPath_eq_ok.mp hcheck with ⟨hnul, -, hlength⟩
  obtain rfl := Path.name_of_segments hsegments
  exact ⟨hnul, hlength, hname, ((enter_name_eq_ok hname).mp henter).2.1⟩

theorem exists_target (h : Path.NamesFile path) (hparent : d.isDirectory (Path.directory path) = true) :
    ∃ l, d.target path = .ok l := by
  rcases Path.exists_segments_eq path with ⟨front, hsegments⟩
  rcases holds_iff.mp hparent with ⟨parent, n, hlocate, hn⟩
  rcases locate_eq_ok.mp hlocate with ⟨-, hwalk, hnode⟩
  cases n with
  | file contents mark => cases hn
  | device device => cases hn
  | directory mark =>
    have hmoves : Path.moves (Path.name path) = true := by simpa [Path.moves] using ⟨h.named.1, h.named.2.1⟩
    have hne : path ≠ "" := by
      rintro rfl
      exact h.named.1 rfl
    refine ⟨parent ++ [Path.name path], target_eq_ok.mpr ⟨?_, front, _, parent, hsegments, h.named, ?_, ?_⟩⟩
    · exact checkPath_eq_ok.mpr ⟨h.noNul, hne, h.length⟩
    · exact (walk_directory_iff hsegments hmoves hnode).mp hwalk
    · exact (enter_name_eq_ok h.named).mpr ⟨⟨mark, hnode⟩, h.nameLength, rfl⟩

def NoDevices (d : Disk) : Prop := ∀ l device, d.node? l ≠ some (.device device)

theorem fileable_of_target (hplain : d.NoDevices) (htarget : d.target path = .ok l)
    (hdirectory : d.isDirectory path = false) : d.Fileable l := by
  intro n hnode
  have hn : n.isDirectory = false :=
    (holds_of_locate (locate_of_target htarget hnode)).symm.trans hdirectory
  cases n with
  | directory mark => cases hn
  | file contents mark => rfl
  | device device => exact absurd hnode (hplain l device)

def NotText (d : Disk) (path : String) : Prop :=
  ∃ l contents mark, d.locate path = .ok (l, .file contents mark) ∧ String.fromUTF8? contents = none

/-- A path leads to something whose contents the medium keeps back. -/
def Withheld (d : Disk) (path : String) : Prop :=
  ∃ l n refusal, d.locate path = .ok (l, n) ∧ d.medium.reading l = some (.withheld refusal)

/-- A file that can be opened is not read for two reasons only. -/
theorem notText_or_withheld_of_read {r : Location × Node} {refusal : Refusal}
    (hfile : d.isFile path = true) (hopened : d.openForReading path = .ok r)
    (h : d.read path = .error refusal) : d.NotText path ∨ d.Withheld path := by
  rcases r with ⟨l, n⟩
  obtain ⟨hlocate, hclosed⟩ := openForReading_eq_ok.mp hopened
  have hn : n.isFile = true := (holds_of_locate hlocate).symm.trans hfile
  rcases hreading : d.medium.reading l with _ | refused | withheld
  · cases n with
    | directory mark => cases hn
    | device device => cases hn
    | file contents mark =>
      refine .inl ⟨l, contents, mark, hlocate, Option.eq_none_iff_forall_ne_some.mpr fun text htext => ?_⟩
      have hread := (read_eq_ok hlocate).mpr ⟨hreading, fromUTF8?_eq_some_iff.mp htext⟩
      rw [h] at hread
      cases hread
  · exact absurd hreading (hclosed refused)
  · exact .inr ⟨l, n, withheld, hlocate, hreading⟩

theorem not_withheld_of_sound (hsound : d.medium = .sound) : ¬d.Withheld path := by
  rintro ⟨l, n, refusal, -, hreading⟩
  rw [hsound] at hreading
  cases hreading

end Disk
end Storage

/-- The medium opens everything for writing and stores every text. -/
structure Storage.Medium.TakesTexts (m : Medium) : Prop where
  opening : ∀ l, m.opening l = none
  storing : ∀ l text, m.storing l text = none

theorem Storage.Medium.takesTexts_sound : Medium.sound.TakesTexts := ⟨fun _ => rfl, fun _ _ => rfl⟩

namespace Run

variable {d d' : Disk} {c : Configuration} {directives : List Directive} {output text : String}

/-- After the check of the paths, an input that cannot be read holds no text or is kept back. -/
theorem failsOnly_unreadable [Regex.Engine] (d : Disk) (c : Configuration) (directives : List Directive) :
    Except.FailsOnly (fun fault => fault.code = "ESC-READ" →
        ∃ input ∈ c.inputs, d.NotText input ∨ d.Withheld input)
      (prepare d c directives) := by
  have hother (codes : List String) (hread : "ESC-READ" ∉ codes) (fault : Fault)
      (h : fault.code ∈ codes) (hcode : fault.code = "ESC-READ") :
      ∃ input ∈ c.inputs, d.NotText input ∨ d.Withheld input := absurd (hcode ▸ h) hread
  have hconfig (fault : Fault) (h : fault.code = "ESC-CONFIG") :=
    hother ["ESC-CONFIG"] (by decide) fault (by simp [h])
  refine .bind_of_ok ((c.failsOnly_destination d).mono hconfig) fun output hdestination => ?_
  refine .bind ((Availability.failsOnly_ofGlobs c.globs).mono hconfig) fun available => ?_
  refine .bind ((Generation.failsOnly_generate _ _).mono (hother _ (by decide))) fun block => ?_
  refine .bind (.bind (.mapM fun input hinput => ?_) fun _ => trivial) fun _ => trivial
  have hinputs := (Configuration.destination_eq_ok.mp hdestination).2.2
  obtain ⟨hfile, r, hopened⟩ :=
    Configuration.checkInput_eq_ok.mp (Except.forM_eq_ok.mp hinputs input hinput)
  unfold readInput
  rcases hread : d.read input with refusal | text
  · exact fun _ => ⟨input, hinput, Disk.notText_or_withheld_of_read hfile hopened hread⟩
  · trivial

theorem run_of_prepare_eq_error [Regex.Engine] {fault : Fault} (h : prepare d c directives = .error fault) :
    run d c directives = (.error fault, d) := by
  simp [run, h]

theorem run_of_write_eq_error [Regex.Engine] {refusal : Refusal}
    (hprepare : prepare d c directives = .ok (output, text))
    (hwrite : d.write output text = (.error refusal, d')) :
    run d c directives = (.error (.write output refusal), d') := by
  simp [run, deliver, hprepare, hwrite, Except.mapError]

theorem write_checked_output (htakes : d.medium.TakesTexts) (hplain : d.NoDevices)
    (hcheck : Configuration.checkOutput d output = .ok ()) (hname : Path.NamesFile output) (text : String) :
    ∃ d', d.write output text = (.ok (), d') := by
  rcases Configuration.checkOutput_eq_ok.mp hcheck with ⟨hdirectory, hparent, -⟩
  rcases Disk.exists_target hname hparent with ⟨l, htarget⟩
  have hfile := Disk.fileable_of_target hplain htarget hdirectory
  exact ⟨_, Disk.write_eq_ok.mpr ⟨l, htarget, hfile, htakes.opening l, htakes.storing l text, rfl⟩⟩

/-- The writing of a run whose paths are checked fails exactly where the output is no name for a
file. -/
theorem write_fails_iff [Regex.Engine] (htakes : d.medium.TakesTexts) (hplain : d.NoDevices)
    (hdestination : c.destination d = .ok output) :
    (∃ fault d', run d c directives = (.error fault, d') ∧ fault.code = "ESC-WRITE") ↔
      (∃ text, prepare d c directives = .ok (output, text)) ∧ ¬Path.NamesFile output := by
  constructor
  · rintro ⟨fault, d', hrun, hcode⟩
    rcases run_eq_error hrun with ⟨hprepare, -⟩ | ⟨named, text, refusal, hprepare, -, hwrite⟩
    · have hcodes := failsOnly_prepare d c directives
      rw [hprepare, Except.FailsOnly.error_iff, hcode] at hcodes
      exact absurd hcodes (by decide)
    · have hnamed := (prepare_eq_ok.mp hprepare).1
      rw [hdestination] at hnamed
      cases hnamed
      refine ⟨⟨text, hprepare⟩, fun hname => ?_⟩
      have hcheck := (Configuration.destination_eq_ok.mp hdestination).2.1
      rcases write_checked_output htakes hplain hcheck hname text with ⟨written, hok⟩
      rw [hwrite] at hok
      cases hok
  · rintro ⟨⟨text, hprepare⟩, hname⟩
    rcases hwrite : d.write output text with ⟨refusal | done, d'⟩
    · exact ⟨_, d', run_of_write_eq_error hprepare hwrite, rfl⟩
    · rcases Disk.write_eq_ok.mp hwrite with ⟨l, htarget, -⟩
      exact absurd (Disk.namesFile_of_target htarget) hname

/-- The check of the paths is complete but for the name of the output. On a file system without
devices, whose medium takes every text, what it refuses ends the run at once and changes nothing.
After it a run fails in the writing exactly when all else is well and the output is no name for a
file, and it fails in the reading only when an input holds no text or, on a medium that is not sound,
when the contents of an input that was opened do not come. The file system has no links, and marks
are all that it has of permissions. -/
theorem destination_complete_iff [Regex.Engine] (d : Disk) (htakes : d.medium.TakesTexts)
    (hplain : d.NoDevices) (c : Configuration) (directives : List Directive) :
    match c.destination d with
    | .error fault => fault.code = "ESC-CONFIG" ∧ run d c directives = (.error fault, d)
    | .ok output =>
      ((∃ fault d', run d c directives = (.error fault, d') ∧ fault.code = "ESC-WRITE") ↔
        (∃ text, prepare d c directives = .ok (output, text)) ∧ ¬Path.NamesFile output) ∧
      ∀ fault d', run d c directives = (.error fault, d') → fault.code = "ESC-READ" →
        ∃ input ∈ c.inputs, d.NotText input ∨ (d.medium ≠ .sound ∧ d.Withheld input) := by
  rcases hdestination : c.destination d with fault | output
  · have hfault := c.failsOnly_destination d
    rw [hdestination] at hfault
    refine ⟨hfault, run_of_prepare_eq_error ?_⟩
    rw [prepare, hdestination]
    rfl
  · refine ⟨write_fails_iff htakes hplain hdestination, fun fault d' hrun hcode => ?_⟩
    rcases run_eq_error hrun with ⟨hprepare, -⟩ | ⟨_, _, refusal, -, rfl, -⟩
    · have hread := failsOnly_unreadable d c directives
      rw [hprepare] at hread
      obtain ⟨input, hinput, hcause⟩ := hread hcode
      refine ⟨input, hinput, hcause.imp_right fun hwithheld => ⟨fun hsound => ?_, hwithheld⟩⟩
      exact Disk.not_withheld_of_sound hsound hwithheld
    · exact absurd hcode (by simp [Fault.code])

theorem noDevices_fresh : Disk.fresh.NoDevices := by
  intro l device hnode
  rw [Disk.node?, Disk.fresh] at hnode
  by_cases hl : l = ["work"]
  · simp [hl] at hnode
  · have hne : (l == ["work"]) = false := by simpa using hl
    by_cases hroot : l = [] <;> simp [List.lookup_cons, hne, hroot] at hnode

theorem destination_complete_for_name :
    ∃ output, (Configuration.ofOutput "out.js").destination Disk.fresh = .ok output ∧
      ((∃ fault d', run Disk.fresh (.ofOutput "out.js") [] = (.error fault, d') ∧
          fault.code = "ESC-WRITE") ↔
        (∃ text, prepare Disk.fresh (.ofOutput "out.js") [] = .ok (output, text)) ∧
          ¬Path.NamesFile output) := by
  have hdestination : (Configuration.ofOutput "out.js").destination Disk.fresh = .ok "out.js" := by
    decide +kernel
  have hcomplete := destination_complete_iff Disk.fresh Medium.takesTexts_sound noDevices_fresh
    (.ofOutput "out.js") []
  rw [hdestination] at hcomplete
  exact ⟨"out.js", hdestination, hcomplete.1⟩

/-- A path that ends in a slash passes the check, and the writing refuses it. -/
theorem destination_not_complete_for_slash :
    Disk.fresh.medium = .sound ∧ Disk.fresh.NoDevices ∧
      (Configuration.ofOutput "out.js/").destination Disk.fresh = .ok "out.js/" ∧
      (run Disk.fresh (.ofOutput "out.js/") []).1 = .error (.write "out.js/" .isDirectory) :=
  ⟨rfl, noDevices_fresh, by decide +kernel, by decide +kernel⟩

end Run
end Autoescape
