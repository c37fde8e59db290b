import Autoescape.Proofs.Except
import Autoescape.Storage.Disk
import Mathlib.Data.List.DropRight

/-!
# What operations on files leave as it is

A path is walked through directories only. So what lies at a location that is no directory has no
say in where any path leads, and writing there is seen by the paths to that location alone.
-/
namespace Autoescape.Storage

/-- What reading a node gives: the text whose bytes a file holds, and nothing for the null device. -/
inductive Node.Yields : Node → String → Prop where
  | file (text : String) (readOnly : Bool) : Yields (.file text.toUTF8 readOnly) text
  | null : Yields (.device .null) ""

namespace Disk

variable {d d' d'' : Disk} {l l' : Location} {path text : String}

theorem lookup_filter_ne (nodes : List (Location × Node)) (l l' : Location) :
    (nodes.filter (·.1 ≠ l)).lookup l' = if l' = l then none else nodes.lookup l' := by
  induction nodes with
  | nil => simp
  | cons entry rest ih =>
    rcases entry with ⟨place, n⟩
    by_cases hplace : place = l
    · subst hplace
      rw [List.filter_cons_of_neg (by simp), ih]
      by_cases h : l' = place
      · simp [h]
      · have hne : (l' == place) = false := by simpa using h
        simp [h, hne, List.lookup_cons]
    · rw [List.filter_cons_of_pos (by simpa using hplace), List.lookup_cons, List.lookup_cons, ih]
      by_cases h : l' = l
      · have hne : (l == place) = false := by simpa using Ne.symm hplace
        simp [h, hne]
      · simp [h]

theorem node?_put (d : Disk) (l l' : Location) (n : Node) :
    (d.put l n).node? l' = if l' = l then some n else d.node? l' := by
  by_cases h : l' = l
  · subst h
    simp [node?, put]
  · have hne : (l' == l) = false := by simpa using h
    rw [if_neg h]
    simp only [node?, put, List.lookup_cons, hne, lookup_filter_ne, if_neg h]

@[simp] theorem node?_put_self (d : Disk) (l : Location) (n : Node) : (d.put l n).node? l = some n := by
  rw [node?_put, if_pos rfl]

theorem node?_erase (d : Disk) (l l' : Location) (h : l ≠ []) :
    (d.erase l).node? l' = if l' = l then none else d.node? l' := by
  by_cases hl : l' = l
  · subst hl
    simp only [node?, erase, lookup_filter_ne, if_pos, if_neg h, Option.or_none]
  · rw [if_neg hl]
    simp only [node?, erase, lookup_filter_ne, if_neg hl]

theorem put_put (d : Disk) (l : Location) (n n' : Node) : (d.put l n).put l n' = d.put l n' := by
  simp [put]

@[simp] theorem medium_put (d : Disk) (l : Location) (n : Node) : (d.put l n).medium = d.medium := rfl

/-- Two states that differ at most in what lies at one location, which is no directory in either
of them. -/
structure SameBesides (l : Location) (d d' : Disk) : Prop where
  here : d'.here = d.here
  medium : d'.medium = d.medium
  node? : ∀ l' ≠ l, d'.node? l' = d.node? l'
  before : ∀ mark, d.node? l ≠ some (.directory mark)
  after : ∀ mark, d'.node? l ≠ some (.directory mark)

namespace SameBesides

theorem symm (h : SameBesides l d d') : SameBesides l d' d :=
  ⟨h.here.symm, h.medium.symm, fun l' hl => (h.node? l' hl).symm, h.after, h.before⟩

theorem trans (h : SameBesides l d d') (h' : SameBesides l d' d'') : SameBesides l d d'' :=
  ⟨h'.here.trans h.here, h'.medium.trans h.medium,
    fun l' hl => (h'.node? l' hl).trans (h.node? l' hl), h.before, h'.after⟩

theorem put {n : Node} (hd : ∀ mark, d.node? l ≠ some (.directory mark))
    (hn : ∀ mark, n ≠ .directory mark) : SameBesides l d (d.put l n) := by
  refine ⟨rfl, rfl, fun l' hl => ?_, hd, fun mark => ?_⟩
  · rw [node?_put, if_neg hl]
  · simpa using hn mark

theorem erase (hl : l ≠ []) (hd : ∀ mark, d.node? l ≠ some (.directory mark)) :
    SameBesides l d (d.erase l) := by
  refine ⟨rfl, rfl, fun l' hl' => ?_, hd, fun mark => ?_⟩
  · rw [node?_erase d l l' hl, if_neg hl']
  · simp [node?_erase d l l hl]

end SameBesides

theorem directory_of_enter {segment : String} (h : d.enter l segment = .ok l') :
    ∃ mark, d.node? l = some (.directory mark) := by
  unfold enter at h
  split at h
  · cases h
  · next mark hnode => exact ⟨mark, hnode⟩
  · cases h

theorem SameBesides.enter_eq_ok {at_ : Location} {segment : String} (hsame : SameBesides l d d')
    (h : d.enter at_ segment = .ok l') : d'.enter at_ segment = .ok l' := by
  rcases directory_of_enter h with ⟨mark, hmark⟩
  -- nothing can be entered from the location where the two states differ
  have hne : at_ ≠ l := by
    intro heq
    subst heq
    exact hsame.before mark hmark
  unfold enter at h ⊢
  rw [hsame.node? at_ hne]
  exact h

theorem SameBesides.walk_eq_ok {from_ : Location} {segments : List String}
    (hsame : SameBesides l d d') (h : d.walk from_ segments = .ok l') :
    d'.walk from_ segments = .ok l' := by
  induction segments generalizing from_ with
  | nil => exact h
  | cons segment rest ih =>
    rw [walk, List.foldlM_cons] at h ⊢
    rcases Except.bind_eq_ok.mp h with ⟨next, henter, hwalk⟩
    exact Except.bind_eq_ok.mpr ⟨next, hsame.enter_eq_ok henter, ih hwalk⟩

theorem SameBesides.origin_eq (hsame : SameBesides l d d') (path : String) :
    d'.origin path = d.origin path := by
  simp [origin, hsame.here]

theorem enter_dot {segment : String} (h : d.enter l segment = .ok l') : d.enter l "." = .ok l := by
  rcases directory_of_enter h with ⟨mark, hmark⟩
  simp [enter, hmark]

/-- A path names a location for writing when its last segment is a name, which is entered like any
other segment. -/
theorem target_eq_ok :
    d.target path = .ok l ↔ checkPath path = .ok () ∧ ∃ front name parent,
      Path.segments path = front ++ [name] ∧ (name ≠ "" ∧ name ≠ "." ∧ name ≠ "..") ∧
      d.walk (d.origin path) front = .ok parent ∧ d.enter parent name = .ok l := by
  rw [target, Except.bind_eq_ok]
  constructor
  · rintro ⟨⟨⟩, hcheck, h⟩
    refine ⟨hcheck, ?_⟩
    have hprefix : (Path.segments path).rdropWhile (fun s => decide (s = "")) <+: Path.segments path :=
      List.rdropWhile_prefix _ _
    have hlast := List.rdropWhile_last_not (fun s => decide (s = "")) (Path.segments path)
    simp only [← List.rdropWhile.eq_1] at h
    rcases List.eq_nil_or_concat
      ((Path.segments path).rdropWhile fun s => decide (s = "")) with hnamed | ⟨front, name, hnamed⟩
    · simp [hnamed] at h
    · rw [List.concat_eq_append] at hnamed
      simp only [hnamed] at h hprefix hlast
      have hname : name ≠ "" := by simpa using hlast (by simp)
      simp only [List.getLast?_concat, List.dropLast_concat] at h
      rcases Except.bind_eq_ok.mp h with ⟨parent, hwalk, h⟩
      rcases Except.bind_eq_ok.mp h with ⟨_, -, h⟩
      split at h
      · simp at h
      · next hwhole =>
        -- no segment was dropped, so the name is the last one
        simp only [not_or] at hwhole
        have hsegments := hprefix.eq_of_length_le (by omega)
        exact ⟨front, name, parent, hsegments.symm, ⟨hname, hwhole.2⟩, hwalk, h⟩
  · rintro ⟨hcheck, front, name, parent, hsegments, ⟨hname, hdot, hdots⟩, hwalk, henter⟩
    refine ⟨(), hcheck, ?_⟩
    have hnamed : ((front ++ [name]).reverse.dropWhile fun s => decide (s = "")).reverse
        = front ++ [name] := by simp [hname]
    simp only [hsegments, hnamed, List.getLast?_concat, List.dropLast_concat]
    rw [hwalk]
    change (d.enter parent "." >>= _) = _
    rw [enter_dot henter]
    simpa [hdot, hdots] using henter

theorem ne_nil_of_target (h : d.target path = .ok l) : l ≠ [] := by
  rcases target_eq_ok.mp h with ⟨-, front, name, parent, -, ⟨hname, hdot, hdots⟩, -, henter⟩
  rcases directory_of_enter henter with ⟨mark, hmark⟩
  unfold enter at henter
  simp only [hmark, hname, hdot, hdots, or_self, if_false] at henter
  split at henter
  · cases henter
  · cases henter
    simp

theorem locate_eq_ok {n : Node} :
    d.locate path = .ok (l, n) ↔ checkPath path = .ok () ∧
      d.walk (d.origin path) (Path.segments path) = .ok l ∧ d.node? l = some n := by
  rw [locate, Except.bind_eq_ok]
  constructor
  · rintro ⟨⟨⟩, hcheck, h⟩
    rcases Except.bind_eq_ok.mp h with ⟨l', hwalk, h⟩
    split at h
    · next n' hnode =>
      cases h
      exact ⟨hcheck, hwalk, hnode⟩
    · cases h
  · rintro ⟨hcheck, hwalk, hnode⟩
    refine ⟨(), hcheck, Except.bind_eq_ok.mpr ⟨l, hwalk, ?_⟩⟩
    simp [hnode, Except.pure_eq_ok]

theorem holds_iff {p : Node → Bool} :
    d.holds path p = true ↔ ∃ l n, d.locate path = .ok (l, n) ∧ p n = true := by
  unfold holds
  cases hlocate : d.locate path with
  | error refusal => simp
  | ok r => simp [Prod.ext_iff]

theorem holds_of_locate {p : Node → Bool} {n : Node} (h : d.locate path = .ok (l, n)) :
    d.holds path p = p n := by
  simp [holds, h]

theorem walk_of_target (h : d.target path = .ok l) :
    checkPath path = .ok () ∧ d.walk (d.origin path) (Path.segments path) = .ok l := by
  rcases target_eq_ok.mp h with ⟨hcheck, front, name, parent, hsegments, -, hwalk, henter⟩
  refine ⟨hcheck, ?_⟩
  rw [hsegments, walk, List.foldlM_append]
  refine Except.bind_eq_ok.mpr ⟨parent, hwalk, ?_⟩
  simpa using henter

theorem locate_of_target {n : Node} (h : d.target path = .ok l) (hnode : d.node? l = some n) :
    d.locate path = .ok (l, n) :=
  locate_eq_ok.mpr ⟨(walk_of_target h).1, (walk_of_target h).2, hnode⟩

theorem locate_of_target_of_none (h : d.target path = .ok l) (hnode : d.node? l = none) :
    d.locate path = .error .notFound := by
  rcases walk_of_target h with ⟨hcheck, hwalk⟩
  simp [locate, hcheck, hwalk, hnode]

theorem SameBesides.target_eq_ok (hsame : SameBesides l d d') (h : d.target path = .ok l') :
    d'.target path = .ok l' := by
  rcases Disk.target_eq_ok.mp h with ⟨hcheck, front, name, parent, hsegments, hname, hwalk, henter⟩
  refine Disk.target_eq_ok.mpr ⟨hcheck, front, name, parent, hsegments, hname, ?_, ?_⟩
  · rw [hsame.origin_eq]
    exact hsame.walk_eq_ok hwalk
  · exact hsame.enter_eq_ok henter

theorem SameBesides.locate_eq_ok {n : Node} (hsame : SameBesides l d d') (hne : l' ≠ l)
    (h : d.locate path = .ok (l', n)) : d'.locate path = .ok (l', n) := by
  rcases Disk.locate_eq_ok.mp h with ⟨hcheck, hwalk, hnode⟩
  refine Disk.locate_eq_ok.mpr ⟨hcheck, ?_, ?_⟩
  · rw [hsame.origin_eq]
    exact hsame.walk_eq_ok hwalk
  · rw [hsame.node? l' hne]
    exact hnode

def isMarked (d : Disk) (l : Location) : Bool := (d.node? l).any Node.isReadOnly

def Fileable (d : Disk) (l : Location) : Prop := ∀ n, d.node? l = some n → n.isFile

theorem Fileable.not_directory (h : d.Fileable l) (mark : Bool) : d.node? l ≠ some (.directory mark) := by
  intro hnode
  simpa [Node.isFile] using h _ hnode

theorem truncate_eq_ok :
    d.truncate l = .ok d' ↔ d.medium.opening l = none ∧
      ((∃ device, d.node? l = some (.device device) ∧ d = d') ∨
        (d.Fileable l ∧ d.put l (.file .empty (d.isMarked l)) = d')) := by
  unfold truncate Fileable isMarked
  cases hopening : d.medium.opening l with
  | some refusal => simp
  | none =>
    cases hnode : d.node? l with
    | none => simp
    | some n => cases n <;> simp [Node.isFile, Node.isReadOnly]

theorem store_eq_ok :
    d.store l text = .ok d' ↔ d.medium.storing l text = none ∧
      (∀ device, d.node? l ≠ some (.device device)) ∧
      d.put l (.file text.toUTF8 (d.isMarked l)) = d' := by
  unfold store isMarked
  cases hstoring : d.medium.storing l text with
  | some refusal => simp
  | none =>
    cases hnode : d.node? l with
    | none => simp
    | some n =>
      cases n with
      | device device => cases device <;> simp
      | directory mark => simp
      | file contents mark => simp

theorem create_eq_ok :
    d.create path = .ok (l, d') ↔ d.target path = .ok l ∧ d.truncate l = .ok d' := by
  rw [create, Except.bind_eq_ok]
  constructor
  · rintro ⟨l', htarget, h⟩
    rcases Except.bind_eq_ok.mp h with ⟨d'', htruncate, h⟩
    cases h
    exact ⟨htarget, htruncate⟩
  · rintro ⟨htarget, htruncate⟩
    exact ⟨l, htarget, Except.bind_eq_ok.mpr ⟨d', htruncate, rfl⟩⟩

theorem sameBesides_truncate (h : d.truncate l = .ok d') : SameBesides l d d' := by
  rcases truncate_eq_ok.mp h with ⟨-, ⟨device, hdevice, rfl⟩ | ⟨hfile, rfl⟩⟩
  · exact ⟨rfl, rfl, fun _ _ => rfl, by simp [hdevice], by simp [hdevice]⟩
  · exact .put hfile.not_directory nofun

/-- Removing what was opened takes the path away and nothing else. -/
theorem erase_of_create (h : d.create path = .ok (l, d')) :
    SameBesides l d (d'.erase l) ∧ (d'.erase l).locate path = .error .notFound := by
  rcases create_eq_ok.mp h with ⟨htarget, htruncate⟩
  have hopened := sameBesides_truncate htruncate
  have hl := ne_nil_of_target htarget
  have herase := hopened.trans (.erase hl hopened.after)
  refine ⟨herase, locate_of_target_of_none (herase.target_eq_ok htarget) ?_⟩
  rw [node?_erase d' l l hl, if_pos rfl]

/-- A write succeeds when the path names a place for a file and the medium takes the text. -/
theorem write_eq_ok :
    d.write path text = (.ok (), d') ↔ ∃ l, d.target path = .ok l ∧ d.Fileable l ∧
      d.medium.opening l = none ∧ d.medium.storing l text = none ∧
      d' = d.put l (.file text.toUTF8 (d.isMarked l)) := by
  have hput (l : Location) : (d.put l (.file .empty (d.isMarked l))).isMarked l = d.isMarked l := by
    simp [isMarked, Node.isReadOnly]
  constructor
  · intro h
    unfold write at h
    cases hcreate : d.create path with
    | error refusal => simp [hcreate] at h
    | ok r =>
      rcases r with ⟨l, opened⟩
      cases hstore : opened.store l text with
      | error refusal => simp [hcreate, hstore] at h
      | ok stored =>
        obtain rfl : stored = d' := by simpa [hcreate, hstore] using h
        rcases create_eq_ok.mp hcreate with ⟨htarget, htruncate⟩
        rcases store_eq_ok.mp hstore with ⟨hstoring, hdevice, rfl⟩
        rcases truncate_eq_ok.mp htruncate with ⟨hopening, ⟨device, hnode, rfl⟩ | ⟨hfile, rfl⟩⟩
        · exact absurd hnode (hdevice device)
        · refine ⟨l, htarget, hfile, hopening, hstoring, ?_⟩
          rw [hput, put_put]
  · rintro ⟨l, htarget, hfile, hopening, hstoring, rfl⟩
    have hcreate := create_eq_ok.mpr ⟨htarget, truncate_eq_ok.mpr ⟨hopening, .inr ⟨hfile, rfl⟩⟩⟩
    have hstore : (d.put l (.file .empty (d.isMarked l))).store l text
        = .ok (d.put l (.file text.toUTF8 (d.isMarked l))) := by
      rw [store_eq_ok, hput, put_put]
      exact ⟨hstoring, by simp, rfl⟩
    simp [write, hcreate, hstore]

theorem put_of_target {contents : ByteArray} {mark : Bool} (htarget : d.target path = .ok l)
    (hfile : d.Fileable l) :
    SameBesides l d (d.put l (.file contents mark)) ∧
      (d.put l (.file contents mark)).locate path = .ok (l, .file contents mark) := by
  have hput : SameBesides l d (d.put l (.file contents mark)) := .put hfile.not_directory nofun
  exact ⟨hput, locate_of_target (hput.target_eq_ok htarget) (node?_put_self d l _)⟩

theorem write_of_sound (text : String) (hsound : d.medium = .sound) (htarget : d.target path = .ok l)
    (hfile : d.Fileable l) :
    d.write path text = (.ok (), d.put l (.file text.toUTF8 (d.isMarked l))) := by
  refine write_eq_ok.mpr ⟨l, htarget, hfile, ?_, ?_, rfl⟩
  · rw [hsound]
    rfl
  · rw [hsound]
    rfl

theorem isDirectory_put {contents : ByteArray} {mark : Bool} (hfile : d.Fileable l)
    (h : d.isDirectory path = true) : (d.put l (.file contents mark)).isDirectory path = true := by
  rcases holds_iff.mp h with ⟨l', n, hlocate, hn⟩
  have hne : l' ≠ l := by
    rintro rfl
    have hn' := hfile n (locate_eq_ok.mp hlocate).2.2
    cases n <;> simp_all [Node.isDirectory, Node.isFile]
  have hput : SameBesides l d (d.put l (.file contents mark)) := .put hfile.not_directory nofun
  exact holds_iff.mpr ⟨l', n, hput.locate_eq_ok hne hlocate, hn⟩

theorem fromUTF8?_eq_some_iff {contents : ByteArray} :
    String.fromUTF8? contents = some text ↔ contents = text.toUTF8 := by
  unfold String.fromUTF8?
  constructor
  · intro h
    split at h
    · cases h
      rfl
    · cases h
  · rintro rfl
    exact dif_pos text.isValidUTF8

theorem openForReading_eq_ok {n : Node} :
    d.openForReading path = .ok (l, n) ↔
      d.locate path = .ok (l, n) ∧ ∀ refusal, d.medium.reading l ≠ some (.closed refusal) := by
  rw [openForReading, Except.bind_eq_ok]
  constructor
  · rintro ⟨⟨l', n'⟩, hlocate, hopened⟩
    cases hreading : d.medium.reading l' with
    | none =>
      obtain ⟨rfl, rfl⟩ : l' = l ∧ n' = n := by simpa [hreading, Except.pure_eq_ok] using hopened
      exact ⟨hlocate, by simp [hreading]⟩
    | some hindrance =>
      cases hindrance with
      | closed refusal => simp [hreading] at hopened
      | withheld refusal =>
        obtain ⟨rfl, rfl⟩ : l' = l ∧ n' = n := by simpa [hreading, Except.pure_eq_ok] using hopened
        exact ⟨hlocate, by simp [hreading]⟩
  · rintro ⟨hlocate, hclosed⟩
    refine ⟨(l, n), hlocate, ?_⟩
    cases hreading : d.medium.reading l with
    | none => simp [hreading, Except.pure_eq_ok]
    | some hindrance =>
      cases hindrance with
      | closed refusal => exact absurd hreading (hclosed refusal)
      | withheld refusal => simp [hreading, Except.pure_eq_ok]

/-- A path leads to something that yields the text, and the medium gives it. -/
def Yields (d : Disk) (path text : String) : Prop :=
  ∃ l n, d.locate path = .ok (l, n) ∧ d.medium.reading l = none ∧ n.Yields text

theorem read_eq_ok_iff : d.read path = .ok text ↔ d.Yields path text := by
  rw [read, Except.bind_eq_ok]
  constructor
  · rintro ⟨⟨l, n⟩, hopened, hread⟩
    refine ⟨l, n, (openForReading_eq_ok.mp hopened).1, ?_⟩
    cases hreading : d.medium.reading l with
    | some hindrance => cases hindrance <;> simp [hreading] at hread
    | none =>
      refine ⟨rfl, ?_⟩
      cases n with
      | directory readOnly => simp [hreading] at hread
      | device device =>
        cases device with
        | full => simp [hreading] at hread
        | null =>
          obtain rfl : "" = text := by simpa [hreading, Except.pure_eq_ok] using hread
          exact .null
      | file contents readOnly =>
        cases htext : String.fromUTF8? contents with
        | none => simp [hreading, htext] at hread
        | some found =>
          obtain rfl : found = text := by simpa [hreading, htext, Except.pure_eq_ok] using hread
          obtain rfl := fromUTF8?_eq_some_iff.mp htext
          exact .file found readOnly
  · rintro ⟨l, n, hlocate, hreading, htext⟩
    refine ⟨(l, n), openForReading_eq_ok.mpr ⟨hlocate, by simp [hreading]⟩, ?_⟩
    cases htext with
    | file text readOnly =>
      have hbytes : String.fromUTF8? text.toByteArray = some text := fromUTF8?_eq_some_iff.mpr rfl
      simp [hreading, hbytes, Except.pure_eq_ok]
    | null => simp [hreading, Except.pure_eq_ok]

/-- A file is read when the medium gives its contents and these are a text. -/
theorem read_eq_ok {contents : ByteArray} {mark : Bool}
    (h : d.locate path = .ok (l, .file contents mark)) :
    d.read path = .ok text ↔ d.medium.reading l = none ∧ contents = text.toUTF8 := by
  rw [read_eq_ok_iff]
  constructor
  · rintro ⟨l', n, hlocate, hreading, htext⟩
    cases h.symm.trans hlocate
    cases htext
    exact ⟨hreading, rfl⟩
  · rintro ⟨hreading, rfl⟩
    exact ⟨l, _, h, hreading, .file text mark⟩

/-- A write that fails changes nothing, or it could not store in what it had opened. -/
theorem write_eq_error {refusal : Refusal} (h : d.write path text = (.error refusal, d')) :
    (d.create path = .error refusal ∧ d' = d) ∨
    ∃ l opened, d.create path = .ok (l, opened) ∧ opened.store l text = .error refusal ∧
      d' = opened.erase l := by
  unfold write at h
  cases hcreate : d.create path with
  | error refusal' =>
    obtain ⟨rfl, rfl⟩ : refusal' = refusal ∧ d = d' := by simpa [hcreate] using h
    exact .inl ⟨rfl, rfl⟩
  | ok r =>
    rcases r with ⟨l, opened⟩
    cases hstore : opened.store l text with
    | ok stored => simp [hcreate, hstore] at h
    | error refusal' =>
      obtain ⟨rfl, rfl⟩ : refusal' = refusal ∧ opened.erase l = d' := by simpa [hcreate, hstore] using h
      exact .inr ⟨l, opened, rfl, hstore, rfl⟩

end Disk
end Autoescape.Storage
