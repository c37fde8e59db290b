import Autoescape.Proofs.Disk
import Autoescape.Proofs.Line

/-!
# The directory of a path

The directory that a path lies in is found on the text of the path, and what the path leads to is
found by a walk. `walk_directory_iff` says that the two agree wherever there is a directory.
-/
namespace Autoescape

namespace Text.Split

theorem pieces_eq_splitOn (separator : Char) (s : List Char) :
    pieces separator s = s.splitOn separator := by
  induction s with
  | nil => rfl
  | cons c rest ih =>
    have hprepend : ∀ l : List (List Char), l ≠ [] → prepend c l = l.modifyHead (List.cons c) := by
      intro l hl
      cases l with
      | nil => exact absurd rfl hl
      | cons piece later => rfl
    rw [pieces, List.splitOn_cons_eq_if_modifyHead, ← ih, hprepend _ (pieces_ne_nil separator rest)]
    simp

theorem separator_notMem {separator : Char} {s piece : List Char} (h : piece ∈ pieces separator s) :
    separator ∉ piece := by
  induction s generalizing piece with
  | nil => simp_all [pieces]
  | cons c rest ih =>
    rw [pieces] at h
    split at h
    · rcases List.mem_cons.mp h with rfl | h
      · exact List.not_mem_nil
      · exact ih h
    · next hc =>
      rcases mem_prepend h with rfl | h | ⟨tail, htail, rfl⟩
      · simpa using Ne.symm hc
      · exact ih h
      · simpa using ⟨Ne.symm hc, ih htail⟩

end Text.Split

namespace Storage.Path

variable {path : String}

theorem segments_ne_nil (path : String) : segments path ≠ [] := by
  simpa [segments] using Text.Split.pieces_ne_nil '/' path.toList

theorem slash_notMem (path : String) {s : String} (h : s ∈ segments path) : '/' ∉ s.toList := by
  rcases List.mem_map.mp h with ⟨piece, hpiece, rfl⟩
  rw [String.toList_ofList]
  exact Text.Split.separator_notMem hpiece

/-- Segments that are joined are cut at the same places again. -/
theorem segments_join {l : List String} (hne : l ≠ []) (h : ∀ s ∈ l, '/' ∉ s.toList) :
    segments (join l) = l := by
  have hcut : (join l).toList.splitOn '/' = l.map String.toList := by
    rw [join, String.toList_intercalate]
    exact List.splitOn_intercalate '/' (by simpa using h) (by simpa using hne)
  rw [segments, Text.Split.pieces_eq_splitOn, hcut, List.map_map]
  simp

theorem isAbsolute_iff :
    isAbsolute path = true ↔ ∃ first rest, segments path = "" :: first :: rest := by
  unfold isAbsolute segments
  cases htext : path.toList with
  | nil => simp [Text.Split.pieces]
  | cons c text =>
    rcases List.exists_cons_of_ne_nil (Text.Split.pieces_ne_nil '/' text) with ⟨first, rest, hpieces⟩
    by_cases hc : c = '/'
    · simp [Text.Split.pieces, hc, hpieces]
    · simp [Text.Split.pieces, hc, hpieces, Text.Split.prepend, ← String.toList_inj]

/-- The segments that lead elsewhere than to where they are entered from. -/
def moves (s : String) : Bool := s ≠ "" && s ≠ "."

theorem filter_withoutRests (l : List String) : (withoutRests l).filter moves = l.filter moves := by
  have hrests : (l.rtakeWhile fun s => s = "" ∨ s = ".").filter moves = [] := by
    rw [List.filter_eq_nil_iff]
    intro s hs
    have hrest := List.mem_rtakeWhile_imp hs
    simp only [decide_eq_true_eq] at hrest
    rcases hrest with rfl | rfl <;> decide
  conv_rhs => rw [← List.rdropWhile_append_rtakeWhile (l := l) (p := fun s => s = "" ∨ s = ".")]
  rw [List.filter_append, hrests, List.append_nil]
  rfl

theorem withoutRests_concat {name : String} (l : List String) (hname : moves name = true) :
    withoutRests (l ++ [name]) = l ++ [name] := by
  apply List.rdropWhile_concat_neg
  simpa [moves] using hname

theorem dropName_concat {name : String} (l : List String) (hname : moves name = true) :
    dropName (l ++ [name]) = withoutRests l := by
  rw [dropName, withoutRests_concat l hname, List.dropLast_concat]

theorem filter_segments_join {l : List String} (h : ∀ s ∈ l, '/' ∉ s.toList) :
    (segments (join (withoutRests l))).filter moves = l.filter moves := by
  rw [← filter_withoutRests l]
  by_cases hnil : withoutRests l = []
  · rw [hnil]
    decide
  · have hfront : withoutRests l <+: l := List.rdropWhile_prefix _ _
    rw [segments_join hnil fun s hs => h s (hfront.subset hs)]

theorem segments_slash (s : String) : segments ("/" ++ s) = "" :: segments s := by
  simp [segments, Text.Split.pieces]

theorem segments_dot_slash (s : String) : segments ("./" ++ s) = "." :: segments s := by
  simp [segments, Text.Split.pieces, Text.Split.prepend]

theorem not_isAbsolute {first : String} {rest : List String} (h : segments path = first :: rest)
    (hne : first ≠ "") : isAbsolute path = false := by
  rw [Bool.eq_false_iff, ne_eq, isAbsolute_iff, h]
  simp [hne]

/-- A path that takes the moves of some segments, from the origin of another path. -/
structure Follows (followed path : String) (front : List String) : Prop where
  origin : isAbsolute path = isAbsolute followed
  moves : (segments path).filter moves = front.filter moves

section Directory

variable {first name : String} {front : List String} (hname : moves name = true)
include hname

theorem withoutRests_concat_ne_nil : withoutRests (front ++ [name]) ≠ [] := by
  simp [withoutRests_concat front hname]

theorem follows_of_name (h : segments path = [name]) : Follows path (directory path) [] := by
  have hne : name ≠ "" ∧ name ≠ "." := by simpa [Path.moves] using hname
  have hdrop : dropName [name] = [] := dropName_concat [] hname
  have hdirectory : directory path = "." := by simp [directory, parent?, h, hne, hdrop, join]
  rw [hdirectory]
  exact ⟨by rw [not_isAbsolute h hne.1]; decide, by decide⟩

theorem follows_of_slash (h : segments path = "" :: (front ++ [name])) :
    Follows path (directory path) ("" :: front) := by
  have hdirectory : directory path = "/" ++ join (withoutRests front) := by
    simp [directory, parent?, h, withoutRests_concat_ne_nil hname, dropName_concat front hname]
  have hslash : ∀ s ∈ front, '/' ∉ s.toList := by
    intro s hs
    exact slash_notMem path (by simp [h, hs])
  have habsolute : isAbsolute path = true := by
    rcases List.exists_cons_of_ne_nil (List.append_ne_nil_of_right_ne_nil front (List.cons_ne_nil name []))
      with
      ⟨second, rest, hcons⟩
    exact isAbsolute_iff.mpr ⟨second, rest, by rw [h, hcons]⟩
  rw [hdirectory]
  refine ⟨?_, ?_⟩
  · rw [habsolute]
    simp [isAbsolute]
  · rw [segments_slash]
    exact filter_segments_join hslash

theorem follows_of_dot (h : segments path = "." :: (front ++ [name])) :
    Follows path (directory path) ("." :: front) := by
  have hslash : ∀ s ∈ front, '/' ∉ s.toList := by
    intro s hs
    exact slash_notMem path (by simp [h, hs])
  have habsolute : isAbsolute path = false := not_isAbsolute h (by decide)
  by_cases hnil : withoutRests front = []
  · have hdirectory : directory path = "." := by
      simp [directory, parent?, h, withoutRests_concat_ne_nil hname, dropName_concat front hname, hnil]
    have hstay : ("." :: front).filter Path.moves = [] := by
      rw [List.filter_cons_of_neg (by decide), ← filter_withoutRests, hnil, List.filter_nil]
    rw [hdirectory]
    exact ⟨by rw [habsolute]; decide, hstay.symm⟩
  · have hdirectory : directory path = "./" ++ join (withoutRests front) := by
      simp [directory, parent?, h, withoutRests_concat_ne_nil hname, dropName_concat front hname]
    rw [hdirectory]
    refine ⟨?_, ?_⟩
    · rw [habsolute, not_isAbsolute (segments_dot_slash _) (by decide)]
    · rw [segments_dot_slash]
      exact filter_segments_join hslash

theorem follows_of_moves (hfirst : moves first = true) (h : segments path = first :: (front ++ [name])) :
    Follows path (directory path) (first :: front) := by
  have hne : first ≠ "" ∧ first ≠ "." := by simpa [Path.moves] using hfirst
  have hslash : ∀ s ∈ first :: front, '/' ∉ s.toList := by
    intro s hs
    exact slash_notMem path (by rw [h, ← List.cons_append]; exact List.mem_append_left _ hs)
  -- the first segment moves, so it is still there when the rests are dropped
  have hkept : ∃ rest, withoutRests (first :: front) = first :: rest := by
    have hfront : withoutRests (first :: front) <+: first :: front := List.rdropWhile_prefix _ _
    have hnil : withoutRests (first :: front) ≠ [] := by
      intro hnil
      have hrest := List.rdropWhile_eq_nil_iff.mp hnil first List.mem_cons_self
      simp [hne] at hrest
    rcases List.exists_cons_of_ne_nil hnil with ⟨head, rest, hcons⟩
    rw [hcons, List.cons_prefix_cons] at hfront
    exact ⟨rest, by rw [hcons, hfront.1]⟩
  rcases hkept with ⟨rest, hkept⟩
  have hsegments : segments (join (withoutRests (first :: front))) = first :: rest := by
    rw [hkept]
    refine segments_join (by simp) fun s hs => hslash s ?_
    exact (List.rdropWhile_prefix _ _).subset (hkept ▸ hs)
  have hdirectory : directory path = join (withoutRests (first :: front)) := by
    have hjoin : join (withoutRests (first :: front)) ≠ "" := by
      intro hjoin
      rw [hjoin, show segments "" = [""] from rfl, List.cons.injEq] at hsegments
      exact hne.1 hsegments.1.symm
    have hdrop := dropName_concat (first :: front) hname
    rw [List.cons_append] at hdrop
    simp [directory, parent?, h, hne, hdrop, hjoin]
  rw [hdirectory]
  refine ⟨?_, filter_segments_join hslash⟩
  rw [not_isAbsolute h hne.1, not_isAbsolute hsegments hne.1]

end Directory

theorem follows_directory {front : List String} {name : String} (h : segments path = front ++ [name])
    (hname : moves name = true) : Follows path (directory path) front := by
  cases front with
  | nil => exact follows_of_name hname h
  | cons first front =>
    by_cases hempty : first = ""
    · subst hempty
      exact follows_of_slash hname h
    · by_cases hdot : first = "."
      · subst hdot
        exact follows_of_dot hname h
      · exact follows_of_moves hname (by simp [moves, hempty, hdot]) h

end Storage.Path

namespace Storage.Disk

variable {d : Disk} {l l' from_ : Location} {mark : Bool} {segment : String} {segments : List String}

theorem walk_cons_eq_ok : d.walk from_ (segment :: segments) = .ok l ↔
    ∃ next, d.enter from_ segment = .ok next ∧ d.walk next segments = .ok l := by
  rw [walk, List.foldlM_cons, Except.bind_eq_ok]
  rfl

theorem enter_eq_ok_of_not_moves (h : ¬Path.moves segment = true) :
    d.enter l segment = .ok l' ↔ l = l' ∧ ∃ mark, d.node? l = some (.directory mark) := by
  have hrest : segment = "" ∨ segment = "." := by
    simpa [Path.moves, or_iff_not_imp_left] using h
  unfold enter
  split
  · next hnode => simp [hnode]
  · next hnode => simp [hnode, hrest]
  · next n hdirectory hnode =>
    rw [hnode]
    simp only [reduceCtorEq, Option.some.injEq, false_iff, not_and, not_exists]
    exact fun _ mark heq => hdirectory mark heq

theorem directory_of_walk (hl : d.node? l = some (.directory mark))
    (h : d.walk from_ segments = .ok l) : ∃ mark, d.node? from_ = some (.directory mark) := by
  cases segments with
  | nil =>
    obtain rfl : from_ = l := by simpa [walk, Except.pure_eq_ok] using h
    exact ⟨mark, hl⟩
  | cons segment segments =>
    rcases walk_cons_eq_ok.mp h with ⟨next, henter, -⟩
    exact directory_of_enter henter

/-- Segments that do not move only ask for a directory, and at the end there is one. -/
theorem walk_filter_iff (hl : d.node? l = some (.directory mark)) :
    d.walk from_ (segments.filter Path.moves) = .ok l ↔ d.walk from_ segments = .ok l := by
  induction segments generalizing from_ with
  | nil => rfl
  | cons segment segments ih =>
    by_cases hmoves : Path.moves segment = true
    · simp only [List.filter_cons_of_pos hmoves, walk_cons_eq_ok, ih]
    · rw [List.filter_cons_of_neg hmoves, walk_cons_eq_ok, ih]
      simp only [enter_eq_ok_of_not_moves hmoves]
      constructor
      · intro hwalk
        exact ⟨from_, ⟨rfl, directory_of_walk hl hwalk⟩, hwalk⟩
      · rintro ⟨_, ⟨rfl, -⟩, hwalk⟩
        exact hwalk

/-- The directory of a path is where the path leads to without its name. -/
theorem walk_directory_iff {path name : String} {front : List String}
    (h : Path.segments path = front ++ [name]) (hname : Path.moves name = true)
    (hl : d.node? l = some (.directory mark)) :
    d.walk (d.origin (Path.directory path)) (Path.segments (Path.directory path)) = .ok l ↔
      d.walk (d.origin path) front = .ok l := by
  have hfollows := Path.follows_directory h hname
  have horigin : d.origin (Path.directory path) = d.origin path := by
    rw [origin, origin, hfollows.origin]
  rw [horigin, ← walk_filter_iff hl, hfollows.moves, walk_filter_iff hl]

end Storage.Disk
end Autoescape
