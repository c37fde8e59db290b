import Autoescape.Text.Line
import Mathlib.Data.List.Basic

/-!
# Lines read back

A line that could be read from a text holds no line feed. Once it is written and ended by a line feed,
it is read back without a carriage return at its end, so as it is if it ends in none.
-/
namespace Autoescape.Text

theorem Split.mem_prepend {c : Char} {l : List (List Char)} {piece : List Char}
    (h : piece ∈ Split.prepend c l) : piece = [c] ∨ piece ∈ l ∨ ∃ p ∈ l, piece = c :: p := by
  cases l with
  | nil =>
    left
    simpa [prepend] using h
  | cons p rest =>
    rw [prepend, List.mem_cons] at h
    rcases h with rfl | h
    · exact .inr (.inr ⟨p, List.mem_cons_self, rfl⟩)
    · exact .inr (.inl (List.mem_cons_of_mem p h))

namespace Line

structure Whole (line : List Char) : Prop where
  noFeed : '\n' ∉ line
  noReturn : line.getLast? ≠ some '\r'

theorem newline_notMem_of_mem_lines {s line : List Char} (h : line ∈ lines s) : '\n' ∉ line := by
  induction s generalizing line with
  | nil => simp [lines] at h
  | cons c rest ih =>
    unfold lines at h
    split at h
    · rw [List.mem_cons] at h
      rcases h with rfl | h
      · simp
      · exact ih h
    · next hc =>
      split at h
      · exact ih h
      · rcases Split.mem_prepend h with rfl | h | ⟨p, hp, rfl⟩
        · simpa using Ne.symm hc
        · exact ih h
        · simpa using ⟨Ne.symm hc, ih hp⟩

theorem text_append (ls ls' : List (List Char)) : text (ls ++ ls') = text ls ++ text ls' := by
  simp [text]

theorem text_cons (line : List Char) (ls : List (List Char)) :
    text (line :: ls) = line ++ '\n' :: text ls := by
  simp [text]

theorem splitOn_text {ls : List (List Char)} (h : ∀ line ∈ ls, '\n' ∉ line) :
    (text ls).splitOn '\n' = ls ++ [[]] := by
  induction ls with
  | nil => rfl
  | cons line ls ih =>
    obtain ⟨hline, hls⟩ := List.forall_mem_cons.mp h
    rw [text_cons, List.splitOn_append_cons_self_of_not_mem hline, ih hls, List.cons_append]

/-- Lines without line feeds can be told from their text. -/
theorem text_inj {ls ls' : List (List Char)} (h : ∀ line ∈ ls, '\n' ∉ line)
    (h' : ∀ line ∈ ls', '\n' ∉ line) : text ls = text ls' ↔ ls = ls' := by
  refine ⟨fun heq => ?_, congrArg text⟩
  have hsplit : ls ++ [[]] = ls' ++ [[]] := by rw [← splitOn_text h, heq, splitOn_text h']
  exact List.append_cancel_right hsplit

/-- A line as it is read back: a carriage return at its end counts as a part of the line's end. -/
def withoutReturn (line : List Char) : List Char :=
  if line.getLast? = some '\r' then line.dropLast else line

theorem withoutReturn_eq_self_iff {line : List Char} :
    withoutReturn line = line ↔ line.getLast? ≠ some '\r' := by
  unfold withoutReturn
  split
  · next h =>
    obtain ⟨front, rfl⟩ := List.getLast?_eq_some_iff.mp h
    exact iff_of_false (by simp) (not_not_intro h)
  · next h => exact iff_of_true rfl h

theorem map_withoutReturn_eq_self_iff {ls : List (List Char)} :
    ls.map withoutReturn = ls ↔ ∀ line ∈ ls, line.getLast? ≠ some '\r' := by
  have hmap := List.map_inj_left (l := ls) (f := withoutReturn) (g := id)
  rw [List.map_id] at hmap
  rw [hmap]
  exact forall₂_congr fun line _ => withoutReturn_eq_self_iff

theorem withoutReturn_cons {c : Char} {rest : List Char} (h : ¬(c = '\r' ∧ rest = [])) :
    withoutReturn (c :: rest) = c :: withoutReturn rest := by
  cases rest with
  | nil => simpa [withoutReturn] using h
  | cons d rest =>
    simp only [withoutReturn, List.getLast?_cons_cons, List.dropLast_cons_cons]
    split <;> rfl

theorem lines_append_newline {line : List Char} (h : '\n' ∉ line) (s : List Char) :
    lines (line ++ '\n' :: s) = withoutReturn line :: lines s := by
  induction line with
  | nil => rfl
  | cons c rest ih =>
    obtain ⟨hc, hrest⟩ : '\n' ≠ c ∧ '\n' ∉ rest := by simpa using h
    rw [List.cons_append, lines, if_neg (Ne.symm hc), ih hrest]
    by_cases hlast : c = '\r' ∧ rest = []
    · obtain ⟨rfl, rfl⟩ := hlast
      rfl
    · -- the line feed that ends the line is no part of what follows a carriage return inside it
      have hinside : ¬(c = '\r' ∧ (rest ++ '\n' :: s).head? = some '\n') := by
        rintro ⟨rfl, hhead⟩
        cases rest with
        | nil => exact hlast ⟨rfl, rfl⟩
        | cons d rest =>
          obtain rfl : d = '\n' := by simpa using hhead
          exact hrest List.mem_cons_self
      rw [if_neg hinside, Split.prepend, withoutReturn_cons hlast]

theorem lines_text_append {ls : List (List Char)} (h : ∀ line ∈ ls, '\n' ∉ line) (s : List Char) :
    lines (text ls ++ s) = ls.map withoutReturn ++ lines s := by
  induction ls with
  | nil => rfl
  | cons line ls ih =>
    obtain ⟨hline, hls⟩ := List.forall_mem_cons.mp h
    rw [text_cons, List.append_assoc, List.cons_append, lines_append_newline hline, ih hls,
      List.map_cons, List.cons_append]

/-- Written lines are read back, each without a carriage return at its end. -/
theorem lines_text_eq_map {ls : List (List Char)} (h : ∀ line ∈ ls, '\n' ∉ line) :
    lines (text ls) = ls.map withoutReturn := by
  simpa [lines] using lines_text_append h []

theorem return_newline_infix_iff {line : List Char} (h : '\n' ∉ line) (s : List Char) :
    ['\r', '\n'] <:+: line ++ '\n' :: s ↔ line.getLast? = some '\r' ∨ ['\r', '\n'] <:+: s := by
  induction line with
  | nil => simp [List.infix_cons_iff]
  | cons c rest ih =>
    obtain ⟨hc, hrest⟩ : '\n' ≠ c ∧ '\n' ∉ rest := by simpa using h
    rw [List.cons_append, List.infix_cons_iff, ih hrest, ← or_assoc]
    refine or_congr_left ?_
    cases rest with
    | nil => simp [eq_comm]
    | cons d rest =>
      have hd : '\n' ≠ d := fun heq => hrest (heq ▸ List.mem_cons_self)
      simp [hd]

/-- In written lines, a carriage return stands before a line feed where a line ends in one. -/
theorem return_newline_infix_text_iff {ls : List (List Char)} (h : ∀ line ∈ ls, '\n' ∉ line) :
    ['\r', '\n'] <:+: text ls ↔ ∃ line ∈ ls, line.getLast? = some '\r' := by
  induction ls with
  | nil => simp [text]
  | cons line ls ih =>
    obtain ⟨hline, hls⟩ := List.forall_mem_cons.mp h
    rw [text_cons, return_newline_infix_iff hline, ih hls, List.exists_mem_cons_iff]

theorem lines_text {ls : List (List Char)} (h : ∀ line ∈ ls, Whole line) : lines (text ls) = ls := by
  rw [lines_text_eq_map fun line hline => (h line hline).noFeed]
  exact map_withoutReturn_eq_self_iff.mpr fun line hline => (h line hline).noReturn

end Line
end Autoescape.Text
