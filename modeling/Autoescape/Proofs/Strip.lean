import Autoescape.Proofs.Line
import Autoescape.Source.Strip

/-!
# A block that is written is found again

The lines kept outside blocks hold no start marker, and what is written behind them is a separator
and a block. So a second reading keeps the same lines: the block goes, and the separator with it.
-/
namespace Autoescape.Text.Blank

theorem trim_concat {c : Char} (h : isBlank c) (s : List Char) : trim (s ++ [c]) = trim s := by
  unfold trim
  rw [List.dropWhile_append]
  cases hs : s.dropWhile isBlank with
  | nil => simp [h]
  | cons d rest => simp [h]

/-- White space at the end of a line is trimmed, so also a carriage return that ends it. -/
theorem trim_withoutReturn (line : List Char) : trim (Line.withoutReturn line) = trim line := by
  unfold Line.withoutReturn
  split
  · next h =>
    obtain ⟨front, rfl⟩ := List.getLast?_eq_some_iff.mp h
    rw [List.dropLast_concat, trim_concat (by decide)]
  · rfl

end Autoescape.Text.Blank

namespace Autoescape.Source
open Text

theorem isMarker_withoutReturn (marker : String) (line : List Char) :
    isMarker marker (Line.withoutReturn line) = isMarker marker line := by
  rw [isMarker, isMarker, Blank.trim_withoutReturn]

theorem not_isMarker_map_withoutReturn {marker : String} {ls : List (List Char)}
    (h : ∀ line ∈ ls, ¬isMarker marker line) : ∀ line ∈ ls.map Line.withoutReturn, ¬isMarker marker line := by
  intro line hline
  obtain ⟨l, hl, rfl⟩ := List.mem_map.mp hline
  rw [isMarker_withoutReturn]
  exact h l hl

namespace Scan

theorem run_append (s : Scan) (ls ls' : List (List Char)) : s.run (ls ++ ls') = (s.run ls).run ls' :=
  List.foldl_append

theorem run_cons (s : Scan) (line : List Char) (ls : List (List Char)) :
    s.run (line :: ls) = (s.step line).run ls := rfl

theorem step_outside {kept : List (List Char)} {line : List Char}
    (h : ¬isMarker Block.startMarker line) : step ⟨kept, false⟩ line = ⟨line :: kept, false⟩ := by
  simp [step, h]

theorem step_start {kept : List (List Char)} {line : List Char}
    (h : isMarker Block.startMarker line) : step ⟨kept, false⟩ line = ⟨dropSeparator kept, true⟩ := by
  simp [step, h]

theorem step_inside {kept : List (List Char)} {line : List Char} :
    step ⟨kept, true⟩ line = ⟨kept, !isMarker Block.endMarker line⟩ := by
  simp [step]

theorem run_outside {ls : List (List Char)} (h : ∀ line ∈ ls, ¬isMarker Block.startMarker line)
    (kept : List (List Char)) : run ⟨kept, false⟩ ls = ⟨ls.reverse ++ kept, false⟩ := by
  induction ls generalizing kept with
  | nil => rfl
  | cons line ls ih =>
    rw [run_cons, step_outside (h line List.mem_cons_self),
      ih fun l hl => h l (List.mem_cons_of_mem line hl)]
    simp

theorem run_inside {ls : List (List Char)} (h : ∀ line ∈ ls, ¬isMarker Block.endMarker line)
    (kept : List (List Char)) : run ⟨kept, true⟩ ls = ⟨kept, true⟩ := by
  induction ls with
  | nil => rfl
  | cons line ls ih =>
    have hline : isMarker Block.endMarker line = false := by simpa using h line List.mem_cons_self
    rw [run_cons, step_inside, hline]
    exact ih fun l hl => h l (List.mem_cons_of_mem line hl)

/-- Of a block that ends nothing is left but the lines before it, without a separator. -/
theorem run_block {first last : List Char} {inner : List (List Char)}
    (hfirst : isMarker Block.startMarker first) (hinner : ∀ line ∈ inner, ¬isMarker Block.endMarker line)
    (hlast : isMarker Block.endMarker last) (kept ls : List (List Char)) :
    run ⟨kept, false⟩ (first :: (inner ++ last :: ls)) = run ⟨dropSeparator kept, false⟩ ls := by
  rw [run_cons, step_start hfirst, run_append, run_inside hinner, run_cons, step_inside, hlast]
  rfl

theorem run_unended {first : List Char} {inner : List (List Char)}
    (hfirst : isMarker Block.startMarker first) (hinner : ∀ line ∈ inner, ¬isMarker Block.endMarker line)
    (kept : List (List Char)) : run ⟨kept, false⟩ (first :: inner) = ⟨dropSeparator kept, true⟩ := by
  rw [run_cons, step_start hfirst, run_inside hinner]

theorem mem_dropSeparator {kept : List (List Char)} {line : List Char}
    (h : line ∈ dropSeparator kept) : line ∈ kept := by
  cases kept with
  | nil => exact h
  | cons last rest =>
    rw [dropSeparator] at h
    by_cases hblank : Blank.isBlankText last
    · rw [if_pos hblank] at h
      exact List.mem_cons_of_mem last h
    · rwa [if_neg hblank] at h

theorem mem_kept_step {s : Scan} {line l : List Char} (h : l ∈ (s.step line).kept) :
    l ∈ s.kept ∨ (l = line ∧ ¬isMarker Block.startMarker l) := by
  rcases s with ⟨kept, inBlock⟩
  cases inBlock with
  | true =>
    left
    rwa [step_inside] at h
  | false =>
    by_cases hstart : isMarker Block.startMarker line
    · rw [step_start hstart] at h
      exact .inl (mem_dropSeparator h)
    · rw [step_outside hstart, List.mem_cons] at h
      rcases h with rfl | h
      · exact .inr ⟨rfl, hstart⟩
      · exact .inl h

theorem mem_kept_run {s : Scan} {ls : List (List Char)} {l : List Char} (h : l ∈ (s.run ls).kept) :
    l ∈ s.kept ∨ (l ∈ ls ∧ ¬isMarker Block.startMarker l) := by
  induction ls generalizing s with
  | nil => exact .inl h
  | cons line ls ih =>
    rw [run_cons] at h
    rcases ih h with h | ⟨h, hstart⟩
    · rcases mem_kept_step h with h | ⟨rfl, hstart⟩
      · exact .inl h
      · exact .inr ⟨List.mem_cons_self, hstart⟩
    · exact .inr ⟨List.mem_cons_of_mem line h, hstart⟩

end Scan

theorem mem_keptLines {source : String} {line : List Char} (h : line ∈ keptLines source) :
    line ∈ Line.lines source.toList ∧ ¬isMarker Block.startMarker line := by
  rcases Scan.mem_kept_run (List.mem_reverse.mp h) with h | h
  · exact absurd h (by simp [Scan.start])
  · exact h

/-- A text that is one block: the marker lines, and between them no end marker. -/
def IsBlock (block : String) : Prop :=
  ∃ inner : List (List Char), (∀ line ∈ inner, Line.Whole line ∧ ¬isMarker Block.endMarker line) ∧
    block.toList = Line.text (Block.startMarker.toList :: (inner ++ [Block.endMarker.toList]))

/-- No line of a text ends in a carriage return, once its end is taken away. -/
def Clean (source : String) : Prop :=
  ∀ line ∈ Line.lines source.toList, line.getLast? ≠ some '\r'

theorem Clean.whole {source : String} (h : Clean source) {line : List Char}
    (hline : line ∈ Line.lines source.toList) : Line.Whole line :=
  ⟨Line.newline_notMem_of_mem_lines hline, h line hline⟩

/-- The lines ahead of a block: what is kept of every source, and a blank line behind it. -/
def ahead (sources : List String) : List (List Char) :=
  sources.flatMap fun source => keptLines source ++ [[]]

theorem ahead_cons (source : String) (rest : List String) :
    ahead (source :: rest) = (keptLines source ++ [[]]) ++ ahead rest := List.flatMap_cons

theorem withBlock_toList (sources : List String) (block : String) :
    (withBlock sources block).toList = Line.text (ahead sources) ++ block.toList := by
  rw [withBlock, String.toList_append]
  congr 1
  induction sources with
  | nil => rfl
  | cons source rest ih =>
    rw [List.map_cons, String.join_cons, String.toList_append, ih, ahead_cons, Line.text_append,
      Line.text_append]
    simp [strip, Line.text]

theorem whole_of_mem_ahead {sources : List String} (hclean : ∀ source ∈ sources, Clean source)
    {line : List Char} (h : line ∈ ahead sources) : Line.Whole line := by
  rcases List.mem_flatMap.mp h with ⟨source, hsource, hline⟩
  rcases List.mem_append.mp hline with hkept | hblank
  · exact (hclean source hsource).whole (mem_keptLines hkept).1
  · obtain rfl : line = [] := by simpa using hblank
    exact ⟨by simp, by simp⟩

theorem not_start_of_mem_ahead {sources : List String} {line : List Char} (h : line ∈ ahead sources) :
    ¬isMarker Block.startMarker line := by
  rcases List.mem_flatMap.mp h with ⟨source, hsource, hline⟩
  rcases List.mem_append.mp hline with hkept | hblank
  · exact (mem_keptLines hkept).2
  · obtain rfl : line = [] := by simpa using hblank
    decide

/-- Every line ahead of a block is kept when the text is read again, up to the separator. -/
theorem keptLines_withBlock {sources : List String} {block : String} {front : List (List Char)}
    (hclean : ∀ source ∈ sources, Clean source) (hblock : IsBlock block)
    (hfront : ahead sources = front ++ [[]]) : keptLines (withBlock sources block) = front := by
  rcases hblock with ⟨inner, hinner, htext⟩
  have hmarkers : Line.Whole Block.startMarker.toList ∧ Line.Whole Block.endMarker.toList :=
    ⟨⟨by decide, by decide⟩, by decide, by decide⟩
  have hwhole : ∀ line ∈ ahead sources ++ Block.startMarker.toList :: (inner ++ [Block.endMarker.toList]),
      Line.Whole line := by
    simp only [List.mem_append, List.mem_cons, List.not_mem_nil, or_false]
    rintro line (h | rfl | h | rfl)
    · exact whole_of_mem_ahead hclean h
    · exact hmarkers.1
    · exact (hinner line h).1
    · exact hmarkers.2
  -- no line loses anything when it is read back, so the scan sees the lines that were written
  have hlines : Line.lines (withBlock sources block).toList
      = ahead sources ++ Block.startMarker.toList :: (inner ++ [Block.endMarker.toList]) := by
    rw [withBlock_toList, htext, ← Line.text_append, Line.lines_text hwhole]
  -- the start marker drops the separator in front of it, the rest of the block leaves no trace
  have hahead : Scan.start.run (ahead sources) = ⟨[] :: front.reverse, false⟩ := by
    rw [Scan.start, Scan.run_outside fun line => not_start_of_mem_ahead, hfront]
    simp
  rw [keptLines, hlines, Scan.run_append, hahead,
    Scan.run_block (by decide) (fun line h => (hinner line h).2) (by decide)]
  simp [Scan.run, dropSeparator, Blank.isBlankText]

/-- Sources with a block read as one source give, with another block, what they give themselves. -/
theorem withBlock_withBlock {sources : List String} {block : String} (hne : sources ≠ [])
    (hclean : ∀ source ∈ sources, Clean source) (hblock : IsBlock block) (next : String) :
    withBlock [withBlock sources block] next = withBlock sources next := by
  have hfront : ∃ front, ahead sources = front ++ [[]] := by
    rcases List.eq_nil_or_concat sources with hnil | ⟨rest, last, hlast⟩
    · exact absurd hnil hne
    · refine ⟨ahead rest ++ keptLines last, ?_⟩
      simp [hlast, ahead]
  rcases hfront with ⟨front, hfront⟩
  rw [String.ext_iff, withBlock_toList, withBlock_toList, hfront, ahead,
    List.flatMap_singleton, keptLines_withBlock hclean hblock hfront]

end Autoescape.Source
