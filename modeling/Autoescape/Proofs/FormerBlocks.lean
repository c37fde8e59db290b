import Autoescape.Proofs.Blocks

/-!
# Blocks from before leave no trace

Stripping carries two things past a block: the lines kept before it, and that the block is over. So what
stood in the block cannot show, whether it was ended or the text ended first. All that a block takes from
outside is a blank line at the end of what was kept.
-/
namespace Autoescape.Source
open Text

/-- A text of whole lines, at whose end no block is open. -/
structure Settled (front : String) : Prop where
  whole : ∃ ls, (∀ line ∈ ls, '\n' ∉ line) ∧ front.toList = Line.text ls
  outside : (Scan.start.run (Line.lines front.toList)).inBlock = false

/-- The lines of a block that a source may hold. White space may surround its markers, and anything but
an end marker may stand between them, start markers and blank lines too. -/
structure FormerBlock where
  first : List Char
  inner : List (List Char)
  last : List Char
  isStart : isMarker Block.startMarker first
  noEnd : ∀ line ∈ inner, ¬isMarker Block.endMarker line
  isEnd : isMarker Block.endMarker last
  noFeed : ∀ line ∈ first :: (inner ++ [last]), '\n' ∉ line

def FormerBlock.text (b : FormerBlock) : String := String.ofList (Line.text (b.first :: (b.inner ++ [b.last])))

/-- A text that is a block which does not end: a start marker and lines of which none is an end marker.
There may be none, and the last one need not be ended. -/
structure UnendedBlock where
  text : String
  first : List Char
  inner : List (List Char)
  lines_eq : Line.lines text.toList = first :: inner
  isStart : isMarker Block.startMarker first
  noEnd : ∀ line ∈ inner, ¬isMarker Block.endMarker line

def UnendedBlock.ofLines (first : List Char) (inner : List (List Char))
    (isStart : isMarker Block.startMarker first) (noEnd : ∀ line ∈ inner, ¬isMarker Block.endMarker line)
    (noFeed : ∀ line ∈ first :: inner, '\n' ∉ line) : UnendedBlock where
  text := String.ofList (Line.text (first :: inner))
  first := Line.withoutReturn first
  inner := inner.map Line.withoutReturn
  lines_eq := by rw [String.toList_ofList, Line.lines_text_eq_map noFeed, List.map_cons]
  isStart := by rwa [isMarker_withoutReturn]
  noEnd := not_isMarker_map_withoutReturn noEnd

theorem FormerBlock.run_lines (b : FormerBlock) (kept : List (List Char)) (back : List Char) :
    Scan.run ⟨kept, false⟩ (Line.lines (b.text.toList ++ back)) =
      Scan.run ⟨dropSeparator kept, false⟩ (Line.lines back) := by
  have hfirst : isMarker Block.startMarker (Line.withoutReturn b.first) := by
    rw [isMarker_withoutReturn]
    exact b.isStart
  have hlast : isMarker Block.endMarker (Line.withoutReturn b.last) := by
    rw [isMarker_withoutReturn]
    exact b.isEnd
  rw [text, String.toList_ofList, Line.lines_text_append b.noFeed, List.map_cons, List.map_append,
    List.map_singleton, List.cons_append, List.append_assoc, List.singleton_append]
  exact Scan.run_block hfirst (not_isMarker_map_withoutReturn b.noEnd) hlast kept _

section Settled

variable {front : String}

theorem Settled.lines_append (h : Settled front) (s : List Char) :
    Line.lines (front.toList ++ s) = Line.lines front.toList ++ Line.lines s := by
  obtain ⟨ls, hfeed, hls⟩ := h.whole
  rw [hls, Line.lines_text_append hfeed, Line.lines_text_eq_map hfeed]

theorem Settled.run_lines_append (h : Settled front) (s : List Char) :
    Scan.start.run (Line.lines (front.toList ++ s)) =
      Scan.run ⟨(keptLines front).reverse, false⟩ (Line.lines s) := by
  have hstate : Scan.start.run (Line.lines front.toList) = ⟨(keptLines front).reverse, false⟩ := by
    rw [keptLines, List.reverse_reverse, ← h.outside]
  rw [h.lines_append, Scan.run_append, hstate]

theorem Settled.keptLines_append_block (h : Settled front) (b : FormerBlock) (back : String) :
    keptLines (front ++ b.text ++ back) =
      (Scan.run ⟨dropSeparator (keptLines front).reverse, false⟩ (Line.lines back.toList)).kept.reverse := by
  rw [keptLines, String.toList_append, String.toList_append, List.append_assoc, h.run_lines_append,
    b.run_lines]

theorem Settled.keptLines_append_unended (h : Settled front) (u : UnendedBlock) :
    keptLines (front ++ u.text) = (dropSeparator (keptLines front).reverse).reverse := by
  rw [keptLines, String.toList_append, h.run_lines_append, u.lines_eq, Scan.run_unended u.isStart u.noEnd]

/-- What stood in a block, and how its markers were written, cannot be seen once it is stripped. Of a
block that does not end nothing is left either, and it takes at most the last line kept before it, which
is blank then. -/
theorem former_blocks_leave_no_trace (h : Settled front) :
    (∀ (b b' : FormerBlock) (back : String),
      strip (front ++ b.text ++ back) = strip (front ++ b'.text ++ back)) ∧
    ∀ u : UnendedBlock,
      (strip (front ++ u.text) = strip front ∧
        ∀ line ∈ (keptLines front).getLast?, ¬Blank.isBlankText line) ∨
      ∃ line ∈ (keptLines front).getLast?, Blank.isBlankText line ∧
        strip front = strip (front ++ u.text) ++ String.ofList (line ++ ['\n']) := by
  refine ⟨fun b b' back => ?_, fun u => ?_⟩
  · rw [strip, strip, h.keptLines_append_block b, h.keptLines_append_block b']
  · have hkept := h.keptLines_append_unended u
    rw [← List.head?_reverse]
    rcases eq_append_of_dropSeparator (keptLines front).reverse with ⟨hdrop, hlast⟩ | ⟨line, hline, hdrop⟩
    · rw [hdrop, List.reverse_reverse] at hkept
      exact .inl ⟨by rw [strip, strip, hkept], hlast⟩
    · refine .inr ⟨line, by rw [hdrop]; rfl, hline, ?_⟩
      have hfront : keptLines front = keptLines (front ++ u.text) ++ [line] := by
        rw [hkept, ← List.reverse_cons, ← hdrop, List.reverse_reverse]
      rw [strip, strip, hfront, Line.text_append, String.ofList_append, Line.text_cons]
      rfl

end Settled

/-- A block that holds another start marker and a blank line, and an empty one behind markers that are
indented. -/
theorem former_blocks_leave_no_trace_for_misleading :
    ∃ b b' : FormerBlock, b.inner = [Block.startMarker.toList, [], ['x']] ∧ b'.inner = [] ∧
      b.first ≠ b'.first ∧ Settled "a\n\n" ∧
      (∀ back, strip ("a\n\n" ++ b.text ++ back) = strip ("a\n\n" ++ b'.text ++ back)) ∧
      ∃ u : UnendedBlock, u.inner = [['x']] ∧ strip "a\n\n" = strip ("a\n\n" ++ u.text) ++ "\n" := by
  let b : FormerBlock := {
    first := Block.startMarker.toList
    inner := [Block.startMarker.toList, [], ['x']]
    last := Block.endMarker.toList
    isStart := by decide
    noEnd := by decide
    isEnd := by decide
    noFeed := by decide }
  let b' : FormerBlock := {
    first := ' ' :: Block.startMarker.toList
    inner := []
    last := '\t' :: (Block.endMarker.toList ++ ['\r'])
    isStart := by decide
    noEnd := by decide
    isEnd := by decide
    noFeed := by decide }
  let u := UnendedBlock.ofLines Block.startMarker.toList [['x']] (by decide) (by decide) (by decide)
  have hsettled : Settled "a\n\n" := ⟨⟨[['a'], []], by decide, by decide⟩, by decide⟩
  obtain ⟨hended, hunended⟩ := former_blocks_leave_no_trace hsettled
  refine ⟨b, b', rfl, rfl, by decide, hsettled, hended b b', u, rfl, ?_⟩
  rcases hunended u with ⟨-, hlast⟩ | ⟨line, hline, -, hstrip⟩
  · exact absurd (by decide) (hlast [] (by decide))
  · obtain rfl : line = [] := by simpa [show (keptLines "a\n\n").getLast? = some [] by decide] using hline.symm
    exact hstrip

end Autoescape.Source
