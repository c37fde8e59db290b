import Autoescape.Proofs.Strip

/-!
# Stripping a second time

What is kept of a source holds no start marker, so a second pass finds no block. But it reads the lines
anew: one that ends in a carriage return was ended by a line feed, and now the carriage return counts as a
part of the line's end. Nothing else changes.
-/
namespace Autoescape.Source
open Text

theorem newline_notMem_of_mem_keptLines {source : String} {line : List Char} (h : line ∈ keptLines source) :
    '\n' ∉ line :=
  Line.newline_notMem_of_mem_lines (mem_keptLines h).1

theorem lines_strip (source : String) :
    Line.lines (strip source).toList = (keptLines source).map Line.withoutReturn := by
  rw [strip, String.toList_ofList, Line.lines_text_eq_map fun _ => newline_notMem_of_mem_keptLines]

/-- Trimming takes a carriage return too, so none that is gone had hidden a marker. -/
theorem not_start_of_mem_lines_strip {source : String} :
    ∀ line ∈ Line.lines (strip source).toList, ¬isMarker Block.startMarker line := by
  rw [lines_strip]
  exact not_isMarker_map_withoutReturn fun _ hline => (mem_keptLines hline).2

theorem keptLines_strip (source : String) :
    keptLines (strip source) = (keptLines source).map Line.withoutReturn := by
  rw [keptLines, Scan.start, Scan.run_outside not_start_of_mem_lines_strip, List.append_nil,
    List.reverse_reverse, lines_strip]

/-- A second pass finds no start marker. It takes one carriage return off every line that ends in one, so
it changes nothing exactly when the first pass left no carriage return before a line feed. It leaves
none of a clean source. -/
theorem strip_strip_eq_iff (source : String) :
    (∀ line ∈ Line.lines (strip source).toList, ¬isMarker Block.startMarker line) ∧
      strip (strip source) = String.ofList (Line.text ((keptLines source).map Line.withoutReturn)) ∧
      (strip (strip source) = strip source ↔ ¬['\r', '\n'] <:+: (strip source).toList) ∧
      (Clean source → strip (strip source) = strip source) := by
  have hsecond : strip (strip source) =
      String.ofList (Line.text ((keptLines source).map Line.withoutReturn)) := by
    rw [strip, keptLines_strip]
  have hfeed : ∀ line ∈ keptLines source, '\n' ∉ line := fun _ => newline_notMem_of_mem_keptLines
  have hfeed' : ∀ line ∈ (keptLines source).map Line.withoutReturn, '\n' ∉ line := by
    rw [← keptLines_strip]
    exact fun _ => newline_notMem_of_mem_keptLines
  have hfixed : strip (strip source) = strip source ↔ ∀ line ∈ keptLines source, line.getLast? ≠ some '\r' := by
    rw [hsecond, strip, String.ofList_inj, Line.text_inj hfeed' hfeed, Line.map_withoutReturn_eq_self_iff]
  refine ⟨not_start_of_mem_lines_strip, hsecond, ?_, fun hclean => ?_⟩
  · rw [hfixed, strip, String.toList_ofList, Line.return_newline_infix_text_iff hfeed, not_exists]
    simp only [not_and]
  · exact hfixed.mpr fun line hline => hclean line (mem_keptLines hline).1

/-- A line that ends in a carriage return, before the two characters that end the line. -/
theorem second_pass_takes_return :
    strip "a\r\r\n" = "a\r\n" ∧ strip (strip "a\r\r\n") = "a\n" ∧
      strip (strip "a\r\r\n") ≠ strip "a\r\r\n" := by
  decide

end Autoescape.Source
