import Autoescape.Proofs.Strip
import Mathlib.Data.List.Induction

/-!
# Sources as lines and blocks

The lines of a source can be read in one way as lines that stand alone and blocks (`Reading`). Stripping
keeps the former and, with each block, drops the last of them if it is blank. For a block behind a line
that is the separator ahead of it; a block directly behind another one takes a blank line from further
up, and where none does that, exactly the separators are missing.
-/
namespace Autoescape.Source
open Text

/-- A line outside blocks, or a block: its first line, the lines in it, and its last line, unless the
text ends before that. -/
inductive Piece where
  | line (line : List Char)
  | block (first : List Char) (inner : List (List Char)) (last : Option (List Char))
deriving DecidableEq

namespace Piece

def isBlock : Piece → Bool
  | .line _ => false
  | .block _ _ _ => true

end Piece

/-- How the lines of a source are read. A block begins at a start marker outside blocks and goes on to
the next end marker, or to the end of the source where there is none. -/
inductive Reading : List Piece → List (List Char) → Prop where
  | nil : Reading [] []
  | line {line : List Char} {ps : List Piece} {ls : List (List Char)}
      (hline : ¬isMarker Block.startMarker line) (hrest : Reading ps ls) :
      Reading (.line line :: ps) (line :: ls)
  | block {first last : List Char} {inner : List (List Char)} {ps : List Piece} {ls : List (List Char)}
      (hfirst : isMarker Block.startMarker first) (hinner : ∀ line ∈ inner, ¬isMarker Block.endMarker line)
      (hlast : isMarker Block.endMarker last) (hrest : Reading ps ls) :
      Reading (.block first inner (some last) :: ps) (first :: (inner ++ last :: ls))
  | unended {first : List Char} {inner : List (List Char)} (hfirst : isMarker Block.startMarker first)
      (hinner : ∀ line ∈ inner, ¬isMarker Block.endMarker line) :
      Reading [.block first inner none] (first :: inner)

theorem exists_reading (ls : List (List Char)) : ∃ ps, Reading ps ls := by
  match ls with
  | [] => exact ⟨[], .nil⟩
  | line :: ls =>
    by_cases hstart : isMarker Block.startMarker line
    · cases hend : ls.find? (isMarker Block.endMarker) with
      | none => exact ⟨_, .unended hstart (List.find?_eq_none.mp hend)⟩
      | some last =>
        obtain ⟨hlast, inner, rest, rfl, hinner⟩ := List.find?_eq_some_iff_append.mp hend
        obtain ⟨ps, hps⟩ := exists_reading rest
        exact ⟨_, .block hstart (by simpa using hinner) hlast hps⟩
    · obtain ⟨ps, hps⟩ := exists_reading ls
      exact ⟨_, .line hstart hps⟩
termination_by ls.length

theorem takeWhile_inner {inner : List (List Char)} (hinner : ∀ line ∈ inner, ¬isMarker Block.endMarker line)
    {last : List Char} (hlast : isMarker Block.endMarker last) (rest : List (List Char)) :
    (inner ++ last :: rest).takeWhile (!isMarker Block.endMarker ·) = inner := by
  rw [List.takeWhile_append_of_pos (by simpa using hinner), List.takeWhile_cons_of_neg (by simpa using hlast),
    List.append_nil]

theorem Reading.unique {ps ps' : List Piece} {ls : List (List Char)} (h : Reading ps ls)
    (h' : Reading ps' ls) : ps' = ps := by
  induction h generalizing ps' with
  | nil =>
    cases h'
    rfl
  | line hline _ ih =>
    cases h' with
    | line _ hrest => rw [ih hrest]
    | block hfirst => exact absurd hfirst hline
    | unended hfirst => exact absurd hfirst hline
  | @block first last inner ps ls hfirst hinner hlast hrest ih =>
    generalize hls : first :: (inner ++ last :: ls) = whole at h'
    cases h' with
    | nil => cases hls
    | line hline =>
      cases hls
      exact absurd hfirst hline
    | @block _ last' inner' _ ls' _ hinner' hlast' hrest' =>
      obtain ⟨rfl, hrest⟩ := List.cons.inj hls
      obtain rfl : inner = inner' := by
        rw [← takeWhile_inner hinner hlast ls, hrest, takeWhile_inner hinner' hlast' ls']
      obtain ⟨rfl, rfl⟩ := List.cons.inj (List.append_cancel_left hrest)
      rw [ih hrest']
    | unended _ hinner' =>
      cases hls
      exact absurd hlast (hinner' last (by simp))
  | @unended first inner hfirst hinner =>
    generalize hls : first :: inner = whole at h'
    cases h' with
    | nil => cases hls
    | line hline =>
      cases hls
      exact absurd hfirst hline
    | block _ _ hlast' =>
      cases hls
      exact absurd hlast' (hinner _ (by simp))
    | unended =>
      cases hls
      rfl

/-! ### What is kept -/

/-- The lines kept so far, last first, after one more piece. -/
def Piece.keep (kept : List (List Char)) : Piece → List (List Char)
  | .line l => l :: kept
  | .block _ _ _ => dropSeparator kept

theorem Reading.run_kept {ps : List Piece} {ls : List (List Char)} (h : Reading ps ls)
    (kept : List (List Char)) : (Scan.run ⟨kept, false⟩ ls).kept = ps.foldl Piece.keep kept := by
  induction h generalizing kept with
  | nil => rfl
  | line hline _ ih =>
    rw [Scan.run_cons, Scan.step_outside hline]
    exact ih _
  | block hfirst hinner hlast _ ih =>
    rw [Scan.run_block hfirst hinner hlast]
    exact ih _
  | unended hfirst hinner =>
    rw [Scan.run_unended hfirst hinner]
    rfl

def kept (ps : List Piece) : List (List Char) := (ps.foldl Piece.keep []).reverse

theorem Reading.keptLines_eq {ps : List Piece} {source : String}
    (h : Reading ps (Line.lines source.toList)) : keptLines source = kept ps := by
  rw [keptLines, Scan.start, h.run_kept, kept]

def outside (ps : List Piece) : List (List Char) :=
  ps.filterMap fun
    | .line line => some line
    | .block _ _ _ => none

/-- The lines outside the blocks, without a blank one directly before a block. -/
def separated : List Piece → List (List Char)
  | [] => []
  | .line line :: ps =>
    if Blank.isBlankText line ∧ ps.head?.any Piece.isBlock then separated ps else line :: separated ps
  | .block _ _ _ :: ps => separated ps

variable {ps rest : List Piece} {p : Piece}

theorem kept_append_line (l : List Char) : kept (ps ++ [.line l]) = kept ps ++ [l] := by
  simp [kept, Piece.keep]

theorem outside_append_line (l : List Char) : outside (ps ++ [.line l]) = outside ps ++ [l] := by
  simp [outside]

theorem eq_append_of_dropSeparator (lines : List (List Char)) :
    dropSeparator lines = lines ∧ (∀ l ∈ lines.head?, ¬Blank.isBlankText l) ∨
      ∃ l, Blank.isBlankText l ∧ lines = l :: dropSeparator lines := by
  cases lines with
  | nil => simp [dropSeparator]
  | cons l rest =>
    by_cases hl : Blank.isBlankText l
    · exact .inr ⟨l, hl, by simp [dropSeparator, hl]⟩
    · exact .inl (by simpa [dropSeparator] using hl)

/-- A block leaves what is kept as it is, or takes a blank line off its end. -/
theorem kept_append_block (ps : List Piece) (hp : p.isBlock) :
    kept (ps ++ [p]) = kept ps ∧ (∀ l ∈ (kept ps).getLast?, ¬Blank.isBlankText l) ∨
      ∃ l, Blank.isBlankText l ∧ kept ps = kept (ps ++ [p]) ++ [l] := by
  cases p with
  | line l => cases hp
  | block first inner last =>
    have hkept : kept (ps ++ [.block first inner last]) = (dropSeparator (ps.foldl Piece.keep [])).reverse := by
      simp [kept, Piece.keep]
    rw [hkept, kept, List.getLast?_reverse]
    rcases eq_append_of_dropSeparator (ps.foldl Piece.keep []) with ⟨heq, hlast⟩ | ⟨l, hl, heq⟩
    · exact .inl ⟨by rw [heq], hlast⟩
    · refine .inr ⟨l, hl, ?_⟩
      conv_lhs => rw [heq]
      rw [List.reverse_cons]

theorem separated_append (hrest : rest.head?.any Piece.isBlock = false) :
    separated (ps ++ rest) = separated ps ++ separated rest := by
  induction ps with
  | nil => rfl
  | cons p ps ih =>
    cases p with
    | block => exact ih
    | line l =>
      have hhead : (ps ++ rest).head?.any Piece.isBlock = ps.head?.any Piece.isBlock := by
        cases ps <;> simp [hrest]
      rw [List.cons_append, separated, separated, hhead, ih]
      split <;> rfl

theorem separated_append_block (hp : p.isBlock) :
    separated (ps ++ p :: rest) = separated (ps ++ [p]) ++ separated rest := by
  induction ps with
  | nil =>
    cases p with
    | line => cases hp
    | block => rfl
  | cons q ps ih =>
    cases q with
    | block => exact ih
    | line l =>
      have hhead : (ps ++ p :: rest).head?.any Piece.isBlock = (ps ++ [p]).head?.any Piece.isBlock := by
        cases ps <;> rfl
      rw [List.cons_append, List.cons_append, separated, separated, hhead, ih]
      split <;> rfl

/-- No block that begins directly behind another one has a blank line as the last one outside the
blocks before it. -/
def Orderly (ps : List Piece) : Prop :=
  ∀ before b b' after, ps = before ++ b :: b' :: after → b.isBlock → b'.isBlock →
    ∀ l ∈ (separated (before ++ [b])).getLast?, ¬Blank.isBlankText l

theorem orderly_append : Orderly (ps ++ [p]) ↔ Orderly ps ∧
    ∀ before b, ps = before ++ [b] → b.isBlock → p.isBlock →
      ∀ l ∈ (separated ps).getLast?, ¬Blank.isBlankText l := by
  constructor
  · intro h
    refine ⟨fun before b b' after hps => ?_, fun before b hps hb hp => ?_⟩
    · exact h before b b' (after ++ [p]) (by simp [hps])
    · subst hps
      exact h before b p [] (by simp) hb hp
  · rintro ⟨hps, hlast⟩ before b b' after heq hb hb'
    rcases List.eq_nil_or_concat after with rfl | ⟨front, q, rfl⟩
    · have hconcat : ps.concat p = (before ++ [b]).concat b' := by simpa using heq
      obtain ⟨rfl, rfl⟩ := List.concat_inj.mp hconcat
      exact hlast before b rfl hb hb'
    · have hconcat : ps.concat p = (before ++ b :: b' :: front).concat q := by simpa using heq
      exact hps before b b' front (List.concat_inj.mp hconcat).1 hb hb'

theorem orderly_nil : Orderly [] := by simp [Orderly]

theorem orderly_append_of_line (hp : p.isBlock = false) : Orderly (ps ++ [p]) ↔ Orderly ps := by
  simp [orderly_append, hp]

theorem orderly_append_behind_line (l : List Char) :
    Orderly (ps ++ [.line l] ++ [p]) ↔ Orderly (ps ++ [.line l]) := by
  rw [orderly_append, and_iff_left]
  intro before b heq hb
  obtain ⟨-, rfl⟩ := List.concat_inj.mp (by simpa using heq : ps.concat (.line l) = before.concat b)
  cases hb

theorem orderly_append_behind_block {b : Piece} (hb : b.isBlock) (hp : p.isBlock) :
    Orderly (ps ++ [b] ++ [p]) ↔
      Orderly (ps ++ [b]) ∧ ∀ l ∈ (separated (ps ++ [b])).getLast?, ¬Blank.isBlankText l := by
  rw [orderly_append]
  exact and_congr_right fun _ => ⟨fun h => h ps b rfl hb hp, fun h _ _ _ _ _ => h⟩

/-- The lines of the pieces are separated as they are kept, and the pieces are orderly; or they are
not, and too few are kept. -/
def Agrees (ps : List Piece) : Prop :=
  Orderly ps ∧ kept ps = separated ps ∨ ¬Orderly ps ∧ (kept ps).length < (separated ps).length

theorem Agrees.line (h : Agrees ps) (l : List Char) : Agrees (ps ++ [.line l]) := by
  have hseparated : separated (ps ++ [.line l]) = separated ps ++ [l] := by
    rw [separated_append rfl]
    simp [separated]
  rw [Agrees, orderly_append_of_line rfl, hseparated, kept_append_line]
  simpa [Agrees] using h

/-- A block behind a line drops that line from both if it is blank, and nothing otherwise. -/
theorem Agrees.block_behind_line {l : List Char} (h : Agrees (ps ++ [.line l])) (hp : p.isBlock) :
    Agrees (ps ++ [.line l] ++ [p]) := by
  have hseparated : separated (ps ++ [.line l]) = separated ps ++ [l] := by
    rw [separated_append rfl]
    simp [separated]
  have hseparated' : separated (ps ++ [.line l] ++ [p]) =
      separated ps ++ if Blank.isBlankText l then [] else [l] := by
    cases p with
    | line => cases hp
    | block =>
      rw [List.append_assoc, separated_append rfl]
      by_cases hl : Blank.isBlankText l <;> simp [separated, hl, Piece.isBlock]
  rw [Agrees, orderly_append_behind_line, hseparated']
  rw [Agrees, hseparated, kept_append_line] at h
  rcases kept_append_block (ps ++ [.line l]) hp with ⟨hkept, hlast⟩ | ⟨l', hl', hkept⟩
  · rw [kept_append_line] at hkept hlast
    rw [if_neg (hlast l (by simp)), hkept]
    exact h
  · rw [kept_append_line] at hkept
    obtain ⟨hfront, hline⟩ := List.append_inj' hkept rfl
    obtain rfl := List.singleton_inj.mp hline
    rw [if_pos hl', List.append_nil, ← hfront]
    simpa using h

/-- A block behind a block drops a line only from what is kept. -/
theorem Agrees.block_behind_block {b : Piece} (h : Agrees (ps ++ [b])) (hb : b.isBlock) (hp : p.isBlock) :
    Agrees (ps ++ [b] ++ [p]) := by
  have hseparated : separated (ps ++ [b] ++ [p]) = separated (ps ++ [b]) := by
    cases p with
    | line => cases hp
    | block => rw [List.append_assoc, List.singleton_append, separated_append_block hb, separated, separated,
        List.append_nil]
  rw [Agrees, orderly_append_behind_block hb hp, hseparated]
  rcases kept_append_block (ps ++ [b]) hp with ⟨hkept, hlast⟩ | ⟨l, hl, hkept⟩
  · rcases h with ⟨horderly, heq⟩ | ⟨horderly, hlt⟩
    · exact .inl ⟨⟨horderly, heq ▸ hlast⟩, hkept.trans heq⟩
    · exact .inr ⟨fun h => horderly h.1, hkept ▸ hlt⟩
  · rcases h with ⟨horderly, heq⟩ | ⟨horderly, hlt⟩
    · refine .inr ⟨fun h => h.2 l ?_ hl, ?_⟩
      · simp [← heq, hkept]
      · simp [← heq, hkept]
    · refine .inr ⟨fun h => horderly h.1, ?_⟩
      rw [hkept, List.length_append] at hlt
      exact Nat.lt_of_le_of_lt (Nat.le_add_right _ _) hlt

theorem agrees (ps : List Piece) : Agrees ps := by
  induction ps using List.reverseRecOn with
  | nil => exact .inl ⟨orderly_nil, rfl⟩
  | append_singleton ps p ih =>
    cases p with
    | line l => exact ih.line l
    | block first inner last =>
      rcases List.eq_nil_or_concat' ps with rfl | ⟨front, _ | _, rfl⟩
      · refine .inl ⟨?_, rfl⟩
        rw [orderly_append]
        exact ⟨orderly_nil, fun _ _ h => by simp at h⟩
      · exact ih.block_behind_line rfl
      · exact ih.block_behind_block rfl rfl

/-! ### Stripping -/

/-- Whatever the pieces, what is left out of the lines outside blocks is blank. -/
theorem kept_sublist_outside (ps : List Piece) : (kept ps).Sublist (outside ps) ∧
    (kept ps).filter (!Blank.isBlankText ·) = (outside ps).filter (!Blank.isBlankText ·) := by
  induction ps using List.reverseRecOn with
  | nil => exact ⟨.refl _, rfl⟩
  | append_singleton ps p ih =>
    cases p with
    | line l =>
      rw [kept_append_line, outside_append_line, List.filter_append, List.filter_append, ih.2]
      exact ⟨ih.1.append_right _, rfl⟩
    | block first inner last =>
      have houtside : outside (ps ++ [.block first inner last]) = outside ps := by simp [outside]
      rw [houtside]
      rcases kept_append_block ps (p := .block first inner last) rfl with ⟨hkept, -⟩ | ⟨l, hl, hkept⟩
      · rw [hkept]
        exact ih
      · rw [hkept] at ih
        refine ⟨(List.sublist_append_left _ _).trans ih.1, ?_⟩
        rw [← ih.2]
        simp [hl]

theorem Reading.mem_of_mem_outside {ls : List (List Char)} (h : Reading ps ls) {l : List Char}
    (hl : l ∈ outside ps) : l ∈ ls := by
  induction h with
  | nil => exact hl
  | line _ _ ih =>
    rcases List.mem_cons.mp hl with rfl | hl
    · exact List.mem_cons_self
    · exact List.mem_cons_of_mem _ (ih hl)
  | block _ _ _ _ ih => simp [ih hl]
  | unended => cases hl

theorem separated_sublist_outside (ps : List Piece) : (separated ps).Sublist (outside ps) := by
  induction ps with
  | nil => exact .refl _
  | cons p ps ih =>
    cases p with
    | block => exact ih
    | line l =>
      rw [separated]
      split
      · exact ih.cons l
      · exact ih.cons_cons l

/-- The lines of a source are read in one way as lines outside blocks and blocks. Stripping leaves out
nothing but blocks and blank lines. The blank lines are exactly those directly before a block when no
block that begins directly behind another one has a blank line as the last outside the blocks before
it, and only then. -/
theorem strip_separated_iff (source : String) :
    ∃ ps, Reading ps (Line.lines source.toList) ∧
      (∀ ps', Reading ps' (Line.lines source.toList) → ps' = ps) ∧
      (∃ lines : List (List Char), strip source = String.ofList (Line.text lines) ∧
        lines.Sublist (outside ps) ∧
        lines.filter (!Blank.isBlankText ·) = (outside ps).filter (!Blank.isBlankText ·)) ∧
      (strip source = String.ofList (Line.text (separated ps)) ↔ Orderly ps) := by
  obtain ⟨ps, hps⟩ := exists_reading (Line.lines source.toList)
  have hstrip : strip source = String.ofList (Line.text (kept ps)) := by rw [strip, hps.keptLines_eq]
  have hfeed {lines : List (List Char)} (h : lines.Sublist (outside ps)) : ∀ l ∈ lines, '\n' ∉ l :=
    fun l hl => Line.newline_notMem_of_mem_lines (hps.mem_of_mem_outside (h.subset hl))
  obtain ⟨hsublist, hblank⟩ := kept_sublist_outside ps
  refine ⟨ps, hps, fun ps' => hps.unique, ⟨kept ps, hstrip, hsublist, hblank⟩, ?_⟩
  rw [hstrip, String.ofList_inj, Line.text_inj (hfeed hsublist) (hfeed (separated_sublist_outside ps))]
  rcases agrees ps with ⟨horderly, heq⟩ | ⟨horderly, hlt⟩
  · exact iff_of_true heq horderly
  · exact iff_of_false (fun heq => absurd (heq ▸ hlt) (Nat.lt_irrefl _)) horderly

/-- Two blocks behind two blank lines: only the second of these is directly before a block, but the
second block takes the first one. -/
theorem two_blocks_take_two_blanks :
    let markers := [Block.startMarker.toList, Block.endMarker.toList]
    let source := String.ofList (Line.text ([['a'], [], []] ++ markers ++ markers))
    ∃ ps, Reading ps (Line.lines source.toList) ∧ separated ps = [['a'], []] ∧
      strip source = "a\n" ∧ strip source ≠ String.ofList (Line.text (separated ps)) := by
  intro markers source
  let block : Piece := .block Block.startMarker.toList [] (some Block.endMarker.toList)
  have hblock {ps : List Piece} {ls : List (List Char)} (h : Reading ps ls) :
      Reading (block :: ps) (markers ++ ls) := .block (by decide) (by simp) (by decide) h
  have hwhole : ∀ line ∈ [['a'], [], []] ++ markers ++ markers, Line.Whole line := by
    have hall : ∀ line ∈ [['a'], [], []] ++ markers ++ markers, '\n' ∉ line ∧ line.getLast? ≠ some '\r' := by
      decide
    exact fun line hline => ⟨(hall line hline).1, (hall line hline).2⟩
  have hreading : Reading [.line ['a'], .line [], .line [], block, block] (Line.lines source.toList) := by
    rw [String.toList_ofList, Line.lines_text hwhole]
    exact .line (by decide) (.line (by decide) (.line (by decide) (hblock (hblock .nil))))
  have hstrip : strip source = "a\n" := by
    rw [strip, hreading.keptLines_eq]
    rfl
  refine ⟨_, hreading, rfl, hstrip, ?_⟩
  rw [hstrip]
  decide

end Autoescape.Source
