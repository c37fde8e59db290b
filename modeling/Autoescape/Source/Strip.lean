import Autoescape.Block.Marker
import Autoescape.Text.Blank
import Autoescape.Text.Line

/-!
# Sources without generated blocks

A block reaches from a start marker line to the next end marker line, or to the end of the text.
All other lines are kept as they are, but a blank line that would end up before a block goes with
it: it is the separator that was written ahead of the block.
-/
namespace Autoescape.Source

/-- The lines kept so far, last first, and whether the reader is inside a block. -/
structure Scan where
  kept : List (List Char)
  inBlock : Bool
deriving DecidableEq

def Scan.start : Scan := ⟨[], false⟩

/-- Whether a line is a marker, whatever white space surrounds it. -/
def isMarker (marker : String) (line : List Char) : Bool := Text.Blank.trim line = marker.toList

/-- The kept lines without a blank one at their end. -/
def dropSeparator : List (List Char) → List (List Char)
  | [] => []
  | line :: rest => if Text.Blank.isBlankText line then rest else line :: rest

def Scan.step (s : Scan) (line : List Char) : Scan :=
  if s.inBlock then { s with inBlock := !isMarker Block.endMarker line }
  else if isMarker Block.startMarker line then ⟨dropSeparator s.kept, true⟩
  else { s with kept := line :: s.kept }

def Scan.run (s : Scan) (lines : List (List Char)) : Scan := lines.foldl Scan.step s

def keptLines (source : String) : List (List Char) :=
  (Scan.start.run (Text.Line.lines source.toList)).kept.reverse

/-- A source without its blocks, every line ended by a line feed. -/
def strip (source : String) : String := String.ofList (Text.Line.text (keptLines source))

/-- The sources without their blocks, each followed by a blank line, and then a block. -/
def withBlock (sources : List String) (block : String) : String :=
  String.join (sources.map fun source => strip source ++ "\n") ++ block

end Autoescape.Source
