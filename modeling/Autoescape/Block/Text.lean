import Autoescape.Block.Marker
import Autoescape.Block.Statement

/-!
# The generated block

The statements of a plan: the helpers that hand on, the resources, the helpers that use them, and
the constants that belong to no directive. Their lines stand between the two marker lines.
-/
namespace Autoescape.Plan
open Block

def check? (r : Resources) (reports : Bool) (w : Wiring) : Option (Option Check) :=
  match w.filter with
  | none => some none
  | some i => r.filters[i]?.map fun filter => some ⟨filter.label, w.innocuous, reports⟩

/-- How a helper replaces characters, unless its table or its matcher does not exist. They are
looked up only when both are given. -/
def replacing? (r : Resources) (w : Wiring) : Option (Option Replacing) :=
  match w.table, w.matcher with
  | some i, some j => do
    let table ← r.tables[i]?
    let matcher ← r.matchers[j]?
    return some ⟨matcher.label, table.label⟩
  | _, _ => some none

def helperStatement? (p : Plan) (reports : Bool) (w : Wiring) : Option Statement := do
  let check ← check? p.resources reports w
  let replacing ← replacing? p.resources w
  return .helper w.directive check replacing

def resourceStatements (r : Resources) : List Statement :=
  r.tables.flatMap (fun s => [.table s.label s.value, .replacer s.label])
    ++ r.matchers.map (fun s => .matcher s.label s.value)
    ++ r.filters.map (fun s => .filter s.label s.value)

/-- The statements of a plan, unless a helper points to nothing. Rejected values are reported when
`reports` says so. -/
def statements? (p : Plan) (reports : Bool) : Option (List Statement) := do
  let helpers ← p.wirings.mapM (p.helperStatement? reports)
  return p.forwardings.map .forwarding ++ resourceStatements p.resources ++ helpers
    ++ [.tagPattern, .openPattern, .safeTags]

def textOfLines (lines : List String) : String := String.join (lines.map (· ++ "\n"))

def blockLines (statements : List Statement) : List String :=
  startMarker :: (statements.flatMap Statement.lines ++ ["", endMarker])

def block? (available : String → Bool) (p : Plan) : Option String := do
  return textOfLines (blockLines (← p.statements? (available reporter)))

end Autoescape.Plan
