import Autoescape.Directive.Name
import Autoescape.Plan.Basic
import Autoescape.Table.Build

/-!
# The plan of some directives

Directives are taken in order, and the first fault ends the work. A directive with an
available function is handed on and nothing else of it is looked at. Otherwise its table comes
first, then its filter, then the refusal of a lead for characters outside ASCII.
-/
namespace Autoescape.Plan

/-- The first function of a directive that is available. -/
def standIn? (available : String → Bool) (d : Directive) : Option String :=
  d.functions.find? available

/-- The places of the table and the matcher of a directive, if it escapes anything. -/
def addTable (r : Resources) (d : Directive) : Except Fault (Resources × Option Nat × Option Nat) := do
  match ← d.table? with
  | none => return (r, none, none)
  | some t =>
    let (r, i, j) := r.addTable d.owner t
    return (r, some i, some j)

def addFilter (r : Resources) (d : Directive) : Except Fault (Resources × Option Nat) := do
  match d.filter with
  | none => return (r, none)
  | some p =>
    let (r, i) ← r.addFilter d.identifier d.owner p
    return (r, some i)

def wire (r : Resources) (d : Directive) : Except Fault (Resources × Wiring) := do
  let (r, table, matcher) ← addTable r d
  let (r, filter) ← addFilter r d
  if d.nonAsciiLead.isSome then throw (.nonAsciiLead d.identifier)
  return (r, ⟨d.identifier, table, matcher, filter, d.innocuous⟩)

def add (available : String → Bool) (p : Plan) (d : Directive) : Except Fault Plan :=
  match standIn? available d with
  | some function => .ok { p with helpers := p.helpers ++ [.forwarding ⟨d.identifier, function⟩] }
  | none => do
    let (resources, w) ← wire p.resources d
    return ⟨resources, p.helpers ++ [.wiring w]⟩

def ofDirectives (available : String → Bool) (directives : List Directive) : Except Fault Plan :=
  directives.foldlM (add available) empty

end Autoescape.Plan
