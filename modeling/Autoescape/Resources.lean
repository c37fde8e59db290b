import Autoescape.Literal.CharClass
import Autoescape.Pattern.Literal
import Autoescape.Pool
import Autoescape.Table.Basic

/-!
# Shared resources

The tables, matchers and filters that the helpers use. A table joins the first one that it
agrees with; matchers and filters are shared when their literals are equal.
-/
namespace Autoescape

structure Resources where
  tables : Pool Table
  matchers : Pool String
  filters : Pool String

namespace Resources

def empty : Resources := ⟨[], [], []⟩

instance : Inhabited Resources := ⟨empty⟩

/-- Adds the table of an owner and the matcher of its characters, and gives their places. -/
def addTable (r : Resources) (owner : String) (t : Table) : Resources × Nat × Nat :=
  let (tables, i) := r.tables.place (·.agrees t) (·.merge t) t owner
  let (matchers, j) := r.matchers.share (Literal.CharClass.matcher t.keys) owner
  ({ r with tables, matchers }, i, j)

/-- Adds the filter of an owner to the resources of a computation and gives its place. -/
def takeFilter (directive owner : String) (p : Pattern) : ExceptT Fault (StateM Resources) Nat := do
  let literal ← p.literal directive
  modifyGet fun r =>
    let (filters, i) := r.filters.share literal owner
    (i, { r with filters })

def addFilter (r : Resources) (directive owner : String) (p : Pattern) :
    Except Fault (Resources × Nat) := do
  let (answer, r) := (takeFilter directive owner p).run r
  return (r, ← answer)

section
variable {r : Resources} {directive owner literal : String} {p : Pattern}

/-- A pattern without a literal leaves the resources as they are. -/
theorem takeFilter_of_error {fault : Fault} (h : p.literal directive = .error fault) :
    (takeFilter directive owner p).run r = (.error fault, r) := by
  rw [takeFilter, h]
  rfl

theorem takeFilter_of_ok (h : p.literal directive = .ok literal) :
    (takeFilter directive owner p).run r =
      (.ok (r.filters.share literal owner).2, { r with filters := (r.filters.share literal owner).1 }) := by
  rw [takeFilter, h]
  rfl

theorem addFilter_of_error {fault : Fault} (h : p.literal directive = .error fault) :
    r.addFilter directive owner p = .error fault := by
  rw [addFilter, takeFilter_of_error h]
  rfl

theorem addFilter_of_ok (h : p.literal directive = .ok literal) :
    r.addFilter directive owner p =
      .ok ({ r with filters := (r.filters.share literal owner).1 }, (r.filters.share literal owner).2) := by
  rw [addFilter, takeFilter_of_ok h]
  rfl

end

end Resources
end Autoescape
