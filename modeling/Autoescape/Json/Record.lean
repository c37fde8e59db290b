import Autoescape.Json.Basic

/-!
# Records with declared fields

A record may be given by names, in any order and among fields that nobody declared, or as the
list of its values in declared order, of which the last ones may be missing. Either way the
declared fields come out in declared order.
-/
namespace Autoescape.Json

def named? (fields : List (List UInt16 × Json)) : Option (List (String × Json)) :=
  fields.mapM fun field => do return (String.ofList (← Text.Units.decode? field.1), field.2)

/-- The value of a field, which may be absent but not repeated. -/
def single? (fields : List (String × Json)) (name : String) : Option (Option Json) :=
  match fields.filter (·.1 = name) with
  | [] => some none
  | [field] => some (some field.2)
  | _ => none

def slots? (names : List String) : Json → Option (List (Option Json))
  | .record fields => do
    let fields ← named? fields
    names.mapM (single? fields)
  | .list items =>
    if items.length ≤ names.length then
      some (items.map some ++ List.replicate (names.length - items.length) none)
    else none
  | _ => none

def required {α : Type} (read : Json → Option α) : Option Json → Option α
  | none => none
  | some v => read v

/-- Reads a field that has a value of its own when absent. -/
def orElse {α : Type} (read : Json → Option α) (absent : α) : Option Json → Option α
  | none => some absent
  | some v => read v

def nullable {α : Type} (read : Json → Option α) : Json → Option (Option α)
  | .null => some none
  | v => (read v).map some

def listOf {α : Type} (read : Json → Option α) (v : Json) : Option (List α) := do
  (← v.list?).mapM read

end Autoescape.Json
