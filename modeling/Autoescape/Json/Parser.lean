import Autoescape.Json.Lexer

/-!
# Reading JSON values

Tokens are taken one at a time beside a stack of the lists and records that are still open, so
nesting has no limit. A text is read whole: nothing may follow the value.
-/
namespace Autoescape.Json

/-- A list or record that is still open; its contents are in reverse. -/
inductive Frame where
  | list (items : List Json)
  | record (fields : List (List UInt16 × Json)) (key : List UInt16)

inductive Phase where
  /-- A value, or the end of a list that is still empty. -/
  | value (mayClose : Bool)
  /-- A key, or the end of a record that is still empty. -/
  | key (fields : List (List UInt16 × Json)) (mayClose : Bool)
  | colon (fields : List (List UInt16 × Json)) (key : List UInt16)
  /-- A separator or the end of the innermost list. -/
  | afterItem (items : List Json)
  /-- A separator or the end of the innermost record. -/
  | afterField (fields : List (List UInt16 × Json))
  /-- Nothing: the value is complete. -/
  | done (result : Json)

/-- The parser's state: the open containers, innermost first, and what may come next. -/
structure State where
  stack : List Frame
  phase : Phase

/-- Puts a complete value into the innermost open container. -/
def place (v : Json) : List Frame → State
  | [] => ⟨[], .done v⟩
  | .list items :: stack => ⟨stack, .afterItem (v :: items)⟩
  | .record fields key :: stack => ⟨stack, .afterField ((key, v) :: fields)⟩

def State.take? (s : State) (t : Token) : Option State :=
  match s.phase, t with
  | .value _, .null => some (place .null s.stack)
  | .value _, .bool b => some (place (.bool b) s.stack)
  | .value _, .number d => some (place (.number d) s.stack)
  | .value _, .string units => some (place (.string units) s.stack)
  | .value _, .openList => some ⟨.list [] :: s.stack, .value true⟩
  | .value _, .openRecord => some ⟨s.stack, .key [] true⟩
  | .value true, .closeList =>
    match s.stack with
    | .list items :: stack => some (place (.list items.reverse) stack)
    | _ => none
  | .key fields _, .string units => some ⟨s.stack, .colon fields units⟩
  | .key fields true, .closeRecord => some (place (.record fields.reverse) s.stack)
  | .colon fields key, .colon => some ⟨.record fields key :: s.stack, .value false⟩
  | .afterItem items, .comma => some ⟨.list items :: s.stack, .value false⟩
  | .afterItem items, .closeList => some (place (.list items.reverse) s.stack)
  | .afterField fields, .comma => some ⟨s.stack, .key fields false⟩
  | .afterField fields, .closeRecord => some (place (.record fields.reverse) s.stack)
  | _, _ => none

def State.takeAll? (s : State) : List Token → Option State
  | [] => some s
  | t :: rest => do (← s.take? t).takeAll? rest

def ofTokens? (tokens : List Token) : Option Json := do
  match (← State.takeAll? ⟨[], .value false⟩ tokens).phase with
  | .done v => some v
  | _ => none

def parse? (s : String) : Option Json := do ofTokens? (← tokens? s.toList)

end Autoescape.Json
