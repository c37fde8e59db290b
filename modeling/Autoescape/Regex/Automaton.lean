import Autoescape.Regex.Engine

/-!
# An engine for simple expressions

It takes expressions of anchors, quoted characters, groups that are not counted, and runs of word
characters. An expression is held against all places of a subject at once, from its last item to its
first, so the work grows with the product of the two lengths.
-/
namespace Autoescape.Regex.Automaton

def isMeta (c : Char) : Bool :=
  c ∈ ['\\', '.', '+', '*', '?', '(', ')', '|', '[', ']', '\x7b', '\x7d', '^', '$', '#', '&', '-', '~']

def escape (text : String) : String :=
  String.ofList (text.toList.flatMap fun c => if isMeta c then ['\\', c] else [c])

/-- What an expression asks for at a place of the subject. -/
inductive Item where
  | start
  | finish
  | character (c : Char)
  | word
deriving DecidableEq

inductive Mode where
  | plain
  | escaped
  /-- Behind a parenthesis, before the colon of its group. -/
  | group
  /-- Behind a bracket, before the plus sign of its run. -/
  | run
deriving DecidableEq

/-- The items that were read, the last one first. -/
structure Reading where
  mode : Mode
  items : List Item

namespace Reading

def push (r : Reading) (item : Item) : Reading := ⟨.plain, item :: r.items⟩

def step (r : Reading) (c : Char) : Reading :=
  match r.mode with
  | .plain =>
    match c with
    | '^' => r.push .start
    | '$' => r.push .finish
    | '\\' => { r with mode := .escaped }
    | '(' => { r with mode := .group }
    | '[' => { r with mode := .run }
    | ')' => r
    | c => r.push (.character c)
  | .escaped => r.push (.character c)
  | .group => if c = ':' then { r with mode := .plain } else r
  | .run => if c = '+' then r.push .word else r

end Reading

def items (expression : String) : List Item :=
  (expression.toList.foldl Reading.step ⟨.plain, []⟩).items.reverse

def isWord (c : Char) : Bool := c.isAlphanum || c = '_'

/-- From the places of a subject where the rest of an expression is found, those where it is found
with one more item in front. Places go from the first one to the end of the subject. -/
def Item.extend (item : Item) (atStart : Bool) : List Char → List Bool → List Bool
  | c :: subject, place :: later =>
    let extended := item.extend false subject later
    let here := match item with
      | .start => atStart && place
      | .finish => false
      | .character own => c = own && later.headD false
      | .word => isWord c && (later.headD false || extended.headD false)
    here :: extended
  | _, places =>
    match item with
    | .start => [atStart && places.headD false]
    | .finish => [places.headD false]
    | _ => [false]

/-- The places of a subject where some items are found, one behind the other. -/
def places (atStart : Bool) (subject : List Char) (items : List Item) : List Bool :=
  items.foldr (fun item => item.extend atStart subject) (true :: subject.map fun _ => true)

/-- The bytes that an item compiles to, about. -/
def Item.size : Item → Nat
  | .character c => 32 * c.utf8Size
  | .word => 136
  | _ => 32

def size (items : List Item) : Nat := items.foldr (fun item size => item.size + size) 128

theorem size_cons (item : Item) (items : List Item) : size (item :: items) = item.size + size items := rfl

def sizeLimit : Nat := 10485760

def compile (expression : String) : Except Error Compiled :=
  let items := items expression
  if size items > sizeLimit then .error (.tooBig sizeLimit)
  else .ok ⟨fun subject => (places true subject.toList items).any id⟩

instance engine : Engine := ⟨escape, compile⟩

end Autoescape.Regex.Automaton
