import Autoescape.Fault

/-!
# The body of a pattern literal

A pattern of the templates' host is read one character at a time, with a look at what follows.
Constructs that have the same meaning in the emitted syntax are kept or respelled; constructs
that would change their meaning there are refused. Slashes and line ends are always escaped, so
the body can stand between slashes.
-/
namespace Autoescape.Pattern

inductive Place where
  | outside
  /-- Right behind the bracket that opens a class. -/
  | opened
  /-- Right behind the caret that negates a class. -/
  | negated
  | inside
deriving DecidableEq

/-- The place behind a member: the beginning of a class is over. -/
def Place.entered : Place → Place
  | .outside => .outside
  | _ => .inside

/-- What the reader makes of the next character. -/
inductive State where
  | plain (place : Place)
  /-- The character belongs to the backslash before it. -/
  | escaped (place : Place)
  /-- The character stands for itself. -/
  | quoted (place : Place)
  /-- The character belongs to the end of a quotation. -/
  | quoteEnds (place : Place)
  /-- The character is the question mark that opens a special group. -/
  | groupMark
deriving DecidableEq

def lineEnd? (c : Char) : Option (List Char) :=
  match c with
  | '\r' => some ['\\', 'r']
  | '\n' => some ['\\', 'n']
  | '\u2028' => some ['\\', 'u', '2', '0', '2', '8']
  | '\u2029' => some ['\\', 'u', '2', '0', '2', '9']
  | _ => none

/-- The characters that a backslash makes stand for themselves. -/
def isSpecial (c : Char) : Bool :=
  c ∈ ['\\', '^', '$', '.', '|', '?', '*', '+', '(', ')', '[', ']', '\x7b', '\x7d', '/', '-']

def isModeMark (c : Char) : Bool := c ∈ ['i', 'd', 'm', 's', 'u', 'x', 'U', '-']

def kept (c : Char) : List Char :=
  match lineEnd? c with
  | some text => text
  | none => if c = '/' then ['\\', '/'] else [c]

def keptEscape (c : Char) : List Char := (lineEnd? c).getD ['\\', c]

def literally (c : Char) : List Char :=
  match lineEnd? c with
  | some text => text
  | none => if isSpecial c then ['\\', c] else [c]

/-- Why a special group is refused, by what stands behind its question mark. -/
def groupRefusal? : List Char → Option Feature
  | [] => none
  | c :: rest =>
    if c = '>' then some .atomicGroup
    else if c = '<' then
      if rest.head? = some '=' ∨ rest.head? = some '!' then some .lookbehind else some .namedGroup
    else if isModeMark c then
      let switchedOn := ((c :: rest).takeWhile isModeMark).takeWhile (· ≠ '-')
      if 's' ∈ switchedOn then some .dotAll else some .inlineModes
    else none

def isCount (c : Char) : Bool := c.isDigit || c = ','

/-- What follows an opening brace makes it a repetition that never gives back. -/
def isPossessiveCount (rest : List Char) : Bool :=
  (rest.takeWhile isCount ≠ []) && (['\x7d', '+'].isPrefixOf (rest.dropWhile isCount))

abbrev Step := Except Feature (List Char × State)

def stepClass (place : Place) (c : Char) (rest : List Char) : Step :=
  if c = '^' ∧ place = .opened then .ok (['^'], .plain .negated)
  else if c = ']' then
    if place = .inside then .ok ([']'], .plain .outside) else .ok (['\\', ']'], .plain .inside)
  else if c = '[' then .error .nestedClass
  else if c = '&' ∧ rest.head? = some '&' then .error .nestedClass
  else .ok (kept c, .plain .inside)

def stepOutside (c : Char) (rest : List Char) : Step :=
  if c = '[' then .ok (['['], .plain .opened)
  else if c = '(' ∧ rest.head? = some '?' then
    match groupRefusal? rest.tail with
    | some feature => .error feature
    | none => .ok (['('], .groupMark)
  else if (c = '*' ∨ c = '+' ∨ c = '?') ∧ rest.head? = some '+' then .error .possessive
  else if c = '\x7b' ∧ isPossessiveCount rest then .error .possessive
  else .ok (kept c, .plain .outside)

def stepEscaped (place : Place) (c : Char) : Step :=
  if c = 'p' ∨ c = 'P' then .error .namedClass
  else if c = 'Z' then .error .lenientEnd
  else if c = 'G' then .error .continuation
  else if c = 'A' ∧ place = .outside then .ok (['^'], .plain .outside)
  else if c = 'z' ∧ place = .outside then .ok (['$'], .plain .outside)
  else if c = 'Q' then .ok ([], .quoted place.entered)
  else .ok (keptEscape c, .plain place.entered)

def step (s : State) (c : Char) (rest : List Char) : Step :=
  match s with
  | .plain place =>
    if c = '\\' then .ok ([], .escaped place)
    else if place = .outside then stepOutside c rest
    else stepClass place c rest
  | .escaped place => stepEscaped place c
  | .quoted place =>
    if c = '\\' ∧ rest.head? = some 'E' then .ok ([], .quoteEnds place)
    else .ok (literally c, .quoted place)
  | .quoteEnds place => .ok ([], .plain place)
  | .groupMark => .ok (['?'], .plain .outside)

/-- What is written at the end: a backslash that nothing follows is kept. -/
def atEnd : State → List Char
  | .escaped _ => ['\\']
  | _ => []

def bodyFrom (s : State) : List Char → Except Feature (List Char)
  | [] => .ok (atEnd s)
  | c :: rest => do
    let (written, s) ← step s c rest
    return written ++ (← bodyFrom s rest)

def body (source : List Char) : Except Feature (List Char) := bodyFrom (.plain .outside) source

end Autoescape.Pattern
