/-!
# Escaping directives

A directive says which characters a value may not hold and what stands for each, which values
pass at all, and which existing functions do its work.
-/
namespace Autoescape

structure Escape where
  plain : Char
  escaped : String
deriving DecidableEq, Inhabited

structure Modes where
  caseInsensitive : Bool
  multiline : Bool
  dotAll : Bool
deriving DecidableEq, Inhabited

namespace Modes

/-- Case matters, anchors hold at the ends only, and the dot stops at line ends. -/
def plain : Modes := ⟨false, false, false⟩

end Modes

/-- A pattern that a value has to match, in the syntax of the templates' host. -/
structure Pattern where
  source : String
  modes : Modes
deriving DecidableEq, Inhabited

structure Directive where
  /-- The name as templates write it, with or without the bar in front. -/
  name : String
  escapes : List Escape
  /-- What a value has to match. -/
  filter : Option Pattern
  /-- What to put before a character outside ASCII that no escape names. -/
  nonAsciiLead : Option String
  /-- What stands for a value that the pattern rejects. -/
  innocuous : String
  /-- Functions that do the whole work where they are available, best first. -/
  functions : List String
deriving DecidableEq, Inhabited

namespace Directive

def ofName (name : String) : Directive := ⟨name, [], none, none, "", []⟩

def escape (d : Directive) (plain : Char) (escaped : String) : Directive :=
  { d with escapes := d.escapes ++ [⟨plain, escaped⟩] }

def function (d : Directive) (name : String) : Directive :=
  { d with functions := d.functions ++ [name] }

end Directive
end Autoescape
