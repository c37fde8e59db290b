import Autoescape.Directive.Codec
import Autoescape.Directive.Name
import Autoescape.Json.Parser
import Autoescape.Storage.Disk
import Autoescape.Text.Split

/-!
# Registry files

A registry file is a JSON list of directives. Names become symbols of the generated code, so they
are checked once the whole list has been read: the directives in order, and of each its own name
before those of its functions.
-/
namespace Autoescape.Registry

def isIdentStart (c : Char) : Bool := c.isAlpha || c = '_' || c = '$'

def isIdentPart (c : Char) : Bool := isIdentStart c || c.isDigit

def isIdent : List Char → Bool
  | [] => false
  | c :: rest => isIdentStart c && rest.all isIdentPart

def isQualified (name : List Char) : Bool := (Text.Split.pieces '.' name).all isIdent

/-- Checks the names of a directive from the file at `path`. -/
def vetNames (path : String) (d : Directive) : Except Fault Unit :=
  if !isIdent d.identifier.toList then .error (.directiveName path d.name)
  else match d.functions.find? fun name => !isQualified name.toList with
    | some name => .error (.functionName path name d.identifier)
    | none => .ok ()

def parse? (text : String) : Option (List Directive) := do
  Json.listOf Directive.ofJson? (← Json.parse? text)

def ofText (path text : String) : Except Fault (List Directive) := do
  match parse? text with
  | none => throw (.malformed path)
  | some directives =>
    directives.forM (vetNames path)
    return directives

def load (d : Storage.Disk) (path : String) : Except Fault (List Directive) := do
  ofText path (← (d.read path).mapError (.read path))

end Autoescape.Registry
