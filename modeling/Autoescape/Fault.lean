import Autoescape.Regex.Engine
import Autoescape.Text.Shown

/-!
# What can go wrong

Each fault is a cause with what it concerns. Every fault has a code that stays the same and a
message for people.
-/
namespace Autoescape

/-- A construct of the host's patterns that the emitted patterns cannot express safely. -/
inductive Feature where
  | lookbehind
  | namedGroup
  | dotAll
  | namedClass
  | inlineModes
  | lenientEnd
  | continuation
  | atomicGroup
  | possessive
  | nestedClass
deriving DecidableEq

def Feature.text : Feature → String
  | .lookbehind => "lookbehind"
  | .namedGroup => "named groups"
  | .dotAll => "DOTALL"
  | .namedClass => "named character classes"
  | .inlineModes => "inline mode flags"
  | .lenientEnd => "the \\Z anchor"
  | .continuation => "the \\G anchor"
  | .atomicGroup => "atomic groups"
  | .possessive => "possessive quantifiers"
  | .nestedClass => "nested character classes"

inductive Refusal where
  | notFound
  | notDirectory
  | isDirectory
  | invalidArgument
  | noSpace
  | nameTooLong
  | nulInPath
  | notText
  | deviceError
  | notPermitted
  | readOnlyMedium
  | outOfMemory
deriving DecidableEq

def Refusal.text : Refusal → String
  | .notFound => "No such file or directory (os error 2)"
  | .notDirectory => "Not a directory (os error 20)"
  | .isDirectory => "Is a directory (os error 21)"
  | .invalidArgument => "Invalid argument (os error 22)"
  | .noSpace => "No space left on device (os error 28)"
  | .nameTooLong => "File name too long (os error 36)"
  | .nulInPath => "file name contained an unexpected NUL byte"
  | .notText => "stream did not contain valid UTF-8"
  | .deviceError => "Input/output error (os error 5)"
  | .notPermitted => "Permission denied (os error 13)"
  | .readOnlyMedium => "Read-only file system (os error 30)"
  | .outOfMemory => "out of memory"

inductive Fault where
  | noOutput
  | outputIsDirectory (output : String)
  | noParent (output parent : String)
  /-- The output, or the directory it is to be made in, may not be written. -/
  | readOnly (output existing : String)
  | noInput (input : String)
  | emptyGlob
  /-- The expression of a glob is refused. -/
  | badGlob (glob : String) (error : Regex.Error)
  /-- A directive gives a character a second text. -/
  | ambiguous (directive : String) (plain : Char) (escaped : String)
  /-- A directive escapes a character that is no single code unit. -/
  | astral (directive : String) (plain : Char)
  | unsupported (directive pattern : String) (feature : Feature)
  /-- A directive has a lead for characters outside ASCII. -/
  | nonAsciiLead (directive : String)
  /-- A helper points to a table, matcher or filter that does not exist. -/
  | dangling
  | read (path : String) (refusal : Refusal)
  | write (path : String) (refusal : Refusal)
  /-- A registry file is not a JSON list of directives. -/
  | malformed (path : String)
  | directiveName (path name : String)
  | functionName (path function directive : String)
deriving DecidableEq

namespace Fault

def code : Fault → String
  | .noOutput | .outputIsDirectory _ | .noParent _ _ | .readOnly _ _ | .noInput _ | .emptyGlob
  | .badGlob _ _ => "ESC-CONFIG"
  | .ambiguous _ _ _ => "ESC-AMBIGUOUS"
  | .astral _ _ => "ESC-ASTRAL"
  | .unsupported _ _ _ => "ESC-PATTERN"
  | .nonAsciiLead _ => "ESC-UNIMPLEMENTED"
  | .dangling => "ESC-DANGLING"
  | .read _ _ => "ESC-READ"
  | .write _ _ => "ESC-WRITE"
  | .malformed _ | .directiveName _ _ | .functionName _ _ _ => "ESC-REGISTRY"

def message : Fault → String
  | .noOutput => "configuration error: please specify an output file"
  | .outputIsDirectory output =>
    "configuration error: cannot write output file " ++ output ++ ": it is a directory"
  | .noParent output parent =>
    "configuration error: cannot write output file " ++ output ++ ": missing directory " ++ parent
  | .readOnly output existing =>
    "configuration error: cannot write output file " ++ output ++ ": " ++ existing ++ " is read-only"
  | .noInput input => "configuration error: missing input file " ++ input
  | .emptyGlob => "configuration error: please specify a non-empty pattern for --js-defined"
  | .badGlob glob error =>
    "configuration error: bad --js-defined pattern " ++ glob ++ ": " ++ error.text
  | .ambiguous directive plain escaped =>
    "ambiguous escape " ++ Text.Shown.text escaped ++ " for " ++ Text.Shown.char plain ++ " in " ++ directive
  | .astral directive plain =>
    directive ++ " escapes " ++ Text.Shown.char plain
      ++ " which is outside the Basic Multilingual Plane"
  | .unsupported directive pattern feature =>
    "pattern /" ++ pattern ++ "/ for " ++ directive ++ " uses " ++ feature.text
  | .nonAsciiLead directive =>
    "non-ASCII prefix escapers not implemented yet (" ++ directive ++ ")"
  | .dangling => "a helper refers to a definition that does not exist"
  | .read path refusal => "failed to read " ++ path ++ ": " ++ refusal.text
  | .write path refusal => "failed to write " ++ path ++ ": " ++ refusal.text
  | .malformed path => "invalid escaper registry: " ++ path ++ ": (json)"
  | .directiveName path name =>
    "invalid escaper registry: " ++ path ++ ": directive name " ++ Text.Shown.text name
      ++ " is not a JavaScript identifier"
  | .functionName path function directive =>
    "invalid escaper registry: " ++ path ++ ": function name " ++ Text.Shown.text function ++ " for "
      ++ directive ++ " is not a JavaScript name"

end Fault
end Autoescape
