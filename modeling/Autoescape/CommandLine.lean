import Autoescape.Directive.Builtin
import Autoescape.Regex.Automaton
import Autoescape.Registry
import Autoescape.Run

/-!
# The command line

Arguments are taken from left to right until one asks for help or cannot be right. An option's
value follows it as the next argument or behind an equals sign; as an argument of its own it may
not look like an option.
-/
namespace Autoescape.CommandLine
open Storage

structure Arguments where
  configuration : Configuration
  /-- The registry file; without one the built-in directives count. -/
  registry : Option String
deriving DecidableEq

inductive Request where
  | run (arguments : Arguments)
  | help
  /-- Nothing that makes sense. -/
  | misuse
deriving DecidableEq

inductive Valued where
  | input
  | output
  | glob
  | registry
deriving DecidableEq

def valued? (name : List Char) : Option Valued :=
  match String.ofList name with
  | "--input" => some .input
  | "--output" => some .output
  | "--js-defined" => some .glob
  | "--escapers" => some .registry
  | _ => none

/-- The arguments with one more value. A path has to say something, and the output and the registry
can be given only once. -/
def Arguments.set? (a : Arguments) (option : Valued) (value : String) : Option Arguments :=
  match option with
  | .input => if value = "" then none else some { a with configuration := a.configuration.withInput value }
  | .output =>
    if value = "" ∨ a.configuration.output.isSome then none
    else some { a with configuration := { a.configuration with output := some value } }
  | .glob => some { a with configuration := a.configuration.withGlob value }
  | .registry =>
    if value = "" ∨ a.registry.isSome then none else some { a with registry := some value }

def looksLikeOption : List Char → Bool
  | '-' :: _ :: _ => true
  | _ => false

/-- The name of a long option, and the value behind an equals sign. -/
def splitValue (argument : List Char) : List Char × Option (List Char) :=
  match argument.dropWhile (· ≠ '=') with
  | [] => (argument, none)
  | _ :: value => (argument.takeWhile (· ≠ '='), some value)

/-- Whether letters behind one minus sign ask for help (`some true`) or only for more words in the
log (`some false`). -/
def shortHelp? : List Char → Option Bool
  | [] => some false
  | 'v' :: rest => shortHelp? rest
  | 'h' :: _ => some true
  | _ => none

/-- Reads arguments behind those that were read into `a`. -/
def parseFrom (a : Arguments) : List String → Request
  | [] => .run a
  | argument :: rest =>
    match argument.toList with
    | ['-', '-'] => if rest = [] then .run a else .misuse
    | '-' :: '-' :: long =>
      let (name, attached) := splitValue ('-' :: '-' :: long)
      match valued? name, attached with
      | some option, some value =>
        match a.set? option (String.ofList value) with
        | some a => parseFrom a rest
        | none => .misuse
      | some option, none =>
        match rest with
        | [] => .misuse
        | value :: rest =>
          if looksLikeOption value.toList then .misuse
          else match a.set? option value with
            | some a => parseFrom a rest
            | none => .misuse
      | none, none =>
        if name = "--verbose".toList then parseFrom a rest
        else if name = "--help".toList then .help
        else .misuse
      | none, some _ => .misuse
    | '-' :: c :: short =>
      match shortHelp? (c :: short) with
      | some true => .help
      | some false => parseFrom a rest
      | none => .misuse
    | _ => .misuse

def parse (arguments : List String) : Request := parseFrom ⟨Configuration.empty, none⟩ arguments

structure Outcome where
  status : Nat
  fault : Option Fault
deriving DecidableEq

def perform (d : Disk) (a : Arguments) : Except Fault String × Disk :=
  let directives : Except Fault (List Directive) := match a.registry with
    | none => .ok Directive.Builtin.directives
    | some path => Registry.load d path
  match directives with
  | .error fault => (.error fault, d)
  | .ok directives => Run.run d a.configuration directives

def execute (d : Disk) (arguments : List String) : Outcome × Disk :=
  match parse arguments with
  | .help => (⟨0, none⟩, d)
  | .misuse => (⟨2, none⟩, d)
  | .run a =>
    match perform d a with
    | (.ok _, d) => (⟨0, none⟩, d)
    | (.error fault, d) => (⟨1, some fault⟩, d)

end Autoescape.CommandLine
