import Autoescape.Directive.Basic
import Autoescape.Json.Record

/-!
# Directives as JSON

Every value is written with all its fields. Reading accepts absent fields where there is a
natural value for them, and refuses everything that is not of the declared shape.
-/
namespace Autoescape

namespace Escape

def fieldNames : List String := ["plain", "escaped"]

def toJson (e : Escape) : Json :=
  .object [("plain", .char e.plain), ("escaped", .text e.escaped)]

/-- Reads an escape; both fields have to be there. -/
def ofJson? (j : Json) : Option Escape := do
  match ← j.slots? fieldNames with
  | [plain, escaped] =>
    return ⟨← Json.required Json.char? plain, ← Json.required Json.text? escaped⟩
  | _ => none

end Escape

namespace Modes

def fieldNames : List String := ["caseInsensitive", "multiline", "dotAll"]

def toJson (m : Modes) : Json :=
  .object [("caseInsensitive", .bool m.caseInsensitive), ("multiline", .bool m.multiline),
    ("dotAll", .bool m.dotAll)]

/-- Reads modes; each is off unless it is said to be on. -/
def ofJson? (j : Json) : Option Modes := do
  match ← j.slots? fieldNames with
  | [caseInsensitive, multiline, dotAll] =>
    return ⟨← Json.orElse Json.bool? false caseInsensitive, ← Json.orElse Json.bool? false multiline,
      ← Json.orElse Json.bool? false dotAll⟩
  | _ => none

end Modes

namespace Pattern

def fieldNames : List String := ["pattern", "flags"]

def toJson (p : Pattern) : Json := .object [("pattern", .text p.source), ("flags", p.modes.toJson)]

/-- Reads a pattern; without modes it is a plain one. -/
def ofJson? (j : Json) : Option Pattern := do
  match ← j.slots? fieldNames with
  | [source, modes] =>
    return ⟨← Json.required Json.text? source, ← Json.orElse Modes.ofJson? Modes.plain modes⟩
  | _ => none

end Pattern

namespace Directive

def fieldNames : List String :=
  ["directiveName", "escapes", "valueFilter", "nonAsciiPrefix", "innocuousOutput", "jsFunctionNames"]

def toJson (d : Directive) : Json :=
  .object [
    ("directiveName", .text d.name),
    ("escapes", .list (d.escapes.map Escape.toJson)),
    ("valueFilter", Json.optional Pattern.toJson d.filter),
    ("nonAsciiPrefix", Json.optional Json.text d.nonAsciiLead),
    ("innocuousOutput", .text d.innocuous),
    ("jsFunctionNames", .texts d.functions)]

/-- Reads a directive; only its name has to be there. -/
def ofJson? (j : Json) : Option Directive := do
  match ← j.slots? fieldNames with
  | [name, escapes, filter, nonAsciiLead, innocuous, functions] =>
    return {
      name := ← Json.required Json.text? name
      escapes := ← Json.orElse (Json.listOf Escape.ofJson?) [] escapes
      filter := ← Json.orElse (Json.nullable Pattern.ofJson?) none filter
      nonAsciiLead := ← Json.orElse (Json.nullable Json.text?) none nonAsciiLead
      innocuous := ← Json.orElse Json.text? "" innocuous
      functions := ← Json.orElse Json.texts? [] functions }
  | _ => none

end Directive
end Autoescape
