import Autoescape.Literal.Quoted
import Autoescape.Pattern.Literal
import Autoescape.Plan.Basic

/-!
# Generated statements

Each statement assigns one symbol of the runtime's namespace and carries a comment. Only the
helpers answer to directives; the other symbols are private to them.
-/
namespace Autoescape.Block

structure Check where
  filter : String
  /-- What stands for a value that the filter rejects. -/
  innocuous : String
  reports : Bool
deriving DecidableEq

structure Replacing where
  matcher : String
  table : String
deriving DecidableEq

inductive Statement where
  /-- The helper that hands on to an existing function. -/
  | forwarding (f : Forwarding)
  | table (label : String) (t : Table)
  | replacer (label : String)
  | matcher (label literal : String)
  | filter (label literal : String)
  | helper (directive : String) (check : Option Check) (replacing : Option Replacing)
  | tagPattern
  | openPattern
  /-- The set of tags that only change the looks of a text. -/
  | safeTags

def scope : String := "soy.esc.$$"

def reporter : String := "goog.asserts.fail"

def formattingTags : List String := ["b", "br", "em", "i", "s", "sub", "sup", "u"]

/-- Tags, comments and document types in tag soup. -/
def htmlTag : Pattern := ⟨"<(?:!|/?[a-zA-Z])(?:[^>'\"]|\"[^\"]*\"|'[^']*')*>", .plain⟩

def htmlTagLiteral : String := "/<(?:!|\\/?[a-zA-Z])(?:[^>'\"]|\"[^\"]*\"|'[^']*')*>/"

/-- The pattern of tags has a literal, so nothing can go wrong with its statement. -/
theorem literal_htmlTag : htmlTag.literal "HTML_TAG_REGEX" = .ok htmlTagLiteral := rfl

def tableSymbol (label : String) : String := "ESCAPE_MAP_FOR_" ++ label ++ "_"

def replacerSymbol (label : String) : String := "REPLACER_FOR_" ++ label ++ "_"

def matcherSymbol (label : String) : String := "MATCHER_FOR_" ++ label ++ "_"

def filterSymbol (label : String) : String := "FILTER_FOR_" ++ label ++ "_"

def helperSymbol (directive : String) : String := directive ++ "Helper"

/-- The line of a table entry, without the comma that separates it from the next. -/
def entryLine (e : Char × String) : String :=
  "  " ++ Literal.Quoted.ofChar e.1 ++ ": " ++ Literal.Quoted.ofText e.2

def entryLines : List (Char × String) → List String
  | [] => []
  | [e] => [entryLine e]
  | e :: rest => (entryLine e ++ ",") :: entryLines rest

def checkLines (directive : String) (check : Check) : List String :=
  ["  if (!" ++ scope ++ filterSymbol check.filter ++ ".test(str)) \x7b"]
    ++ (if check.reports then
      ["    " ++ reporter ++ "("
        ++ Literal.Quoted.ofText ("Bad value `%s` for |" ++ directive) ++ ", [str]);"]
      else [])
    ++ ["    return " ++ Literal.Quoted.ofText check.innocuous ++ ";", "  \x7d"]

def resultLines : Option Replacing → List String
  | none => ["  return str;"]
  | some r =>
    ["  return str.replace(",
      "      " ++ scope ++ matcherSymbol r.matcher ++ ",",
      "      " ++ scope ++ replacerSymbol r.table ++ ");"]

namespace Statement

def symbol : Statement → String
  | .forwarding f => helperSymbol f.directive
  | .table label _ => tableSymbol label
  | .replacer label => replacerSymbol label
  | .matcher label _ => matcherSymbol label
  | .filter label _ => filterSymbol label
  | .helper directive _ _ => helperSymbol directive
  | .tagPattern => "HTML_TAG_REGEX_"
  | .openPattern => "LT_REGEX_"
  | .safeTags => "SAFE_TAG_WHITELIST_"

def comment : Statement → List String
  | .forwarding _ => [" * @type \x7bfunction (*) : string\x7d"]
  | .table _ _ =>
    [" * Maps characters to the escaped versions for the named escape directives.",
      " * @type \x7bObject.<string, string>\x7d", " * @private"]
  | .replacer _ =>
    [" * A function that can be used with String.replace.",
      " * @param \x7bstring\x7d ch A single character matched by a compatible matcher.",
      " * @return \x7bstring\x7d A token in the output language.", " * @private"]
  | .matcher _ _ =>
    [" * Matches characters that need to be escaped for the named directives.",
      " * @type RegExp", " * @private"]
  | .filter _ _ =>
    [" * A pattern that vets values produced by the named directives.",
      " * @type RegExp", " * @private"]
  | .helper directive _ _ =>
    [" * A helper for the Soy directive |" ++ directive,
      " * @param \x7b*\x7d value Can be of any type but will be coerced to a string.",
      " * @return \x7bstring\x7d The escaped text."]
  | .tagPattern =>
    [" * Matches all tags, HTML comments, and DOCTYPEs in tag soup HTML.",
      " * By removing these, and replacing any '<' or '>' characters with",
      " * entities we guarantee that the result can be embedded into",
      " * an attribute without introducing a tag boundary.",
      " *", " * @type \x7bRegExp\x7d", " * @private"]
  | .openPattern =>
    [" * Matches all occurrences of '<'.", " *", " * @type \x7bRegExp\x7d", " * @private"]
  | .safeTags =>
    [" * Maps lower-case names of innocuous tags to 1.",
      " *", " * @type \x7bObject.<string,number>\x7d", " * @private"]

/-- The first line of what is assigned, and the lines behind it. -/
def value : Statement → String × List String
  | .forwarding f => ("function(v) \x7b", ["  return " ++ f.function ++ "(String(v));", "\x7d;"])
  | .table _ t => ("\x7b", entryLines t.entries ++ ["\x7d;"])
  | .replacer label =>
    ("function(ch) \x7b", ["  return " ++ scope ++ tableSymbol label ++ "[ch];", "\x7d;"])
  | .matcher _ literal => (literal ++ ";", [])
  | .filter _ literal => (literal ++ ";", [])
  | .helper directive check replacing =>
    ("function(value) \x7b",
      "  var str = String(value);"
        :: (check.elim [] (checkLines directive) ++ resultLines replacing ++ ["\x7d;"]))
  | .tagPattern => (htmlTagLiteral ++ "g;", [])
  | .openPattern => ("/</g;", [])
  | .safeTags => (Literal.Quoted.set formattingTags ++ ";", [])

/-- The lines of a statement, with a blank line and the comment before it. -/
def lines (s : Statement) : List String :=
  "" :: "/**" :: (s.comment ++ [" */", scope ++ s.symbol ++ " = " ++ s.value.1] ++ s.value.2)

end Statement
end Autoescape.Block
