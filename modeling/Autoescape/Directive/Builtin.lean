import Autoescape.Directive.Basic
import Autoescape.Text.Percent

/-!
# The built-in directives

The directives of the contextual autoescaper, in the order in which their helpers are emitted.
-/
namespace Autoescape.Directive.Builtin

/-- Output that is safe in every context and easy to spot. -/
def innocuousOutput : String := "zSoyz"

def percentEscape (c : Char) : Escape := ⟨c, String.ofList (Text.Percent.ofChar c)⟩

/-- The escapes of some characters by percent encoding, in the order of the characters. -/
def sortedEscapes (chars : List Char) : List Escape :=
  (chars.map percentEscape).mergeSort fun e f => e.plain ≤ f.plain

/-- The escapes of some characters, each character once. Repeats stand side by side in sorted escapes,
and the first of them is kept. -/
def percentEncoded (chars : List Char) : List Escape :=
  (sortedEscapes chars).eraseRepsBy fun e f => e.plain = f.plain

def controls : List Char := (List.range 0x21).map Char.ofNat

/-- The characters that may not stand in a part of a URI, as far as they are ASCII. -/
def uriPartSpecials : List Char := controls ++ " \"#$%&+,/:;<=>?@[\\]^`\x7b|\x7d\x7f".toList

/-- The characters that may not stand plainly in a URI inside other text. -/
def uriSpecials : List Char := controls ++ "\"'()<>\\\x7b\x7d\x7f\u0085\u00a0\u2028\u2029".toList

def htmlEscapes : List Escape :=
  [⟨'\x00', "&#0;"⟩, ⟨'\"', "&quot;"⟩, ⟨'&', "&amp;"⟩, ⟨'\'', "&#39;"⟩, ⟨'<', "&lt;"⟩, ⟨'>', "&gt;"⟩]

def htmlNospaceEscapes : List Escape :=
  [⟨'\x00', "&#0;"⟩, ⟨'\t', "&#9;"⟩, ⟨'\n', "&#10;"⟩, ⟨'\x0b', "&#11;"⟩, ⟨'\x0c', "&#12;"⟩,
    ⟨'\r', "&#13;"⟩, ⟨' ', "&#32;"⟩, ⟨'\"', "&quot;"⟩, ⟨'&', "&amp;"⟩, ⟨'\'', "&#39;"⟩,
    ⟨'-', "&#45;"⟩, ⟨'/', "&#47;"⟩, ⟨'<', "&lt;"⟩, ⟨'=', "&#61;"⟩, ⟨'>', "&gt;"⟩,
    ⟨'\u0060', "&#96;"⟩, ⟨'\u0085', "&#133;"⟩, ⟨'\u00a0', "&#160;"⟩, ⟨'\u2028', "&#8232;"⟩,
    ⟨'\u2029', "&#8233;"⟩]

def scriptStringEscapes : List Escape :=
  [⟨'\x00', "\\x00"⟩, ⟨'\x08', "\\x08"⟩, ⟨'\t', "\\t"⟩, ⟨'\n', "\\n"⟩, ⟨'\x0b', "\\x0b"⟩,
    ⟨'\x0c', "\\f"⟩, ⟨'\r', "\\r"⟩, ⟨'\"', "\\x22"⟩, ⟨'&', "\\x26"⟩, ⟨'\'', "\\x27"⟩,
    ⟨'/', "\\/"⟩, ⟨'<', "\\x3c"⟩, ⟨'=', "\\x3d"⟩, ⟨'>', "\\x3e"⟩, ⟨'\\', "\\\\"⟩,
    ⟨'\u0085', "\\x85"⟩, ⟨'\u2028', "\\u2028"⟩, ⟨'\u2029', "\\u2029"⟩]

/-- The escapes of pattern literals: those of strings, and a backslash before each mark. -/
def scriptPatternEscapes : List Escape :=
  let marks := "$()*+,-.:?[]^\x7b|\x7d".toList.map fun c => Escape.mk c (String.ofList ['\\', c])
  (scriptStringEscapes ++ marks).mergeSort fun e f => e.plain ≤ f.plain

def styleStringEscapes : List Escape :=
  [⟨'\x00', "\\0 "⟩, ⟨'\x08', "\\8 "⟩, ⟨'\t', "\\9 "⟩, ⟨'\n', "\\a "⟩, ⟨'\x0b', "\\b "⟩,
    ⟨'\x0c', "\\c "⟩, ⟨'\r', "\\d "⟩, ⟨'\"', "\\22 "⟩, ⟨'&', "\\26 "⟩, ⟨'\'', "\\27 "⟩,
    ⟨'(', "\\28 "⟩, ⟨')', "\\29 "⟩, ⟨'*', "\\2a "⟩, ⟨'/', "\\2f "⟩, ⟨':', "\\3a "⟩, ⟨';', "\\3b "⟩,
    ⟨'<', "\\3c "⟩, ⟨'=', "\\3d "⟩, ⟨'>', "\\3e "⟩, ⟨'@', "\\40 "⟩, ⟨'\\', "\\5c "⟩,
    ⟨'\x7b', "\\7b "⟩, ⟨'\x7d', "\\7d "⟩, ⟨'\u0085', "\\85 "⟩, ⟨'\u00a0', "\\a0 "⟩,
    ⟨'\u2028', "\\2028 "⟩, ⟨'\u2029', "\\2029 "⟩]

/-- Without the ampersand, so that entities that are there already stay as they are. -/
def normalizing (escapes : List Escape) : List Escape := escapes.filter (·.plain ≠ '&')

def anyCase (source : String) : Pattern := ⟨source, { Modes.plain with caseInsensitive := true }⟩

def styleValue : Pattern :=
  anyCase ("^(?!-*(?:expression|(?:moz-)?binding))"
    ++ "(?:[.#]?-?(?:[_a-z0-9-]+)(?:-[_a-z0-9-]+)*-?"
    ++ "|-?(?:[0-9]+(?:\\.[0-9]*)?|\\.[0-9]+)(?:[a-z]\x7b1,2\x7d|%)?|!important|)\\z")

def harmlessUri : Pattern := anyCase "^(?:(?:https?|mailto):|[^&:/?#]*(?:[/?#]|\\z))"

def attributeName : Pattern :=
  anyCase ("^(?!on|src|(?:style|action|archive|background|cite|classid|codebase|data|dsync|href"
    ++ "|longdesc|usemap)\\s*$)(?:[a-z0-9_$:-]*)\\z")

def elementName : Pattern :=
  anyCase "^(?!script|style|title|textarea|xmp|no)[a-z0-9_$:-]*\\z"

def escaping (name : String) (escapes : List Escape) : Directive := { ofName name with escapes }

def filtering (name : String) (filter : Pattern) (innocuous : String) : Directive :=
  { ofName name with filter := some filter, innocuous }

def directives : List Directive := [
  (escaping "|escapeHtml" htmlEscapes).function "goog.string.htmlEscape",
  escaping "|normalizeHtml" (normalizing htmlEscapes),
  escaping "|escapeHtmlNospace" htmlNospaceEscapes,
  escaping "|normalizeHtmlNospace" (normalizing htmlNospaceEscapes),
  escaping "|escapeJsString" scriptStringEscapes,
  escaping "|escapeJsRegex" scriptPatternEscapes,
  escaping "|escapeCssString" styleStringEscapes,
  filtering "|filterCssValue" styleValue innocuousOutput,
  ((escaping "|escapeUri" (percentEncoded uriPartSpecials)).function "goog.string.urlEncode").function
    "encodeURIComponent",
  escaping "|normalizeUri" (percentEncoded uriSpecials),
  { filtering "|filterNormalizeUri" harmlessUri ("#" ++ innocuousOutput) with
    escapes := percentEncoded uriSpecials },
  filtering "|filterHtmlAttributes" attributeName innocuousOutput,
  filtering "|filterHtmlElementName" elementName innocuousOutput]

end Autoescape.Directive.Builtin
