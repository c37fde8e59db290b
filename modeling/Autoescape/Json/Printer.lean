import Autoescape.Json.Token

/-!
# Writing JSON values

A value is written as its tokens in order, without blanks between them.
-/
namespace Autoescape.Json

mutual

def tokens : Json → List Token
  | .null => [.null]
  | .bool b => [.bool b]
  | .number d => [.number d]
  | .string units => [.string units]
  | .list items => .openList :: (itemTokens items ++ [.closeList])
  | .record fields => .openRecord :: (fieldTokens fields ++ [.closeRecord])

def itemTokens : List Json → List Token
  | [] => []
  | v :: rest => tokens v ++ itemsAfter rest

/-- The tokens of further elements, each behind a comma. -/
def itemsAfter : List Json → List Token
  | [] => []
  | v :: rest => .comma :: (tokens v ++ itemsAfter rest)

def fieldTokens : List (List UInt16 × Json) → List Token
  | [] => []
  | (key, v) :: rest => .string key :: .colon :: (tokens v ++ fieldsAfter rest)

def fieldsAfter : List (List UInt16 × Json) → List Token
  | [] => []
  | (key, v) :: rest => .comma :: .string key :: .colon :: (tokens v ++ fieldsAfter rest)

end

def render (v : Json) : String := String.ofList (v.tokens.flatMap Token.text)

end Autoescape.Json
