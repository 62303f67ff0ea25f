import Caching.Json.Token
import Caching.Text.Quoted

/-!
# Problems of JSON documents

Why a document does not spell the value that was expected, with the wording of each refusal.
-/

namespace Caching.Json

/-- The first problem of a document. -/
inductive Problem where
  | malformed
  | invalidType (found expected : String)
  | invalidValue (found expected : String)
  | unknownField (name : String) (expected : List String)
  | unknownVariant (name : String) (expected : List String)
  | duplicateField (name : String)
  deriving DecidableEq, Repr

namespace Problem

/-- A choice of names, each between backquotes. -/
private def choice (names : List String) : String :=
  ", expected one of " ++ String.intercalate ", " (names.map fun name ↦ "`" ++ name ++ "`")

/-- The wording of the problem. -/
def message : Problem → String
  | malformed => "syntax"
  | invalidType found expected => "invalid type: " ++ found ++ ", expected " ++ expected
  | invalidValue found expected => "invalid value: " ++ found ++ ", expected " ++ expected
  | unknownField name expected => "unknown field `" ++ name ++ "`" ++ choice expected
  | unknownVariant name expected => "unknown variant `" ++ name ++ "`" ++ choice expected
  | duplicateField name => "duplicate field `" ++ name ++ "`"

end Problem

namespace Token

/-- The value that starts with the token, in the words of a refusal; `none` if no value does. -/
def describe? : Token → Option String
  | null => some "null"
  | flag b => some ("boolean `" ++ toString b ++ "`")
  | text s => some ("string " ++ Text.quoted s)
  | number (.whole n) => some ("integer `" ++ String.ofList (Text.decimal n.toNat) ++ "`")
  | number (.minus n) => some ("integer `-" ++ String.ofList (Text.decimal n) ++ "`")
  | number (.float t) => some ("floating point `" ++ t ++ "`")
  | openBracket => some "sequence"
  | openBrace => some "map"
  | closeBrace | closeBracket | comma | colon | malformed => none

/-- The problem that the token is where something else was expected. -/
def mismatch (token : Token) (expected : String) : Problem :=
  match token.describe? with
  | some found => .invalidType found expected
  | none => .malformed

end Token

end Caching.Json
