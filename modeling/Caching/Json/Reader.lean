import Caching.Json.Problem
import Caching.Vocabulary.Named

/-!
# Reading values from JSON tokens

Each reader takes its value from the front of the tokens and gives what is left, or the first
problem in the order of the text.
-/

namespace Caching.Json

/-- Takes a value from the front of the tokens. -/
abbrev Reader (α : Type) := List Token → Except Problem (α × List Token)

/-- A number of 64 bits. -/
def readWord : Reader UInt64
  | .number (.whole n) :: rest => .ok (n, rest)
  | .number (.minus n) :: _ =>
    .error (.invalidValue ("integer `-" ++ String.ofList (Text.decimal n) ++ "`") "u64")
  | token :: _ => .error (token.mismatch "u64")
  | [] => .error .malformed

/-- A truth value. -/
def readFlag : Reader Bool
  | .flag b :: rest => .ok (b, rest)
  | token :: _ => .error (token.mismatch "a boolean")
  | [] => .error .malformed

section

variable {α : Type} [Named α]

/-- The member with the given name. -/
def member (name : String) : Except Problem α :=
  match Named.ofName? name with
  | some a => .ok a
  | none => .error (.unknownVariant name ((Named.members (α := α)).map Named.name))

/-- What follows the name of a member in an object: nothing but `null`. -/
def readUnit (a : α) : Reader α
  | .colon :: .null :: .closeBrace :: rest => .ok (a, rest)
  | .colon :: .null :: _ => .error .malformed
  | .colon :: token :: _ => .error (token.mismatch "unit")
  | _ => .error .malformed

/-- A named member: its name as a string, or an object that gives its name the value `null`. -/
def readMember : Reader α
  | .text name :: rest => (member name).map fun a ↦ (a, rest)
  | .openBrace :: .text name :: rest => do readUnit (← member name) rest
  | .openBrace :: token :: _ => .error (token.mismatch "variant identifier")
  | _ => .error .malformed

end

/-- A value, or `null` for its absence. -/
def readOptional {α : Type} (read : Reader α) : Reader (Option α)
  | .null :: rest => .ok (none, rest)
  | tokens => (read tokens).map fun (a, rest) ↦ (some a, rest)

/-- The value of a whole document. -/
def readDocument {α : Type} (read : Reader α) (text : String) : Except Problem α :=
  match read (tokens text.toList) with
  | .ok (a, []) => .ok a
  | .ok (_, _ :: _) => .error .malformed
  | .error problem => .error problem

/-- A name as a JSON string; names need no escapes. -/
def nameText (name : String) : String :=
  "\"" ++ name ++ "\""

end Caching.Json
