import Caching.Json.Reader
import Caching.Settings.Basic

/-!
# Settings from JSON

A document is an object with any of the fields, or an array of the first fields in their order. In
both, `null` leaves a field out. Fields that do not exist or occur twice are refused.
-/

namespace Caching.Settings

open Json (Problem Reader Token)

/-- Reads the value of a field into settings. -/
def readField (field : Field) (s : Settings) : Reader Settings := fun tokens ↦
  match field with
  | .provider => (Json.readOptional Json.readMember tokens).map fun (v, rest) ↦
    ({ s with provider := v }, rest)
  | .maxSize => (Json.readOptional Json.readWord tokens).map fun (v, rest) ↦
    ({ s with maxSize := v }, rest)
  | .expiryType => (Json.readOptional Json.readMember tokens).map fun (v, rest) ↦
    ({ s with expiryType := v }, rest)
  | .expiryTimeMs => (Json.readOptional Json.readWord tokens).map fun (v, rest) ↦
    ({ s with expiryTimeMs := v }, rest)
  | .highContention => (Json.readOptional Json.readFlag tokens).map fun (v, rest) ↦
    ({ s with highContention := v }, rest)

/-- The field with the name, unless it is among those that were read already. -/
def freshField (name : String) (fields : List Field) : Except Problem Field :=
  match Named.ofName? name with
  | none => .error (.unknownField name (Field.all.map Named.name))
  | some field =>
    if fields.contains field then .error (.duplicateField name) else .ok field

/-- Reads the members of an object from one name on. As no field occurs twice, the members come to
an end before `count` does. -/
def readMembers : Nat → List Field → Settings → Reader Settings
  | 0, _, _, _ => .error .malformed
  | count + 1, fields, s, .text name :: rest =>
    match freshField name fields, rest with
    | .error problem, _ => .error problem
    | .ok field, .colon :: rest =>
      match readField field s rest with
      | .error problem => .error problem
      | .ok (s, .closeBrace :: rest) => .ok (s, rest)
      | .ok (s, .comma :: rest) => readMembers count (field :: fields) s rest
      | .ok _ => .error .malformed
    | .ok _, _ => .error .malformed
  | _, _, _, _ => .error .malformed

/-- Reads the elements of an array from one value on. -/
def readElements : List Field → Settings → Reader Settings
  | [], _, _ => .error .malformed
  | field :: fields, s, tokens =>
    match readField field s tokens with
    | .error problem => .error problem
    | .ok (s, .closeBracket :: rest) => .ok (s, rest)
    | .ok (s, .comma :: rest) => readElements fields s rest
    | .ok _ => .error .malformed

/-- Reads settings. -/
def readTokens : Reader Settings
  | .openBrace :: .closeBrace :: rest => .ok (empty, rest)
  | .openBrace :: rest => readMembers (Field.all.length + 1) [] empty rest
  | .openBracket :: .closeBracket :: rest => .ok (empty, rest)
  | .openBracket :: rest => readElements Field.all empty rest
  | token :: _ => .error (token.mismatch "struct CacheSettings")
  | [] => .error .malformed

/-- The settings that a JSON document spells; `SPEC_FULL.md`, section 15.3. -/
def ofJson (text : String) : Except Problem Settings :=
  Json.readDocument readTokens text

end Caching.Settings
