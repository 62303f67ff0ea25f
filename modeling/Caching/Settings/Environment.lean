import Caching.Fault
import Caching.Settings.Basic

/-!
# Settings from variables

Each field has a variable, whose name is the field's in capitals behind a common beginning. Blanks
around a value do not count. The variables are read in the order of the fields, and the first that
is malformed is reported.
-/

namespace Caching.Settings

/-- The variable of a field; `SPEC_FULL.md`, section 15.3. -/
def variableOf (field : Field) : String :=
  "OMNICACHE_" ++ Named.tag field

/-- A truth value in one of several spellings; a text that spells none is given back in lowercase.
-/
def readSwitch (text : List Char) : Except String Bool :=
  let lowered := String.ofList (Text.lowercase text)
  if ["true", "1", "yes", "on"].contains lowered then .ok true
  else if ["false", "0", "no", "off"].contains lowered then .ok false
  else .error ("expected a boolean, got '" ++ lowered ++ "'")

/-- A number of 64 bits. -/
def readWord (text : List Char) : Except String UInt64 :=
  match Text.readUnsigned text with
  | .ok n => .ok (UInt64.ofNat n)
  | .error fault => .error fault.message

/-- A member by its name. -/
def readNamed {α : Type} [Named α] (text : List Char) : Except String α :=
  match Named.parse? (String.ofList text) with
  | some a => .ok a
  | none => .error (Named.refusal α (String.ofList text))

section

variable (lookup : String → Option String)

/-- The value of a field's variable, if there is one. -/
def readVariable {α : Type} (field : Field) (read : List Char → Except String α) :
    Except Fault (Option α) :=
  match lookup (variableOf field) with
  | none => .ok none
  | some text =>
    match read (Text.trimBlank text.toList) with
    | .ok a => .ok (some a)
    | .error problem =>
      .error (.config ("Invalid " ++ variableOf field ++ ": " ++ problem))

/-- The settings in the variables; `SPEC_FULL.md`, section 15.3. -/
def ofLookup : Except Fault Settings := do
  let provider ← readVariable lookup .provider readNamed
  let maxSize ← readVariable lookup .maxSize readWord
  let expiryType ← readVariable lookup .expiryType readNamed
  let expiryTimeMs ← readVariable lookup .expiryTimeMs readWord
  let highContention ← readVariable lookup .highContention readSwitch
  return { provider, maxSize, expiryType, expiryTimeMs, highContention }

end

/-- What the log says of settings that were found in the environment. -/
def environmentLog (s : Settings) : List LogEntry :=
  if s.isEmpty then []
  else [⟨.debug, "Cache settings loaded from environment variables", [("settings", s.debug)]⟩]

end Caching.Settings
