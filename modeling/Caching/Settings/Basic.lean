import Caching.Text.Unsigned
import Caching.Time.Duration
import Caching.Vocabulary.ExpiryType
import Caching.Vocabulary.Provider

/-!
# Settings

What a file or the environment may say about a cache. Every field may be left out; settings from
several sources are merged, the later ones over the earlier ones.
-/

namespace Caching

/-- The fields of settings, in the order in which they are written. -/
inductive Field where
  | provider
  | maxSize
  | expiryType
  | expiryTimeMs
  | highContention
  deriving DecidableEq, Repr

namespace Field

instance : Named Field where
  kind := "Field"
  members := [provider, maxSize, expiryType, expiryTimeMs, highContention]
  name
    | provider => "provider"
    | maxSize => "max_size"
    | expiryType => "expiry_type"
    | expiryTimeMs => "expiry_time_ms"
    | highContention => "high_contention"
  tag
    | provider => "PROVIDER"
    | maxSize => "MAX_SIZE"
    | expiryType => "EXPIRY_TYPE"
    | expiryTimeMs => "EXPIRY_TIME_MS"
    | highContention => "HIGH_CONTENTION"

/-- The fields by position. -/
def all : List Field :=
  Named.members

end Field

/-- Settings of a cache, each of which may be missing; `SPEC_FULL.md`, section 15.3. -/
@[ext]
structure Settings where
  provider : Option Provider
  maxSize : Option UInt64
  expiryType : Option ExpiryType
  expiryTimeMs : Option UInt64
  highContention : Option Bool
  deriving DecidableEq, Repr

namespace Settings

/-- Settings that say nothing. -/
def empty : Settings :=
  ⟨none, none, none, none, none⟩

/-- Nothing is set. -/
def isEmpty (s : Settings) : Bool :=
  decide (s = empty)

/-- The expiry time as a duration. -/
def expiryTime (s : Settings) : Option Duration :=
  s.expiryTimeMs.map .ofMillis

/-- The settings of both; where both say something, the later ones count; `SPEC_FULL.md`,
section 15.3. -/
def merge (earlier later : Settings) : Settings where
  provider := later.provider.or earlier.provider
  maxSize := later.maxSize.or earlier.maxSize
  expiryType := later.expiryType.or earlier.expiryType
  expiryTimeMs := later.expiryTimeMs.or earlier.expiryTimeMs
  highContention := later.highContention.or earlier.highContention

/-- Merging over nothing changes nothing. -/
theorem empty_merge (s : Settings) : empty.merge s = s := by
  simp [merge, empty]

/-- Merging nothing changes nothing. -/
theorem merge_empty (s : Settings) : s.merge empty = s := by
  simp [merge, empty]

/-- Merging is associative. -/
theorem merge_assoc (a b c : Settings) : (a.merge b).merge c = a.merge (b.merge c) := by
  simp [merge, Option.or_assoc]

/-- The value of a field. -/
inductive Value where
  | provider (p : Provider)
  | expiryType (e : ExpiryType)
  | word (n : UInt64)
  | flag (b : Bool)
  deriving DecidableEq, Repr

/-- The value of a field, if it is set. -/
def get? (s : Settings) : Field → Option Value
  | .provider => s.provider.map .provider
  | .maxSize => s.maxSize.map .word
  | .expiryType => s.expiryType.map .expiryType
  | .expiryTimeMs => s.expiryTimeMs.map .word
  | .highContention => s.highContention.map .flag

/-- A value as files write it: names between quotes, the rest bare. -/
def Value.text : Value → String
  | .provider p => "\"" ++ Named.name p ++ "\""
  | .expiryType e => "\"" ++ Named.name e ++ "\""
  | .word n => String.ofList (Text.decimal n.toNat)
  | .flag b => toString b

/-- A value as diagnostic output shows it. -/
def Value.debug : Value → String
  | .provider p => Named.tag p
  | .expiryType e => Named.tag e
  | .word n => String.ofList (Text.decimal n.toNat)
  | .flag b => toString b

/-- One member of a list in diagnostic output. -/
private def debugField (s : Settings) (field : Field) : String :=
  Named.name field ++ ": " ++
    match s.get? field with
    | some value => "Some(" ++ value.debug ++ ")"
    | none => "None"

/-- The settings as diagnostic output shows them. -/
def debug (s : Settings) : String :=
  "CacheSettings \x7b " ++ String.intercalate ", " (Field.all.map s.debugField) ++ " \x7d"

/-- The settings as a JSON object, in which a missing field is `null`. -/
def toJson (s : Settings) : String :=
  "\x7b" ++ String.intercalate "," (Field.all.map fun field ↦
    "\"" ++ Named.name field ++ "\":" ++ ((s.get? field).map Value.text).getD "null") ++ "\x7d"

/-- The settings as a TOML document: a line for each field that is set. -/
def toToml (s : Settings) : String :=
  String.join (Field.all.map fun field ↦
    match s.get? field with
    | some value => Named.name field ++ " = " ++ value.text ++ "\n"
    | none => "")

end Settings

end Caching
