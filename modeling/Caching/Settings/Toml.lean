import Caching.Settings.Basic
import Caching.Toml.Reader

/-!
# Settings from TOML

A document has a key for each field that it sets, and no others. Members are named by a string, or
by a table whose only key is the name, with nothing under it.
-/

namespace Caching.Settings

/-- A number of 64 bits. -/
def word? : Toml.Value → Option UInt64
  | .number n => if n < Text.wordBound then some (UInt64.ofNat n) else none
  | _ => none

/-- A truth value. -/
def flag? : Toml.Value → Option Bool
  | .flag b => some b
  | _ => none

/-- A named member. -/
def member? {α : Type} [Named α] : Toml.Value → Option α
  | .text name => Named.ofName? name
  | .table _ [(name, .table _ [])] | .table _ [(name, .emptyArray)] => Named.ofName? name
  | _ => none

/-- The value under a key, in the form that its field needs; fails if the form is another one. -/
def field? {α : Type} (t : Toml.Table) (field : Field) (read : Toml.Value → Option α) :
    Option (Option α) :=
  match t.find? (Named.name field) with
  | none => some none
  | some v => (read v).map some

/-- The settings that a TOML document spells; `SPEC_FULL.md`, section 15.3. -/
def ofToml? (text : String) : Option Settings := do
  let t ← Toml.ofText? text
  if t.all fun e ↦ (Named.ofName? e.1 : Option Field).isSome then
    let provider ← field? t .provider member?
    let maxSize ← field? t .maxSize word?
    let expiryType ← field? t .expiryType member?
    let expiryTimeMs ← field? t .expiryTimeMs word?
    let highContention ← field? t .highContention flag?
    return { provider, maxSize, expiryType, expiryTimeMs, highContention }
  else none

end Caching.Settings
