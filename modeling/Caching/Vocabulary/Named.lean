import Caching.Text.Folding

/-!
# Named members

Kinds of finitely many members that travel through files and variables by name. Reading a name
ignores case and surrounding blanks and takes a hyphen for an underscore.
-/

namespace Caching

/-- A kind whose members have names. `kind` is what refusals call it, `tag` is the member's
name in diagnostic output. -/
class Named (α : Type) where
  kind : String
  members : List α
  name : α → String
  tag : α → String

namespace Named

variable {α : Type} [Named α]

/-- The form in which names are compared. -/
def canonical (text : String) : List Char :=
  (Text.lowercase (Text.trimBlank text.toList)).map fun c ↦ if c = '-' then '_' else c

/-- The member with exactly this name. -/
def ofName? (name : String) : Option α :=
  members.find? fun a ↦ Named.name a == name

/-- The member that the text names, blanks, case and hyphens aside. -/
def parse? (text : String) : Option α :=
  ofName? (String.ofList (canonical text))

/-- The wording of a refusal. -/
def refusal (α : Type) [Named α] (text : String) : String :=
  "Invalid " ++ Named.kind α ++ ": " ++ text

end Named

end Caching
