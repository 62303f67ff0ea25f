import Caching.Proofs.Text.Trimming
import Caching.Settings.Basic

/-!
# Names that identify

Where every member is listed and no two have the same name, a name finds exactly its member.
-/

namespace Caching.Named

/-- Every member is listed, and no two members have the same name. -/
class Lawful (α : Type) [Named α] : Prop where
  mem_members (a : α) : a ∈ Named.members
  name_inj {a b : α} (h : Named.name a = Named.name b) : a = b

instance : Lawful Provider where
  mem_members a := by cases a <;> decide
  name_inj {a b} := by cases a <;> cases b <;> decide

instance : Lawful ExpiryType where
  mem_members a := by cases a <;> decide
  name_inj {a b} := by cases a <;> cases b <;> decide

instance : Lawful Field where
  mem_members a := by cases a <;> decide
  name_inj {a b} := by cases a <;> cases b <;> decide

variable {α : Type} [Named α] [Lawful α]

/-- A name finds the member that has it. -/
theorem ofName?_eq_some_iff {text : String} {a : α} : ofName? text = some a ↔ name a = text := by
  unfold ofName?
  constructor
  · intro h
    simpa using List.find?_some h
  · rintro rfl
    cases h : List.find? (fun b : α ↦ name b == name a) members with
    | none => exact absurd (List.find?_eq_none.mp h a (Lawful.mem_members a)) (by simp)
    | some b =>
      have hname : name b = name a := by simpa using List.find?_some h
      rw [Lawful.name_inj hname]

/-- A name finds nothing if nothing has it. -/
theorem ofName?_eq_none_iff {text : String} :
    (ofName? text : Option α) = none ↔ ∀ a : α, name a ≠ text := by
  rw [Option.eq_none_iff_forall_ne_some]
  exact forall_congr' fun a ↦ not_congr ofName?_eq_some_iff

@[simp]
theorem ofName?_name (a : α) : ofName? (name a) = some a :=
  ofName?_eq_some_iff.mpr rfl

/-- A text names the member whose name is its canonical form. -/
theorem parse?_eq_some_iff {text : String} {a : α} :
    parse? text = some a ↔ canonical text = (name a).toList := by
  unfold parse?
  rw [ofName?_eq_some_iff, ← String.toList_inj, String.toList_ofList, eq_comm]

omit [Named α] [Lawful α] in
/-- Blanks around a text have no part in its canonical form. -/
theorem canonical_trimBlank (text : String) :
    canonical (String.ofList (Text.trimBlank text.toList)) = canonical text := by
  rw [canonical, canonical, String.toList_ofList, Text.trimBlank_trimBlank]

end Caching.Named
