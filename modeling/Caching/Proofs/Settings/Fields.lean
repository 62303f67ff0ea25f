import Caching.Settings.Basic

/-!
# Settings by their fields

Settings are the values of their fields: two with the same values are the same.
-/

namespace Caching.Settings

/-- Settings whose fields have the same values are the same. -/
theorem ext_get? {s t : Settings} (h : ∀ field, s.get? field = t.get? field) : s = t := by
  have hmap {α : Type} {embed : α → Value} (hinj : ∀ a b, embed a = embed b → a = b)
      {x y : Option α} (hxy : x.map embed = y.map embed) : x = y :=
    Option.map_injective (fun a b ↦ hinj a b) hxy
  apply Settings.ext
  · exact hmap (fun _ _ ↦ Value.provider.inj) (h .provider)
  · exact hmap (fun _ _ ↦ Value.word.inj) (h .maxSize)
  · exact hmap (fun _ _ ↦ Value.expiryType.inj) (h .expiryType)
  · exact hmap (fun _ _ ↦ Value.word.inj) (h .expiryTimeMs)
  · exact hmap (fun _ _ ↦ Value.flag.inj) (h .highContention)

/-- Nothing is set in empty settings. -/
@[simp]
theorem get?_empty (field : Field) : empty.get? field = none := by
  cases field <;> rfl

/-- The settings with one field as in others. -/
def copy (s : Settings) (field : Field) (t : Settings) : Settings :=
  match field with
  | .provider => { s with provider := t.provider }
  | .maxSize => { s with maxSize := t.maxSize }
  | .expiryType => { s with expiryType := t.expiryType }
  | .expiryTimeMs => { s with expiryTimeMs := t.expiryTimeMs }
  | .highContention => { s with highContention := t.highContention }

/-- A field is as in the others after it was copied, and all others are as they were. -/
theorem get?_copy (s : Settings) (field other : Field) (t : Settings) :
    (s.copy field t).get? other = if other = field then t.get? other else s.get? other := by
  cases field <;> cases other <;> rfl

end Caching.Settings
