import Caching.Proofs.Text.Digits
import Caching.Text.Folding
import Mathlib.Data.List.TakeWhile

/-!
# Texts up to blanks and case

Trimming takes blanks off both ends and nothing else, so it may be done twice. On ASCII, lowercase
is a matter of each character.
-/

namespace Caching.Text

/-! ### Blanks at the ends -/

private theorem trimEnd_append {cs after : List Char} (h : ∀ c ∈ after, isBlank c = true) :
    trimEnd (cs ++ after) = trimEnd cs := by
  unfold trimEnd
  rw [List.reverse_append, List.dropWhile_append_of_pos]
  intro c hc
  exact h c (List.mem_reverse.mp hc)

/-- Blanks around a text do not count. -/
theorem trimBlank_append {before body after : List Char} (hbefore : ∀ c ∈ before, isBlank c = true)
    (hafter : ∀ c ∈ after, isBlank c = true) :
    trimBlank (before ++ body ++ after) = trimBlank body := by
  unfold trimBlank
  rw [List.append_assoc, List.dropWhile_append_of_pos hbefore, List.dropWhile_append]
  split
  · next hempty =>
    rw [List.isEmpty_iff.mp hempty]
    have hnil : after.dropWhile isBlank = [] := List.dropWhile_eq_nil_iff.mpr hafter
    rw [hnil]
  · exact trimEnd_append hafter

private theorem exists_eq_append_trimBlank (cs : List Char) :
    ∃ before after, (∀ c ∈ before, isBlank c = true) ∧ (∀ c ∈ after, isBlank c = true) ∧
      cs = before ++ trimBlank cs ++ after := by
  have htake {c : Char} {xs : List Char} (hc : c ∈ xs.takeWhile isBlank) : isBlank c = true :=
    List.mem_takeWhile_imp hc
  refine ⟨cs.takeWhile isBlank, ((cs.dropWhile isBlank).reverse.takeWhile isBlank).reverse,
    fun c hc ↦ htake hc, fun c hc ↦ htake (List.mem_reverse.mp hc), ?_⟩
  rw [trimBlank, trimEnd, List.append_assoc, ← List.reverse_append, List.takeWhile_append_dropWhile,
    List.reverse_reverse, List.takeWhile_append_dropWhile]

/-- Trimming again changes nothing. -/
theorem trimBlank_trimBlank (cs : List Char) : trimBlank (trimBlank cs) = trimBlank cs := by
  obtain ⟨before, after, hbefore, hafter, hcs⟩ := exists_eq_append_trimBlank cs
  calc trimBlank (trimBlank cs)
      = trimBlank (before ++ trimBlank cs ++ after) := (trimBlank_append hbefore hafter).symm
    _ = trimBlank cs := by rw [← hcs]

/-! ### Lowercase of ASCII -/

private theorem lowercaseChar_of_ascii {c : Char} (h : c.toNat < 128) :
    lowercaseChar c = [c.toLower] := by
  apply forall_between c 0 128 (Nat.zero_le _) (by omega)
  decide +kernel

private theorem lowercaseFrom_of_ascii {cs : List Char} (h : ∀ c ∈ cs, c.toNat < 128)
    (before : List Char) : lowercaseFrom before cs = cs.map Char.toLower := by
  induction cs generalizing before with
  | nil => rfl
  | cons c rest ih =>
    obtain ⟨hc, hrest⟩ := List.forall_mem_cons.mp h
    have hsigma : c ≠ 'Σ' := by
      rintro rfl
      exact absurd hc (by decide)
    rw [lowercaseFrom, if_neg hsigma, lowercaseChar_of_ascii hc, ih hrest]
    rfl

/-- On ASCII, lowercase is a matter of each character. -/
theorem lowercase_of_ascii {cs : List Char} (h : ∀ c ∈ cs, c.toNat < 128) :
    lowercase cs = cs.map Char.toLower :=
  lowercaseFrom_of_ascii h []

end Caching.Text
