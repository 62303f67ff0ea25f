import Caching.Text.Unsigned

/-!
# Numerals

One or more decimal digits, and the number that they spell. Reading a numeral of any length succeeds
exactly if its number fits 64 bits. A number is written without zeros in front.
-/

namespace Caching.Text

/-- What holds of all characters from one number on, as many as there are, holds of each of them. -/
theorem forall_between {P : Char → Prop} (c : Char) (first count : Nat)
    (hfirst : first ≤ c.toNat) (hlast : c.toNat < first + count)
    (h : ∀ n : Fin count, P (Char.ofNat (first + n))) : P c := by
  have hc := h ⟨c.toNat - first, by omega⟩
  rwa [show first + (c.toNat - first) = c.toNat by omega, Char.ofNat_toNat] at hc

/-- What holds of all ten digits holds of each. -/
theorem forall_digit {P : Char → Prop} {c : Char} (hc : c.isDigit = true)
    (h : ∀ n : Fin 10, P (Char.ofNat (48 + n))) : P c := by
  have hrange : 48 ≤ c.toNat ∧ c.toNat ≤ 57 := by
    simpa [Char.isDigit, UInt32.le_iff_toNat_le] using hc
  exact forall_between c 48 10 hrange.1 (by omega) h

/-- One or more digits. -/
structure IsNumeral (cs : List Char) : Prop where
  nonempty : cs ≠ []
  digits : ∀ c ∈ cs, c.isDigit = true

/-- The number that digits spell. -/
def valueOf (cs : List Char) : Nat :=
  Nat.ofDigitChars 10 cs 0

/-! ### Reading numerals -/

/-- More digits never make a number smaller. -/
theorem le_ofDigitChars (cs : List Char) (acc : Nat) : acc ≤ Nat.ofDigitChars 10 cs acc := by
  induction cs generalizing acc with
  | nil => exact Nat.le_refl acc
  | cons c rest ih =>
    calc acc
        ≤ 10 * acc + digitValue c := by omega
      _ ≤ Nat.ofDigitChars 10 rest (10 * acc + digitValue c) := ih _

private theorem readDigits_eq_ok_iff {acc n : Nat} {cs : List Char} (hacc : acc < wordBound) :
    readDigits acc cs = .ok n ↔ (∀ c ∈ cs, c.isDigit = true) ∧
      Nat.ofDigitChars 10 cs acc = n ∧ n < wordBound := by
  induction cs generalizing acc with
  | nil =>
    rw [readDigits, Except.ok.injEq]
    constructor
    · rintro rfl
      exact ⟨by simp, rfl, hacc⟩
    · rintro ⟨-, rfl, -⟩
      rfl
  | cons c rest ih =>
    have hgrows := le_ofDigitChars rest (10 * acc + digitValue c)
    have hcons : Nat.ofDigitChars 10 (c :: rest) acc =
        Nat.ofDigitChars 10 rest (10 * acc + digitValue c) := rfl
    rw [readDigits, hcons]
    cases hc : c.isDigit with
    | false => simp [hc]
    | true =>
      by_cases hlt : 10 * acc + digitValue c < wordBound
      · simp [hc, hlt, ih hlt]
      · simp only [hlt, Bool.not_true, Bool.false_eq_true, if_false, reduceCtorEq, false_iff,
          not_and]
        rintro - rfl
        omega

/-- A number is a numeral whose value fits 64 bits, with or without a plus sign. -/
theorem readUnsigned_eq_ok_iff {cs : List Char} {n : Nat} :
    readUnsigned cs = .ok n ↔ ∃ digits, (cs = digits ∨ cs = '+' :: digits) ∧ IsNumeral digits ∧
      valueOf digits = n ∧ n < wordBound := by
  have hplus : ('+' : Char).isDigit = false := rfl
  have hread {digits : List Char} : readDigits 0 digits = .ok n ↔
      (∀ c ∈ digits, c.isDigit = true) ∧ valueOf digits = n ∧ n < wordBound :=
    readDigits_eq_ok_iff (by decide)
  constructor
  · intro h
    unfold readUnsigned at h
    split at h
    · cases h
    · cases h
    · next digits hne =>
      obtain ⟨hdigits, hvalue⟩ := hread.mp h
      exact ⟨digits, .inr rfl, ⟨fun hnil ↦ hne (by rw [hnil]), hdigits⟩, hvalue⟩
    · next hempty _ _ =>
      obtain ⟨hdigits, hvalue⟩ := hread.mp h
      exact ⟨cs, .inl rfl, ⟨hempty, hdigits⟩, hvalue⟩
  · rintro ⟨digits, hcs, ⟨hne, hdigits⟩, hvalue⟩
    have hok := hread.mpr ⟨hdigits, hvalue⟩
    obtain ⟨c, rest, rfl⟩ := List.exists_cons_of_ne_nil hne
    rcases hcs with rfl | rfl
    · have hc : c ≠ '+' := by
        rintro rfl
        exact absurd (hdigits _ List.mem_cons_self) (by rw [hplus]; exact Bool.false_ne_true)
      rwa [readUnsigned]
      all_goals simp [hc]
    · rwa [readUnsigned]
      simp

/-! ### Writing numerals -/

theorem isNumeral_decimal (n : Nat) : IsNumeral (decimal n) where
  nonempty := Nat.toDigits_ne_nil
  digits _ hc := Nat.isDigit_of_mem_toDigits (by decide) (by decide) hc

@[simp]
theorem valueOf_decimal (n : Nat) : valueOf (decimal n) = n :=
  Nat.ofDigitChars_toDigits (by decide) (by decide)

/-- There are no zeros in front. -/
def IsUnpadded (cs : List Char) : Prop :=
  cs.head? = some '0' → cs = ['0']

/-- No number is written with zeros in front. -/
theorem isUnpadded_decimal (n : Nat) : IsUnpadded (decimal n) := by
  induction n using Nat.strongRecOn with
  | ind n ih =>
    intro hzero
    unfold decimal at hzero ⊢
    rw [Nat.toDigits_eq_if (by decide)] at hzero ⊢
    split at hzero
    · next hlt =>
      rw [if_pos hlt]
      rw [List.head?_cons, Option.some.injEq] at hzero
      rw [hzero]
    · next hle =>
      -- the digits before the last one would be a zero alone, but they spell a larger number
      have hfront : (decimal (n / 10)).head? = some '0' := by
        rw [List.head?_append] at hzero
        cases hhead : (Nat.toDigits 10 (n / 10)).head? with
        | none => exact absurd (List.head?_eq_none_iff.mp hhead) Nat.toDigits_ne_nil
        | some c =>
          rw [hhead] at hzero
          exact hhead.trans hzero
      have hvalue := congrArg valueOf (ih (n / 10) (by omega) hfront)
      have hnone : valueOf ['0'] = 0 := rfl
      rw [valueOf_decimal, hnone] at hvalue
      omega

end Caching.Text
