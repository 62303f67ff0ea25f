import Caching.Proofs.Json.Grammar

/-!
# Reading strings

A string is read as the text that it spells, however its characters are written.
-/

namespace Caching.Json

/-! ### Characters by number -/

private theorem hexValue?_of_isHexDigit {n : Nat} {c : Char} (h : IsHexDigit n c) :
    Text.hexValue? c = some n := by
  have hall : ∀ n : Fin 16, Text.hexValue? (Nat.digitChar n) = some n.val ∧
      Text.hexValue? (Nat.digitChar n).toUpper = some n.val := by
    decide
  obtain ⟨hlt, rfl | rfl⟩ := h
  · exact (hall ⟨n, hlt⟩).1
  · exact (hall ⟨n, hlt⟩).2

private theorem hexWord?_of_isUnit {n : Nat} {cs : List Char} (h : IsUnit n cs) :
    ∃ a b c d, cs = ['\\', 'u', a, b, c, d] ∧ hexWord? a b c d = some n := by
  obtain ⟨w, x, y, z, a, b, c, d, ha, hb, hc, hd, rfl, rfl⟩ := h
  refine ⟨a, b, c, d, rfl, ?_⟩
  simp [hexWord?, Text.digitsValue?, hexValue?_of_isHexDigit ha, hexValue?_of_isHexDigit hb,
    hexValue?_of_isHexDigit hc, hexValue?_of_isHexDigit hd, ha.1, hb.1, hc.1, hd.1, Nat.mul_comm]

private theorem readString_unit {c : Char} {spelled rest : List Char} (h : IsUnit c.toNat spelled) :
    readString (spelled ++ rest) = (readString rest).map (push c) := by
  obtain ⟨a, b, d, e, rfl, hword⟩ := hexWord?_of_isUnit h
  have hvalid : c.toNat < 0xD800 ∨ 0xDFFF < c.toNat := by
    rcases c.valid with hlow | hhigh
    · exact .inl hlow
    · exact .inr hhigh.1
  rw [List.cons_append, List.cons_append, List.cons_append, List.cons_append, List.cons_append,
    List.cons_append, List.nil_append, readString]
  simp only [hword, Char.ofNat_toNat]
  rw [if_neg (by omega), if_neg (by omega)]

private theorem readString_pair {c : Char} {high low rest : List Char} (hplane : 0x10000 ≤ c.toNat)
    (hhigh : IsUnit (0xD800 + (c.toNat - 0x10000) / 0x400) high)
    (hlow : IsUnit (0xDC00 + (c.toNat - 0x10000) % 0x400) low) :
    readString (high ++ low ++ rest) = (readString rest).map (push c) := by
  obtain ⟨a, b, d, e, rfl, hhighWord⟩ := hexWord?_of_isUnit hhigh
  obtain ⟨a', b', d', e', rfl, hlowWord⟩ := hexWord?_of_isUnit hlow
  have hbound : c.toNat < 0x110000 := by
    rcases c.valid with hlow | hhigh
    · have : c.toNat < 0xD800 := hlow
      omega
    · exact hhigh.2
  have hchar : Char.ofNat (0x10000 + 0x400 * (0xD800 + (c.toNat - 0x10000) / 0x400 - 0xD800) +
      (0xDC00 + (c.toNat - 0x10000) % 0x400 - 0xDC00)) = c := by
    rw [show 0x10000 + 0x400 * (0xD800 + (c.toNat - 0x10000) / 0x400 - 0xD800) +
      (0xDC00 + (c.toNat - 0x10000) % 0x400 - 0xDC00) = c.toNat by omega, Char.ofNat_toNat]
  simp only [List.cons_append, List.nil_append]
  rw [readString]
  simp only [hhighWord, hlowWord]
  rw [if_pos (by omega), if_pos (by omega), hchar]

/-! ### Characters in any form -/

private theorem readString_append {c : Char} {spelled : List Char} (h : SpellsChar c spelled)
    (rest : List Char) : readString (spelled ++ rest) = (readString rest).map (push c) := by
  cases h with
  | raw hcontrol hquote hslash =>
    rw [List.cons_append, List.nil_append, readString]
    · rw [if_neg (by simp [hslash]; omega)]
    all_goals simp [hquote, hslash]
  | letter hmem =>
    simp only [letters, List.mem_cons, Prod.mk.injEq, List.not_mem_nil, or_false] at hmem
    rcases hmem with h | h | h | h | h | h | h | h <;> obtain ⟨rfl, rfl⟩ := h <;>
      simp [readString, escaped?]
  | unit hunit => exact readString_unit hunit
  | pair hplane hhigh hlow => exact readString_pair hplane hhigh hlow

/-- A string is read up to its closing quote. -/
theorem readString_of_spells {cs body : List Char} (h : SpellsText cs body) (rest : List Char) :
    readString (body ++ '"' :: rest) = some (cs, rest) := by
  induction h with
  | nil => simp [readString]
  | cons hchar hrest ih => rw [List.append_assoc, readString_append hchar, ih]; rfl

end Caching.Json
