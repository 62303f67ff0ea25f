import Caching.Proofs.Json.Grammar

/-!
# Reading number literals

A literal is read as a whole number exactly if it is a plain non-negative integer that fits 64 bits.
Every other literal has a sign, or goes on after its whole part, or is too large, and all of these
lead to numbers of another kind.
-/

namespace Caching.Json

open Text (IsNumeral IsUnpadded)

/-- The characters do not start with a digit. -/
def NoDigit (cs : List Char) : Prop :=
  ∀ c rest, cs = c :: rest → c.isDigit = false

/-- A literal may end in front of the characters: they do not continue it. -/
structure EndsNumber (cs : List Char) : Prop where
  noDigit : NoDigit cs
  stops : continues cs = false

/-- The value of a literal that stands for one of the numbers of 64 bits. -/
def Literal.word? (l : Literal) : Option UInt64 :=
  if l.negative = false ∧ l.fraction = [] ∧ l.exponent = [] ∧ Text.valueOf l.whole < Text.wordBound
  then some (UInt64.ofNat (Text.valueOf l.whole)) else none

theorem Literal.word?_eq_some_iff {l : Literal} {n : UInt64} : l.word? = some n ↔ l.IsWord n := by
  unfold word?
  constructor
  · intro h
    split at h
    · next hplain =>
      obtain ⟨hunsigned, hfraction, hexponent, hlt⟩ := hplain
      refine ⟨hunsigned, hfraction, hexponent, ?_⟩
      rw [← Option.some.inj h]
      exact (UInt64.toNat_ofNat_of_lt' hlt).symm
    · cases h
  · rintro ⟨hunsigned, hfraction, hexponent, hvalue⟩
    have hlt : Text.valueOf l.whole < Text.wordBound := by
      rw [hvalue]
      exact n.toNat_lt
    rw [if_pos ⟨hunsigned, hfraction, hexponent, hlt⟩, hvalue, UInt64.ofNat_toNat]

@[simp]
theorem Literal.word?_ofNat (n : UInt64) : (Literal.ofNat n.toNat).word? = some n :=
  word?_eq_some_iff.mpr ⟨rfl, rfl, rfl, Text.valueOf_decimal n.toNat⟩

/-! ### The significand -/

private theorem readSignificand_of_left {significand taken left : Nat} {digits after : List Char}
    (hleft : left ≠ 0) (hdigits : ∀ c ∈ digits, c.isDigit = true)
    (hafter : NoDigit after) :
    readSignificand significand taken left (digits ++ after) =
      (significand, taken, left + digits.length, after) := by
  induction digits generalizing left with
  | nil =>
    cases after with
    | nil => simp [readSignificand]
    | cons c rest => simp [readSignificand, hafter c rest rfl]
  | cons c rest ih =>
    have hc := hdigits c List.mem_cons_self
    rw [List.cons_append, readSignificand]
    simp only [hc, hleft, Bool.not_true, Bool.false_eq_true, if_false, false_and]
    rw [ih (Nat.succ_ne_zero left) fun d hd ↦ hdigits d (List.mem_cons_of_mem c hd),
      List.length_cons]
    congr 3
    omega

private theorem readSignificand_append (acc taken : Nat) {digits after : List Char}
    (hacc : acc < Text.wordBound) (hdigits : ∀ c ∈ digits, c.isDigit = true)
    (hafter : NoDigit after) :
    ∃ significand count left,
      readSignificand acc taken 0 (digits ++ after) = (significand, count, left, after) ∧
      (left = 0 ↔ Nat.ofDigitChars 10 digits acc < Text.wordBound) ∧
      (left = 0 → significand = Nat.ofDigitChars 10 digits acc) := by
  induction digits generalizing acc taken with
  | nil =>
    refine ⟨acc, taken, 0, ?_, by simpa using hacc, fun _ ↦ rfl⟩
    cases after with
    | nil => simp [readSignificand]
    | cons c rest => simp [readSignificand, hafter c rest rfl]
  | cons c rest ih =>
    have hc := hdigits c List.mem_cons_self
    have hrest := fun d hd ↦ hdigits d (List.mem_cons_of_mem c hd)
    have hcons : Nat.ofDigitChars 10 (c :: rest) acc =
        Nat.ofDigitChars 10 rest (10 * acc + Text.digitValue c) := rfl
    rw [List.cons_append, readSignificand, hcons]
    by_cases hlt : 10 * acc + Text.digitValue c < Text.wordBound
    · simpa only [hc, hlt, Bool.not_true, Bool.false_eq_true, if_false, and_self, if_true]
        using ih _ _ hlt hrest
    · have hgrows := Text.le_ofDigitChars rest (10 * acc + Text.digitValue c)
      simp only [hc, hlt, Bool.not_true, Bool.false_eq_true, if_false, and_false]
      rw [readSignificand_of_left Nat.one_ne_zero hrest hafter]
      exact ⟨_, _, _, rfl, by omega, fun h ↦ absurd h (by omega)⟩

/-! ### Numbers of another kind -/

/-- The number is a floating-point number. -/
def Number.IsFloat (n : Number) : Prop :=
  ∃ text, n = .float text

private theorem isFloat_of_floatOf {negative : Bool} {significand : Nat} {power : Int} {n : Number}
    {left rest : List Char}
    (h : (do return (← floatOf negative significand power, left)) = some (n, rest)) :
    n.IsFloat ∧ rest = left := by
  obtain ⟨x, hx, hpair⟩ := Option.bind_eq_some_iff.mp h
  cases hpair
  obtain ⟨y, -, hy⟩ := Option.bind_eq_some_iff.mp hx
  cases hy
  exact ⟨⟨_, rfl⟩, rfl⟩

theorem length_readSignificand (significand taken left : Nat) (cs : List Char) :
    (readSignificand significand taken left cs).2.2.2.length ≤ cs.length := by
  fun_induction readSignificand significand taken left cs with
  | case1 => exact Nat.le_refl _
  | case2 => exact Nat.le_refl _
  | case3 _ _ _ _ _ _ _ _ ih => exact Nat.le_succ_of_le ih
  | case4 _ _ _ _ _ _ _ _ ih => exact Nat.le_succ_of_le ih

private theorem isFloat_of_readExponent {negative : Bool} {significand : Nat} {power : Int}
    {cs rest : List Char} {n : Number}
    (h : readExponent negative significand power cs = some (n, rest)) :
    n.IsFloat ∧ rest.length ≤ cs.length := by
  have hdrop (cs : List Char) : (cs.dropWhile Char.isDigit).length ≤ cs.length :=
    (List.dropWhile_suffix _).length_le
  simp only [readExponent] at h
  -- with either sign and without one
  split at h
  all_goals
    split at h
    · cases h
    · split at h
      · split at h
        · cases h
        · cases h
          exact ⟨⟨_, rfl⟩, Nat.le_trans (hdrop _) (by simp)⟩
      · obtain ⟨hfloat, rfl⟩ := isFloat_of_floatOf h
        exact ⟨hfloat, Nat.le_trans (hdrop _) (by simp)⟩

/-- A literal that is read on after its whole part is a floating-point number. -/
theorem isFloat_of_readTail {negative : Bool} {significand : Nat} {power : Int}
    {cs rest : List Char} {n : Number}
    (h : readTail negative significand power cs = some (n, rest)) :
    n.IsFloat ∧ rest.length ≤ cs.length := by
  have hexponent {significand power : _} {c : Char} {cs : List Char}
      (h : readExponent negative significand power cs = some (n, rest)) :
      n.IsFloat ∧ rest.length ≤ (c :: cs).length :=
    (isFloat_of_readExponent h).imp_right Nat.le_succ_of_le
  simp only [readTail] at h
  split at h
  · next fraction =>
    have htaken := length_readSignificand significand 0 0 fraction
    split at h
    · cases h
    · split at h
      · next heq =>
        rw [heq] at htaken
        exact (hexponent h).imp_right fun hle ↦
          Nat.le_trans hle (Nat.le_succ_of_le htaken)
      · next heq =>
        rw [heq] at htaken
        exact (hexponent h).imp_right fun hle ↦
          Nat.le_trans hle (Nat.le_succ_of_le htaken)
      · obtain ⟨hfloat, rfl⟩ := isFloat_of_floatOf h
        exact ⟨hfloat, Nat.le_succ_of_le htaken⟩
  · exact hexponent h
  · exact hexponent h
  · obtain ⟨hfloat, rfl⟩ := isFloat_of_floatOf h
    exact ⟨hfloat, Nat.le_refl _⟩

private theorem readTail_ne_whole {negative : Bool} {significand : Nat} {power : Int}
    {cs rest : List Char} {n : UInt64} :
    readTail negative significand power cs ≠ some (.whole n, rest) := by
  intro h
  obtain ⟨⟨text, htext⟩, -⟩ := isFloat_of_readTail h
  cases htext

private theorem readNumber_true_ne_whole {cs rest : List Char} {n : UInt64} :
    readNumber true cs ≠ some (.whole n, rest) := by
  intro h
  unfold readNumber at h
  split at h
  · cases h
  · split at h
    · cases h
    · split at h
      · exact readTail_ne_whole h
      · simp at h
  · split at h
    · cases h
    · dsimp only at h
      split at h
      · exact readTail_ne_whole h
      · rw [if_neg (by decide)] at h
        split at h
        · exact readTail_ne_whole h
        · cases h

/-! ### Whole literals -/

/-- The whole part of a literal is taken as long as it fits 64 bits, and the literal ends behind it
if it fits and nothing continues it. -/
theorem readNumber_append {whole after : List Char} (hwhole : IsNumeral whole)
    (hunpadded : IsUnpadded whole) (hafter : NoDigit after) :
    ∃ significand left : Nat, (left = 0 ↔ Text.valueOf whole < Text.wordBound) ∧
      (left = 0 → significand = Text.valueOf whole) ∧
      readNumber false (whole ++ after) =
        if left ≠ 0 ∨ continues after then readTail false significand left after
        else some (.whole (UInt64.ofNat significand), after) := by
  obtain ⟨c, rest, rfl⟩ := List.exists_cons_of_ne_nil hwhole.nonempty
  have hc := hwhole.digits c List.mem_cons_self
  by_cases hzero : c = '0' ∧ after ≠ []
  · -- a zero has a case of its own, since nothing but the end or a mark may follow it
    obtain ⟨rfl, hne⟩ := hzero
    obtain rfl : rest = [] := by simpa using hunpadded rfl
    obtain ⟨d, after, rfl⟩ := List.exists_cons_of_ne_nil hne
    refine ⟨0, 0, by decide, fun _ ↦ rfl, ?_⟩
    simp [readNumber, hafter d after rfl]
  · obtain ⟨significand, count, left, hread, hleft, hvalue⟩ :=
      readSignificand_append 0 0 (by decide) hwhole.digits hafter
    refine ⟨significand, left, hleft, hvalue, ?_⟩
    rw [List.cons_append] at hread ⊢
    rw [readNumber, hread, hc]
    · simp
    · rintro d tail rfl heq
      obtain rfl : rest = [] := by simpa using hunpadded rfl
      rw [List.nil_append] at heq
      exact hzero ⟨rfl, heq ▸ List.cons_ne_nil d tail⟩

private theorem Literal.endsNumber_tail {l : Literal} {after : List Char}
    (hafter : EndsNumber after) : NoDigit (l.fraction ++ (l.exponent ++ after)) ∧
      (continues (l.fraction ++ (l.exponent ++ after)) = false ↔
        l.fraction = [] ∧ l.exponent = []) := by
  rcases l.fraction_form with hfraction | ⟨digits, hfraction, -⟩
  · rcases l.exponent_form with hexponent | ⟨mark, sign, digits, hexponent, hmark, -, -⟩
    · rw [hfraction, hexponent]
      exact ⟨hafter.noDigit, by simpa using hafter.stops⟩
    · rw [hfraction, hexponent]
      rcases hmark with rfl | rfl
      · exact ⟨by rintro c rest ⟨⟩; rfl, by simp [continues]⟩
      · exact ⟨by rintro c rest ⟨⟩; rfl, by simp [continues]⟩
  · rw [hfraction]
    exact ⟨by rintro c rest ⟨⟩; rfl, by simp [continues]⟩

/-- A literal is read as a whole number exactly if it stands for one of 64 bits, and all of it is
read. -/
theorem readNumber_eq_whole_iff {l : Literal} {after rest : List Char} {n : UInt64}
    (hafter : EndsNumber after) :
    readNumber l.negative (l.magnitude ++ after) = some (.whole n, rest) ↔
      l.word? = some n ∧ rest = after := by
  cases hnegative : l.negative with
  | true => simp [readNumber_true_ne_whole, Literal.word?, hnegative]
  | false =>
    obtain ⟨hdigit, hstops⟩ := l.endsNumber_tail hafter
    obtain ⟨significand, left, hleft, hvalue, hread⟩ :=
      readNumber_append l.isNumeral_whole l.isUnpadded_whole hdigit
    rw [Literal.magnitude, List.append_assoc, List.append_assoc, hread]
    by_cases hplain : l.fraction = [] ∧ l.exponent = []
    · by_cases hlt : Text.valueOf l.whole < Text.wordBound
      · obtain rfl := hleft.mpr hlt
        simp [Literal.word?, hnegative, hplain, hlt, hvalue, hafter.stops, eq_comm]
      · simp [Literal.word?, hlt, mt hleft.mp hlt, readTail_ne_whole]
    · have hcontinues : continues (l.fraction ++ (l.exponent ++ after)) = true := by
        simpa using mt hstops.mp hplain
      rw [if_pos (.inr hcontinues)]
      refine iff_of_false readTail_ne_whole fun h ↦ hplain ?_
      have hword := Literal.word?_eq_some_iff.mp h.1
      exact ⟨hword.fraction, hword.exponent⟩

end Caching.Json
