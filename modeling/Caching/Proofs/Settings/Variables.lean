import Caching.Proofs.Settings.Fields
import Caching.Proofs.Text.Digits
import Caching.Proofs.Vocabulary.Lawful
import Caching.Settings.Environment
import Mathlib.Data.Option.Basic

/-!
# What variables say

Each field has its own language: names up to blanks, case and hyphens, numbers of 64 bits in decimal
digits, and truth values in a few spellings. Variables are read exactly if each that is there is in
the language of its field, and then say what they spell. Otherwise the first that is not is named.
-/

namespace Caching.Settings

open Text (IsNumeral isBlank lowercase trimBlank valueOf)

/-! ### The language of each field -/

/-- Blanks aside, the text is digits that spell the number, with or without a plus sign. -/
def SpellsWord (text : String) (n : UInt64) : Prop :=
  ∃ digits, (trimBlank text.toList = digits ∨ trimBlank text.toList = '+' :: digits) ∧
    IsNumeral digits ∧ valueOf digits = n.toNat

/-- Blanks and case aside, the text is one of the spellings of the truth value. -/
def SpellsSwitch (text : String) (b : Bool) : Prop :=
  String.ofList (lowercase (trimBlank text.toList)) ∈
    if b then ["true", "1", "yes", "on"] else ["false", "0", "no", "off"]

/-- The text spells the value in the variable of a field. -/
inductive Spells : Field → String → Value → Prop where
  | provider {text : String} {p : Provider} (h : Named.canonical text = (Named.name p).toList) :
      Spells .provider text (.provider p)
  | maxSize {text : String} {n : UInt64} (h : SpellsWord text n) : Spells .maxSize text (.word n)
  | expiryType {text : String} {e : ExpiryType}
      (h : Named.canonical text = (Named.name e).toList) : Spells .expiryType text (.expiryType e)
  | expiryTimeMs {text : String} {n : UInt64} (h : SpellsWord text n) :
      Spells .expiryTimeMs text (.word n)
  | highContention {text : String} {b : Bool} (h : SpellsSwitch text b) :
      Spells .highContention text (.flag b)

/-- A variable is well formed if it is not there or spells a value. -/
def IsWellFormed (lookup : String → Option String) (field : Field) : Prop :=
  ∀ text ∈ lookup (variableOf field), ∃ v, Spells field text v

/-! ### Reading one variable -/

private theorem readNamed_eq_ok_iff {α : Type} [Named α] [Named.Lawful α] {text : String} {a : α} :
    readNamed (trimBlank text.toList) = .ok a ↔ Named.canonical text = (Named.name a).toList := by
  rw [← Named.canonical_trimBlank, ← Named.parse?_eq_some_iff, readNamed]
  cases h : (Named.parse? (String.ofList (trimBlank text.toList)) : Option α) with
  | none => simp
  | some b => simp

private theorem readWord_eq_ok_iff {text : String} {n : UInt64} :
    readWord (trimBlank text.toList) = .ok n ↔ SpellsWord text n := by
  have hbound : n.toNat < Text.wordBound := n.toNat_lt_size
  have hspells : SpellsWord text n ↔ Text.readUnsigned (trimBlank text.toList) = .ok n.toNat := by
    rw [Text.readUnsigned_eq_ok_iff]
    simp only [hbound, and_true]
    rfl
  rw [hspells, readWord]
  cases hread : Text.readUnsigned (trimBlank text.toList) with
  | error fault => simp
  | ok m =>
    obtain ⟨_, _, _, _, hlt⟩ := Text.readUnsigned_eq_ok_iff.mp hread
    have hm : (UInt64.ofNat m).toNat = m := UInt64.toNat_ofNat_of_lt hlt
    simp only [Except.ok.injEq]
    constructor
    · rintro rfl
      exact hm.symm
    · rintro rfl
      exact UInt64.ofNat_toNat

private theorem readSwitch_eq_ok_iff {text : String} {b : Bool} :
    readSwitch (trimBlank text.toList) = .ok b ↔ SpellsSwitch text b := by
  unfold readSwitch SpellsSwitch
  generalize String.ofList (lowercase (trimBlank text.toList)) = lowered
  have hapart : lowered ∈ ["true", "1", "yes", "on"] → lowered ∉ ["false", "0", "no", "off"] := by
    simp only [List.mem_cons, List.not_mem_nil, or_false]
    rintro (rfl | rfl | rfl | rfl) <;> decide
  by_cases hon : lowered ∈ ["true", "1", "yes", "on"]
  · have hoff := hapart hon
    cases b <;> simp_all
  · by_cases hoff : lowered ∈ ["false", "0", "no", "off"] <;> cases b <;> simp_all

/-! ### One variable -/

/-- The variables of a field hold what a reader takes from them. -/
def IsReadBy {α : Type} (field : Field) (read : List Char → Except String α) (embed : α → Value) :
    Prop :=
  ∀ text v, Spells field text v ↔ ∃ a, read (trimBlank text.toList) = .ok a ∧ v = embed a

private theorem provider_isReadBy : IsReadBy .provider readNamed .provider := by
  intro text v
  constructor
  · intro h
    cases h with
    | provider h => exact ⟨_, readNamed_eq_ok_iff.mpr h, rfl⟩
  · rintro ⟨p, hp, rfl⟩
    exact .provider (readNamed_eq_ok_iff.mp hp)

private theorem maxSize_isReadBy : IsReadBy .maxSize readWord .word := by
  intro text v
  constructor
  · intro h
    cases h with
    | maxSize h => exact ⟨_, readWord_eq_ok_iff.mpr h, rfl⟩
  · rintro ⟨n, hn, rfl⟩
    exact .maxSize (readWord_eq_ok_iff.mp hn)

private theorem expiryType_isReadBy : IsReadBy .expiryType readNamed .expiryType := by
  intro text v
  constructor
  · intro h
    cases h with
    | expiryType h => exact ⟨_, readNamed_eq_ok_iff.mpr h, rfl⟩
  · rintro ⟨e, he, rfl⟩
    exact .expiryType (readNamed_eq_ok_iff.mp he)

private theorem expiryTimeMs_isReadBy : IsReadBy .expiryTimeMs readWord .word := by
  intro text v
  constructor
  · intro h
    cases h with
    | expiryTimeMs h => exact ⟨_, readWord_eq_ok_iff.mpr h, rfl⟩
  · rintro ⟨n, hn, rfl⟩
    exact .expiryTimeMs (readWord_eq_ok_iff.mp hn)

private theorem highContention_isReadBy : IsReadBy .highContention readSwitch .flag := by
  intro text v
  constructor
  · intro h
    cases h with
    | highContention h => exact ⟨_, readSwitch_eq_ok_iff.mpr h, rfl⟩
  · rintro ⟨b, hb, rfl⟩
    exact .highContention (readSwitch_eq_ok_iff.mp hb)

section

variable {α : Type} {field : Field} {read : List Char → Except String α} {embed : α → Value}
  {lookup : String → Option String}

private theorem IsReadBy.unique (hread : IsReadBy field read embed) {text : String} {v w : Value}
    (hv : Spells field text v) (hw : Spells field text w) : v = w := by
  obtain ⟨a, ha, rfl⟩ := (hread text v).mp hv
  obtain ⟨b, hb, rfl⟩ := (hread text w).mp hw
  rw [ha] at hb
  rw [Except.ok.inj hb]

private theorem IsReadBy.cases (hread : IsReadBy field read embed)
    (lookup : String → Option String) : (∃ a, readVariable lookup field read = .ok a ∧
        Option.Rel (Spells field) (lookup (variableOf field)) (a.map embed)) ∨
      (¬ IsWellFormed lookup field ∧ ∃ problem, readVariable lookup field read =
        .error (.config ("Invalid " ++ variableOf field ++ ": " ++ problem))) := by
  unfold readVariable IsWellFormed
  cases hlookup : lookup (variableOf field) with
  | none => exact .inl ⟨none, rfl, .none⟩
  | some text =>
    cases hvalue : read (trimBlank text.toList) with
    | ok a =>
      refine .inl ⟨some a, by simp [hvalue], .some ?_⟩
      exact (hread text _).mpr ⟨a, hvalue, rfl⟩
    | error problem =>
      refine .inr ⟨fun hwell ↦ ?_, problem, by simp [hvalue]⟩
      obtain ⟨v, hv⟩ := hwell text rfl
      obtain ⟨a, ha, -⟩ := (hread text v).mp hv
      rw [hvalue] at ha
      cases ha

/-- A variable that says what it spells is well formed. -/
theorem isWellFormed_of_rel {v : Option Value}
    (h : Option.Rel (Spells field) (lookup (variableOf field)) v) : IsWellFormed lookup field := by
  intro text htext
  rw [Option.mem_def.mp htext] at h
  cases h with
  | some hv => exact ⟨_, hv⟩

end

/-- A text spells one value at most. -/
theorem Spells.unique {field : Field} {text : String} {v w : Value} (hv : Spells field text v)
    (hw : Spells field text w) : v = w := by
  cases field with
  | provider => exact provider_isReadBy.unique hv hw
  | maxSize => exact maxSize_isReadBy.unique hv hw
  | expiryType => exact expiryType_isReadBy.unique hv hw
  | expiryTimeMs => exact expiryTimeMs_isReadBy.unique hv hw
  | highContention => exact highContention_isReadBy.unique hv hw

/-! ### All variables -/

/-- Either every variable says what it spells, or the first malformed one is named. -/
theorem ofLookup_cases (lookup : String → Option String) :
    (∃ s, ofLookup lookup = .ok s ∧
        ∀ field, Option.Rel (Spells field) (lookup (variableOf field)) (s.get? field)) ∨
      (∃ before field after problem, Field.all = before ++ field :: after ∧
        (∀ f ∈ before, IsWellFormed lookup f) ∧ ¬ IsWellFormed lookup field ∧
        ofLookup lookup =
          .error (.config ("Invalid " ++ variableOf field ++ ": " ++ problem))) := by
  unfold ofLookup
  rcases provider_isReadBy.cases lookup with ⟨provider, hprovider, hp⟩ | ⟨hbad, problem, hread⟩
  swap
  · exact .inr ⟨[], .provider, _, problem, rfl, by simp, hbad, by rw [hread]; rfl⟩
  rcases maxSize_isReadBy.cases lookup with ⟨maxSize, hmaxSize, hm⟩ | ⟨hbad, problem, hread⟩
  swap
  · refine .inr ⟨[.provider], .maxSize, _, problem, rfl, ?_, hbad, by rw [hprovider, hread]; rfl⟩
    simpa using isWellFormed_of_rel hp
  rcases expiryType_isReadBy.cases lookup with ⟨expiryType, htype, ht⟩ | ⟨hbad, problem, hread⟩
  swap
  · refine .inr ⟨[.provider, .maxSize], .expiryType, _, problem, rfl, ?_, hbad,
      by rw [hprovider, hmaxSize, hread]; rfl⟩
    simpa using ⟨isWellFormed_of_rel hp, isWellFormed_of_rel hm⟩
  rcases expiryTimeMs_isReadBy.cases lookup with ⟨expiryTimeMs, htime, hms⟩ | ⟨hbad, problem, hread⟩
  swap
  · refine .inr ⟨[.provider, .maxSize, .expiryType], .expiryTimeMs, _, problem, rfl, ?_, hbad,
      by rw [hprovider, hmaxSize, htype, hread]; rfl⟩
    simpa using ⟨isWellFormed_of_rel hp, isWellFormed_of_rel hm, isWellFormed_of_rel ht⟩
  rcases highContention_isReadBy.cases lookup with ⟨highContention, hswitch, hc⟩ |
    ⟨hbad, problem, hread⟩
  swap
  · refine .inr ⟨[.provider, .maxSize, .expiryType, .expiryTimeMs], .highContention, _, problem,
      rfl, ?_, hbad, by rw [hprovider, hmaxSize, htype, htime, hread]; rfl⟩
    simpa using ⟨isWellFormed_of_rel hp, isWellFormed_of_rel hm, isWellFormed_of_rel ht,
      isWellFormed_of_rel hms⟩
  refine .inl ⟨⟨provider, maxSize, expiryType, expiryTimeMs, highContention⟩,
    by rw [hprovider, hmaxSize, htype, htime, hswitch]; rfl, ?_⟩
  intro field
  cases field with
  | provider => exact hp
  | maxSize => exact hm
  | expiryType => exact ht
  | expiryTimeMs => exact hms
  | highContention => exact hc

end Caching.Settings
