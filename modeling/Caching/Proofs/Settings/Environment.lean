import Caching.Proofs.Settings.Variables

/-!
# Settings in the environment

Variables give settings exactly if each of the five that is there is well formed, and no other
variable has a part in it. Settings that were written to variables are read back, in whatever case
and between whatever blanks they were written.
-/

namespace Caching.Settings

open Text (isBlank lowercase trimBlank)

/-- A value in plain text. -/
def Value.display : Value → String
  | .provider p => Named.name p
  | .expiryType e => Named.name e
  | .word n => String.ofList (Text.decimal n.toNat)
  | .flag b => toString b

/-- The text is the value in plain text, up to the case of ASCII letters and blanks around it. -/
def Shows (text : String) (v : Value) : Prop :=
  ∃ before body after, text.toList = before ++ body ++ after ∧
    (∀ c ∈ before, isBlank c = true) ∧ (∀ c ∈ after, isBlank c = true) ∧
    body.map Char.toLower = v.display.toList

/-! ### Letters of either case -/

private theorem toLower_cases (c : Char) :
    c.toLower = c ∨ (c.toNat < 128 ∧ isBlank c = false ∧ c.toLower.isDigit = false) := by
  by_cases hc : c.val ≥ 'A'.val ∧ c.val ≤ 'Z'.val
  · have hrange : 65 ≤ c.toNat ∧ c.toNat ≤ 90 := by
      simpa [UInt32.le_iff_toNat_le] using hc
    right
    apply Text.forall_between c 65 26 hrange.1 (by omega)
    decide
  · exact .inl (dif_neg hc)

private theorem plain_of_toLower {c : Char}
    (h : c.toLower.toNat < 128 ∧ isBlank c.toLower = false) :
    c.toNat < 128 ∧ isBlank c = false := by
  rcases toLower_cases c with hsame | ⟨hlt, hblank, -⟩
  · rwa [hsame] at h
  · exact ⟨hlt, hblank⟩

private theorem plain_display (v : Value) :
    ∀ c ∈ v.display.toList, c.toNat < 128 ∧ isBlank c = false := by
  have hplain {cs : List Char} (h : cs.all (fun c ↦ c.toNat < 128 && !isBlank c) = true) :
      ∀ c ∈ cs, c.toNat < 128 ∧ isBlank c = false := by
    simpa using h
  cases v with
  | provider p => exact hplain (by cases p <;> decide)
  | expiryType e => exact hplain (by cases e <;> decide)
  | flag b => exact hplain (by cases b <;> decide)
  | word n =>
    intro c hc
    rw [Value.display, String.toList_ofList] at hc
    apply Text.forall_digit ((Text.isNumeral_decimal n.toNat).digits c hc)
    decide

variable {text : String} {v : Value}

private theorem Shows.trimmed (h : Shows text v) :
    (trimBlank text.toList).map Char.toLower = v.display.toList ∧
      lowercase (trimBlank text.toList) = v.display.toList := by
  obtain ⟨before, body, after, htext, hbefore, hafter, hbody⟩ := h
  have hplain : ∀ c ∈ body, c.toNat < 128 ∧ isBlank c = false := by
    intro c hc
    refine plain_of_toLower (plain_display v _ ?_)
    rw [← hbody]
    exact List.mem_map_of_mem hc
  have htrim : trimBlank text.toList = body := by
    rw [htext, Text.trimBlank_append hbefore hafter]
    exact Text.trimBlank_eq_self (fun c hc ↦ (hplain c (List.mem_of_mem_head? hc)).2)
      fun c hc ↦ (hplain c (List.mem_of_getLast? hc)).2
  rw [htrim]
  exact ⟨hbody, (Text.lowercase_of_ascii fun c hc ↦ (hplain c hc).1).trans hbody⟩

private theorem Shows.spellsWord {n : UInt64} (h : Shows text (.word n)) : SpellsWord text n := by
  have hlower : (trimBlank text.toList).map Char.toLower = Text.decimal n.toNat := by
    rw [h.trimmed.1, Value.display, String.toList_ofList]
  have hsame : (trimBlank text.toList).map Char.toLower = trimBlank text.toList := by
    refine (List.map_congr_left fun c hc ↦ ?_).trans (List.map_id _)
    have hdigit := (Text.isNumeral_decimal n.toNat).digits c.toLower
      (hlower ▸ List.mem_map_of_mem hc)
    rcases toLower_cases c with hsame | ⟨-, -, hnone⟩
    · exact hsame
    · rw [hdigit] at hnone
      cases hnone
  have htrim := hsame.symm.trans hlower
  exact ⟨_, .inl htrim, Text.isNumeral_decimal _, Text.valueOf_decimal _⟩

private theorem canonical_of_lowercase {α : Type} [Named α] {a : α}
    (hname : '-' ∉ (Named.name a).toList)
    (h : lowercase (trimBlank text.toList) = (Named.name a).toList) :
    Named.canonical text = (Named.name a).toList := by
  rw [Named.canonical, h]
  refine (List.map_congr_left fun c hc ↦ ?_).trans (List.map_id _)
  refine if_neg ?_
  rintro rfl
  exact hname hc

/-- A text that shows the value of a field spells it. -/
theorem Shows.spells {s : Settings} {field : Field} (h : Shows text v)
    (hfield : s.get? field = some v) : Spells field text v := by
  cases field with
  | provider =>
    obtain ⟨p, -, rfl⟩ := Option.map_eq_some_iff.mp hfield
    exact .provider (canonical_of_lowercase (by cases p <;> decide) h.trimmed.2)
  | maxSize =>
    obtain ⟨n, -, rfl⟩ := Option.map_eq_some_iff.mp hfield
    exact .maxSize h.spellsWord
  | expiryType =>
    obtain ⟨e, -, rfl⟩ := Option.map_eq_some_iff.mp hfield
    exact .expiryType (canonical_of_lowercase (by cases e <;> decide) h.trimmed.2)
  | expiryTimeMs =>
    obtain ⟨n, -, rfl⟩ := Option.map_eq_some_iff.mp hfield
    exact .expiryTimeMs h.spellsWord
  | highContention =>
    obtain ⟨b, -, rfl⟩ := Option.map_eq_some_iff.mp hfield
    have hlower : String.ofList (lowercase (trimBlank text.toList)) = toString b := by
      rw [h.trimmed.2, String.ofList_toList, Value.display]
    refine .highContention ?_
    rw [SpellsSwitch, hlower]
    cases b <;> decide

/-! ### All five variables -/

variable {lookup : String → Option String}

/-- Variables that say what some settings hold give these settings. -/
theorem ofLookup_of_rel {s : Settings}
    (h : ∀ field, Option.Rel (Spells field) (lookup (variableOf field)) (s.get? field)) :
    ofLookup lookup = .ok s := by
  rcases ofLookup_cases lookup with ⟨t, hread, ht⟩ | ⟨_, field, _, _, _, _, hbad, _⟩
  · have hsame : t = s := by
      refine ext_get? fun field ↦ ?_
      have hs := h field
      have hfield := ht field
      generalize s.get? field = v at hs
      generalize t.get? field = w at hfield
      generalize lookup (variableOf field) = text at hs hfield
      cases hs with
      | none => cases hfield; rfl
      | some hv =>
        cases hfield with
        | some hw => rw [hw.unique hv]
    rw [hread, hsame]
  · exact absurd (isWellFormed_of_rel (h field)) hbad

/-- Variables are read exactly if each of the five that is there is well formed. Then every field
has the value that its variable spells, and is not set if it has none. Otherwise the first malformed
one is named, in the order of the fields. So settings are read back from variables that show them,
and no variable beside the five has a part in it. -/
theorem ofLookup_exact (lookup : String → Option String) :
    (∀ s, ofLookup lookup = .ok s ↔
        ∀ field, Option.Rel (Spells field) (lookup (variableOf field)) (s.get? field)) ∧
      ((∃ s, ofLookup lookup = .ok s) ↔ ∀ field, IsWellFormed lookup field) ∧
      (∀ fault, ofLookup lookup = .error fault → ∃ before field after problem,
        Field.all = before ++ field :: after ∧ (∀ f ∈ before, IsWellFormed lookup f) ∧
        ¬ IsWellFormed lookup field ∧
        fault = .config ("Invalid " ++ variableOf field ++ ": " ++ problem)) ∧
      (∀ s : Settings, (∀ field, Option.Rel Shows (lookup (variableOf field)) (s.get? field)) →
        ofLookup lookup = .ok s) ∧
      ∀ lookup', (∀ field, lookup' (variableOf field) = lookup (variableOf field)) →
        ofLookup lookup' = ofLookup lookup := by
  refine ⟨fun s ↦ ⟨?_, ofLookup_of_rel⟩, ⟨?_, ?_⟩, ?_, ?_, ?_⟩
  · intro hread
    rcases ofLookup_cases lookup with ⟨t, ht, hrel⟩ | ⟨_, _, _, _, _, _, _, hfault⟩
    · rw [ht] at hread
      cases hread
      exact hrel
    · rw [hread] at hfault
      cases hfault
  · rintro ⟨s, hread⟩ field
    rcases ofLookup_cases lookup with ⟨t, _, hrel⟩ | ⟨_, _, _, _, _, _, _, hfault⟩
    · exact isWellFormed_of_rel (hrel field)
    · rw [hread] at hfault
      cases hfault
  · intro hwell
    rcases ofLookup_cases lookup with ⟨s, hread, _⟩ | ⟨_, field, _, _, _, _, hbad, _⟩
    · exact ⟨s, hread⟩
    · exact absurd (hwell field) hbad
  · intro fault hread
    rcases ofLookup_cases lookup with ⟨s, hok, _⟩ | ⟨before, field, after, problem, hall, hbefore,
      hbad, hfault⟩
    · rw [hread] at hok
      cases hok
    · rw [hread] at hfault
      cases hfault
      exact ⟨before, field, after, problem, hall, hbefore, hbad, rfl⟩
  · intro s hshows
    refine ofLookup_of_rel fun field ↦ ?_
    have hfield := hshows field
    cases htext : lookup (variableOf field) <;> cases hvalue : s.get? field <;>
      rw [htext, hvalue] at hfield
    · exact .none
    · cases hfield
    · cases hfield
    · cases hfield with
      | some h => exact .some (h.spells hvalue)
  · intro lookup' hsame
    unfold ofLookup readVariable
    simp only [hsame]

/-- A name in capitals with a hyphen, a number with a sign and zeros in front, and blanks around
both. -/
theorem ofLookup_exact_of_padded :
    let lookup : String → Option String := fun name ↦
      if name = "OMNICACHE_EXPIRY_TYPE" then some " POST-Write\n"
      else if name = "OMNICACHE_MAX_SIZE" then some "\u3000+007"
      else none
    ofLookup lookup = .ok ⟨none, some 7, some .postWrite, none, none⟩ := by
  intro lookup
  have hsize : Spells .maxSize "\u3000+007" (.word 7) :=
    .maxSize ⟨['0', '0', '7'], .inr (by decide), ⟨by decide, List.all_eq_true.mp rfl⟩, by decide⟩
  have htype : Spells .expiryType " POST-Write\n" (.expiryType .postWrite) :=
    .expiryType (by decide +kernel)
  refine ((ofLookup_exact lookup).1 _).mpr fun field ↦ ?_
  cases field with
  | provider => exact .none
  | maxSize => exact .some hsize
  | expiryType => exact .some htype
  | expiryTimeMs => exact .none
  | highContention => exact .none

end Caching.Settings
