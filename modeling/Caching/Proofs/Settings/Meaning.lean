import Caching.Proofs.Json.Scanning
import Caching.Proofs.Vocabulary.Lawful
import Caching.Settings.Json
import Mathlib.Data.List.Perm.Subperm

/-!
# What JSON values mean to the readers

Each reader takes a value from the front of the tokens exactly if the value has a meaning for it,
and then gives that meaning and leaves the rest. For settings this makes what is read from a text a
matter of the value that the text spells.
-/

namespace Caching.Json

/-- A number of 64 bits. -/
def Value.word? : Value → Option UInt64
  | number l => l.word?
  | _ => none

/-- A truth value. -/
def Value.flag? : Value → Option Bool
  | flag b => some b
  | _ => none

/-- A named member, as the name alone or with nothing under it. -/
def Value.member? {α : Type} [Named α] : Value → Option α
  | text name => Named.ofName? name
  | object [(name, null)] => Named.ofName? name
  | _ => none

/-- A value, or its absence. -/
def Value.optional? {α : Type} (value? : Value → Option α) : Value → Option (Option α)
  | null => some none
  | v => (value? v).map some

/-- What was read is the meaning, and the rest is left; without a meaning there is a problem. -/
def Agrees {α : Type} (r : Except Problem (α × List Token)) (meaning : Option α)
    (rest : List Lexeme) : Prop :=
  match meaning with
  | some a => ∃ ts, r = .ok (a, ts) ∧ Scans rest ts
  | none => ∃ problem, r = .error problem

/-- The reader takes exactly the values that have a meaning, in front of anything. -/
def Follows {α : Type} (read : Reader α) (meaning : Value → Option α) : Prop :=
  ∀ {v : Value} {rest : List Lexeme} {ts : List Token}, Scans (v.lexemes ++ rest) ts →
    Agrees (read ts) (meaning v) rest

section

variable {α β : Type} {r : Except Problem (α × List Token)} {meaning : Option α}
  {rest : List Lexeme}

private theorem Agrees.read_of_some (h : Agrees r meaning rest) {a : α}
    (hmeaning : meaning = some a) : ∃ ts, r = .ok (a, ts) ∧ Scans rest ts := by
  subst hmeaning
  exact h

private theorem Agrees.refused_of_none (h : Agrees r meaning rest) (hmeaning : meaning = none) :
    ∃ problem, r = .error problem := by
  subst hmeaning
  exact h

private theorem Agrees.map (h : Agrees r meaning rest) (f : α → β) :
    Agrees (r.map fun p ↦ (f p.1, p.2)) (meaning.map f) rest := by
  cases meaning with
  | none =>
    obtain ⟨problem, rfl⟩ := h
    exact ⟨problem, rfl⟩
  | some a =>
    obtain ⟨ts, rfl, hts⟩ := h
    exact ⟨ts, rfl, hts⟩

end

/-! ### First tokens -/

private theorem Scans.of_number {l : Literal} {rest : List Lexeme} {ts : List Token}
    (h : Scans (.number l :: rest) ts) :
    (∃ n ts', l.word? = some n ∧ ts = .number (.whole n) :: ts' ∧ Scans rest ts') ∨
      l.word? = none ∧ ∃ t ts', ts = t :: ts' ∧ t.IsOdd := by
  cases h with
  | cons ht hrest =>
    obtain ⟨n, hword, rfl⟩ := Option.map_eq_some_iff.mp ht
    exact .inl ⟨n, _, hword, rfl, hrest⟩
  | odd hword hodd => exact .inr ⟨hword, _, _, rfl, hodd⟩

private theorem Scans.head_of_number {l : Literal} {rest : List Lexeme} {ts : List Token}
    (h : Scans (.number l :: rest) ts) :
    ∃ t ts', ts = t :: ts' ∧ (t = .malformed ∨ ∃ n, t = .number n) := by
  rcases h.of_number with ⟨n, ts', -, rfl, -⟩ | ⟨-, t, ts', rfl, hodd⟩
  · exact ⟨_, ts', rfl, .inr ⟨_, rfl⟩⟩
  · exact ⟨t, ts', rfl, hodd.imp_right fun ⟨n, hn, _⟩ ↦ ⟨n, hn⟩⟩

private theorem Scans.of_mark {lexeme : Lexeme} {rest : List Lexeme} {ts : List Token} {t : Token}
    (h : Scans (lexeme :: rest) ts) (ht : lexeme.token? = some t)
    (hlexeme : lexeme.isNumber = false) : ∃ ts', ts = t :: ts' ∧ Scans rest ts' := by
  cases h with
  | cons ht' hrest =>
    cases ht.symm.trans ht'
    exact ⟨_, rfl, hrest⟩
  | odd => cases hlexeme

/-- A value starts with a token of its own, not with the end of an array, and only `null` starts
with the token of `null`. -/
theorem Scans.head {v : Value} {rest : List Lexeme} {ts : List Token}
    (h : Scans (v.lexemes ++ rest) ts) :
    ∃ t ts', ts = t :: ts' ∧ t ≠ .closeBracket ∧ (t = .null → v = .null) := by
  cases v with
  | number l =>
    obtain ⟨t, ts', rfl, rfl | ⟨n, rfl⟩⟩ := h.head_of_number
    · exact ⟨_, ts', rfl, nofun, nofun⟩
    · exact ⟨_, ts', rfl, nofun, nofun⟩
  | null =>
    obtain ⟨ts', rfl, -⟩ := h.of_mark rfl rfl
    exact ⟨_, ts', rfl, nofun, fun _ ↦ rfl⟩
  | _ =>
    obtain ⟨ts', rfl, -⟩ := h.of_mark rfl rfl
    exact ⟨_, ts', rfl, nofun, nofun⟩

/-- What follows a member up to the end of the object. -/
def moreMembers : List (String × Value) → List Lexeme
  | [] => []
  | m :: rest => .comma :: memberLexemes (m :: rest)

theorem memberLexemes_cons (key : String) (v : Value) (rest : List (String × Value)) :
    memberLexemes ((key, v) :: rest) =
      .text key :: .colon :: (v.lexemes ++ moreMembers rest) := by
  cases rest with
  | nil => simp [memberLexemes, moreMembers]
  | cons m rest => simp [memberLexemes, moreMembers]

/-- What follows an element up to the end of the array. -/
def moreElements : List Value → List Lexeme
  | [] => []
  | v :: rest => .comma :: elementLexemes (v :: rest)

private theorem elementLexemes_cons (v : Value) (rest : List Value) :
    elementLexemes (v :: rest) = v.lexemes ++ moreElements rest := by
  cases rest with
  | nil => simp [elementLexemes, moreElements]
  | cons w rest => simp [elementLexemes, moreElements]

private theorem lexemes_array (elements : List Value) (rest : List Lexeme) :
    (Value.array elements).lexemes ++ rest =
      .openBracket :: (elementLexemes elements ++ .closeBracket :: rest) := by
  simp [Value.lexemes]

private theorem lexemes_object (members : List (String × Value)) (rest : List Lexeme) :
    (Value.object members).lexemes ++ rest =
      .openBrace :: (memberLexemes members ++ .closeBrace :: rest) := by
  simp [Value.lexemes]

/-! ### Readers of single values -/

private theorem follows_readWord : Follows readWord Value.word? := by
  intro v rest ts h
  cases v with
  | number l =>
    rcases h.of_number with ⟨n, ts', hword, rfl, hrest⟩ | ⟨hword, t, ts', rfl, hodd⟩
    · rw [Value.word?, hword]
      exact ⟨_, rfl, hrest⟩
    · rw [Value.word?, hword]
      rcases hodd with rfl | ⟨n, rfl, hn⟩
      · exact ⟨_, rfl⟩
      · cases n with
        | whole n => exact absurd rfl (hn n)
        | _ => exact ⟨_, rfl⟩
  | _ =>
    obtain ⟨ts', rfl, -⟩ := h.of_mark rfl rfl
    exact ⟨_, rfl⟩

private theorem follows_readFlag : Follows readFlag Value.flag? := by
  intro v rest ts h
  cases v with
  | flag b =>
    obtain ⟨ts', rfl, hrest⟩ := h.of_mark rfl rfl
    exact ⟨_, rfl, hrest⟩
  | number l =>
    obtain ⟨t, ts', rfl, rfl | ⟨n, rfl⟩⟩ := h.head_of_number
    · exact ⟨_, rfl⟩
    · exact ⟨_, rfl⟩
  | _ =>
    obtain ⟨ts', rfl, -⟩ := h.of_mark rfl rfl
    exact ⟨_, rfl⟩

private theorem readUnit_eq_error {α : Type} {a : α} {t : Token} (ht : t ≠ .null)
    (ts : List Token) : ∃ problem, readUnit a (.colon :: t :: ts) = .error problem := by
  cases t with
  | null => exact absurd rfl ht
  | _ => exact ⟨_, rfl⟩

section

variable {α : Type} [Named α]

private theorem member_eq (name : String) :
    (∃ a : α, Named.ofName? name = some a ∧ member name = .ok a) ∨
      (Named.ofName? name : Option α) = none ∧ ∃ problem, (member name : Except _ α) =
        .error problem := by
  unfold member
  cases Named.ofName? (α := α) name with
  | none => exact .inr ⟨rfl, _, rfl⟩
  | some a => exact .inl ⟨a, rfl, rfl⟩

private theorem agrees_readUnit {name : String} {v : Value} {members : List (String × Value)}
    {rest : List Lexeme} {ts : List Token}
    (h : Scans (v.lexemes ++ (moreMembers members ++ .closeBrace :: rest)) ts) :
    Agrees (do readUnit (← member (α := α) name) (.colon :: ts))
      (Value.member? (.object ((name, v) :: members))) rest := by
  by_cases hv : v = .null
  · subst hv
    rw [Value.lexemes, List.singleton_append] at h
    obtain ⟨ts', rfl, hrest⟩ := h.of_mark rfl rfl
    cases members with
    | nil =>
      rw [moreMembers, List.nil_append] at hrest
      obtain ⟨ts', rfl, hclosed⟩ := hrest.of_mark rfl rfl
      rw [Value.member?]
      rcases member_eq (α := α) name with ⟨a, hname, hmember⟩ | ⟨hname, problem, hmember⟩
      · rw [hname, hmember]
        exact ⟨_, rfl, hclosed⟩
      · rw [hname, hmember]
        exact ⟨_, rfl⟩
    | cons m members =>
      obtain ⟨ts', rfl, -⟩ := hrest.of_mark rfl rfl
      rcases member_eq (α := α) name with ⟨a, -, hmember⟩ | ⟨-, problem, hmember⟩
      · rw [hmember]
        exact ⟨_, rfl⟩
      · rw [hmember]
        exact ⟨_, rfl⟩
  · have hnone : Value.member? (α := α) (.object ((name, v) :: members)) = none := by
      cases members with
      | nil =>
        cases v with
        | null => exact absurd rfl hv
        | _ => rfl
      | cons => cases v <;> rfl
    obtain ⟨t, ts', rfl, -, ht⟩ := h.head
    rw [hnone]
    rcases member_eq (α := α) name with ⟨a, -, hmember⟩ | ⟨-, problem, hmember⟩
    · rw [hmember]
      exact readUnit_eq_error (mt ht hv) ts'
    · rw [hmember]
      exact ⟨_, rfl⟩

private theorem follows_readMember : Follows (readMember (α := α)) Value.member? := by
  intro v rest ts h
  cases v with
  | text name =>
    obtain ⟨ts', rfl, hrest⟩ := h.of_mark rfl rfl
    rw [readMember, Value.member?]
    rcases member_eq (α := α) name with ⟨a, hname, hmember⟩ | ⟨hname, problem, hmember⟩
    · rw [hname, hmember]
      exact ⟨_, rfl, hrest⟩
    · rw [hname, hmember]
      exact ⟨_, rfl⟩
  | number l =>
    obtain ⟨t, ts', rfl, rfl | ⟨n, rfl⟩⟩ := h.head_of_number
    · exact ⟨_, rfl⟩
    · exact ⟨_, rfl⟩
  | object members =>
    rw [lexemes_object] at h
    obtain ⟨ts', rfl, hrest⟩ := h.of_mark rfl rfl
    cases members with
    | nil =>
      obtain ⟨ts', rfl, -⟩ := hrest.of_mark rfl rfl
      exact ⟨_, rfl⟩
    | cons m members =>
      obtain ⟨name, w⟩ := m
      rw [memberLexemes_cons, List.cons_append, List.cons_append, List.append_assoc] at hrest
      obtain ⟨ts', rfl, hcolon⟩ := hrest.of_mark rfl rfl
      obtain ⟨ts', rfl, hvalue⟩ := hcolon.of_mark rfl rfl
      exact agrees_readUnit hvalue
  | _ =>
    obtain ⟨ts', rfl, -⟩ := h.of_mark rfl rfl
    exact ⟨_, rfl⟩

end

private theorem Follows.readOptional {α : Type} {read : Reader α} {meaning : Value → Option α}
    (h : Follows read meaning) : Follows (readOptional read) (Value.optional? meaning) := by
  intro v rest ts hts
  by_cases hv : v = .null
  · subst hv
    rw [Value.lexemes, List.singleton_append] at hts
    obtain ⟨ts', rfl, hrest⟩ := hts.of_mark rfl rfl
    exact ⟨ts', rfl, hrest⟩
  · have hmeaning : Value.optional? meaning v = (meaning v).map some := by
      cases v with
      | null => exact absurd rfl hv
      | _ => rfl
    obtain ⟨t, ts', rfl, -, ht⟩ := hts.head
    have hread : Json.readOptional read (t :: ts') =
        (read (t :: ts')).map fun r ↦ (some r.1, r.2) := by
      cases t with
      | null => exact absurd (ht rfl) hv
      | _ => rfl
    rw [hmeaning, hread]
    exact (h hts).map some

end Caching.Json

namespace Caching.Settings

open Json (Agrees Follows Lexeme Scans Token)

/-! ### Fields -/

/-- The settings with the value of a field as a JSON value gives it. -/
def assign? (field : Field) (v : Json.Value) (s : Settings) : Option Settings :=
  match field with
  | .provider => (v.optional? Json.Value.member?).map fun p ↦ { s with provider := p }
  | .maxSize => (v.optional? Json.Value.word?).map fun n ↦ { s with maxSize := n }
  | .expiryType => (v.optional? Json.Value.member?).map fun e ↦ { s with expiryType := e }
  | .expiryTimeMs => (v.optional? Json.Value.word?).map fun n ↦ { s with expiryTimeMs := n }
  | .highContention => (v.optional? Json.Value.flag?).map fun b ↦ { s with highContention := b }

private theorem follows_readField (field : Field) (s : Settings) :
    Follows (readField field s) fun v ↦ assign? field v s := by
  intro v rest ts h
  cases field with
  | provider => exact (Json.follows_readMember.readOptional h).map _
  | maxSize => exact (Json.follows_readWord.readOptional h).map _
  | expiryType => exact (Json.follows_readMember.readOptional h).map _
  | expiryTimeMs => exact (Json.follows_readWord.readOptional h).map _
  | highContention => exact (Json.follows_readFlag.readOptional h).map _

/-! ### Objects and arrays -/

/-- The field that a member is for, and the settings with its value, where some fields were given
before. -/
def ofMember? (given : List Field) (s : Settings) (key : String) (v : Json.Value) :
    Option (Field × Settings) :=
  match Named.ofName? key with
  | none => none
  | some field =>
    if field ∈ given then none else (assign? field v s).map fun t ↦ (field, t)

/-- The settings that members give, where some fields were given before. -/
def ofMembers? : List Field → Settings → List (String × Json.Value) → Option Settings
  | _, s, [] => some s
  | given, s, (key, v) :: members =>
    (ofMember? given s key v).bind fun r ↦ ofMembers? (r.1 :: given) r.2 members

/-- The settings that elements give for fields in their order. -/
def ofElements? : List Field → Settings → List Json.Value → Option Settings
  | _, s, [] => some s
  | [], _, _ :: _ => none
  | field :: fields, s, v :: elements =>
    (assign? field v s).bind fun s ↦ ofElements? fields s elements

/-- The settings that a JSON value gives. -/
def ofValue? : Json.Value → Option Settings
  | .object members => ofMembers? [] empty members
  | .array elements => ofElements? Field.all empty elements
  | _ => none

theorem ofMember?_eq_some_iff {given : List Field} {s t : Settings} {key : String}
    {v : Json.Value} {field : Field} :
    ofMember? given s key v = some (field, t) ↔
      Named.ofName? key = some field ∧ field ∉ given ∧ assign? field v s = some t := by
  unfold ofMember?
  cases Named.ofName? (α := Field) key with
  | none => simp
  | some found =>
    dsimp only
    by_cases hmem : found ∈ given
    · rw [if_pos hmem]
      refine iff_of_false nofun ?_
      rintro ⟨hfound, habsent, -⟩
      cases hfound
      exact habsent hmem
    · rw [if_neg hmem, Option.map_eq_some_iff]
      constructor
      · rintro ⟨_, hassign, hpair⟩
        cases hpair
        exact ⟨rfl, hmem, hassign⟩
      · rintro ⟨hfound, -, hassign⟩
        cases hfound
        exact ⟨t, hassign, rfl⟩

private theorem length_le_of_nodup {fields : List Field} (h : fields.Nodup) :
    fields.length ≤ Field.all.length :=
  (List.subperm_of_subset h fun field _ ↦ Named.Lawful.mem_members field).length_le

private theorem freshField_eq_ok {given : List Field} {name : String} {field : Field}
    (hname : Named.ofName? name = some field) (hfresh : field ∉ given) :
    freshField name given = .ok field := by
  simp [freshField, hname, hfresh]

private theorem freshField_eq_error {given : List Field} {name : String}
    (h : ∀ field, Named.ofName? name = some field → field ∈ given) :
    ∃ problem, freshField name given = .error problem := by
  cases hname : (Named.ofName? name : Option Field) with
  | none => exact ⟨_, by simp [freshField, hname]; rfl⟩
  | some field => exact ⟨_, by simp [freshField, hname, h field hname]; rfl⟩

private theorem readMembers_of_none (count : Nat) {given : List Field} {s : Settings} {key : String}
    {v : Json.Value} {tail : List Lexeme} {ts : List Token}
    (h : Scans (v.lexemes ++ tail) ts) (hnone : ofMember? given s key v = none) :
    ∃ problem, readMembers (count + 1) given s (.text key :: .colon :: ts) = .error problem := by
  by_cases hfresh : ∃ field, Named.ofName? key = some field ∧ field ∉ given
  · obtain ⟨field, hname, hfresh⟩ := hfresh
    have hread := follows_readField field s h
    cases hassign : assign? field v s with
    | some t =>
      have hsome := ofMember?_eq_some_iff.mpr ⟨hname, hfresh, hassign⟩
      rw [hnone] at hsome
      cases hsome
    | none =>
      obtain ⟨problem, hread⟩ := hread.refused_of_none hassign
      refine ⟨problem, ?_⟩
      simp only [readMembers, freshField_eq_ok hname hfresh, hread]
  · have hgiven : ∀ field, Named.ofName? key = some field → field ∈ given := by
      intro field hname
      by_contra hfresh'
      exact hfresh ⟨field, hname, hfresh'⟩
    obtain ⟨problem, hfield⟩ := freshField_eq_error hgiven
    exact ⟨problem, by simp only [readMembers, hfield]⟩

private theorem readMembers_of_some (count : Nat) {given : List Field} {s t : Settings}
    {key : String} {v : Json.Value} {field : Field} {tail : List Lexeme} {ts : List Token}
    (h : Scans (v.lexemes ++ tail) ts) (hsome : ofMember? given s key v = some (field, t)) :
    ∃ ts', Scans tail ts' ∧ readMembers (count + 1) given s (.text key :: .colon :: ts) =
        match ts' with
        | .closeBrace :: rest => .ok (t, rest)
        | .comma :: rest => readMembers count (field :: given) t rest
        | _ => .error .malformed := by
  obtain ⟨hname, hfresh, hassign⟩ := ofMember?_eq_some_iff.mp hsome
  obtain ⟨ts', hread, htail⟩ := (follows_readField field s h).read_of_some hassign
  refine ⟨ts', htail, ?_⟩
  simp only [readMembers, freshField_eq_ok hname hfresh, hread]
  rcases ts' with _ | ⟨u, ts'⟩
  · rfl
  · cases u <;> rfl

private theorem agrees_readMembers {count : Nat} {given : List Field} (s : Settings) {key : String}
    {v : Json.Value} {members : List (String × Json.Value)} {rest : List Lexeme} {ts : List Token}
    (hcount : Field.all.length < count + given.length) (hgiven : given.Nodup)
    (h : Scans (Json.memberLexemes ((key, v) :: members) ++ .closeBrace :: rest) ts) :
    Agrees (readMembers count given s ts) (ofMembers? given s ((key, v) :: members)) rest := by
  rw [Json.memberLexemes_cons, List.cons_append, List.cons_append, List.append_assoc] at h
  obtain ⟨ts, rfl, hcolon⟩ := h.of_mark rfl rfl
  obtain ⟨ts, rfl, hvalue⟩ := hcolon.of_mark rfl rfl
  have hleft := length_le_of_nodup hgiven
  obtain ⟨count, rfl⟩ : ∃ n, count = n + 1 := Nat.exists_eq_add_one.mpr (by omega)
  rw [ofMembers?]
  cases hmember : ofMember? given s key v with
  | none => exact readMembers_of_none count hvalue hmember
  | some r =>
    obtain ⟨field, t⟩ := r
    obtain ⟨ts', htail, hread⟩ := readMembers_of_some count hvalue hmember
    rw [hread]
    cases members with
    | nil =>
      obtain ⟨ts', rfl, hclosed⟩ := htail.of_mark rfl rfl
      exact ⟨ts', rfl, hclosed⟩
    | cons m members =>
      obtain ⟨ts', rfl, hnext⟩ := htail.of_mark rfl rfl
      have hfresh := (ofMember?_eq_some_iff.mp hmember).2.1
      exact agrees_readMembers t (by simp only [List.length_cons]; omega)
        (List.nodup_cons.mpr ⟨hfresh, hgiven⟩) hnext
termination_by members.length

private theorem agrees_readElements (fields : List Field) (s : Settings) {v : Json.Value}
    {elements : List Json.Value} {rest : List Lexeme} {ts : List Token}
    (h : Scans (Json.elementLexemes (v :: elements) ++ .closeBracket :: rest) ts) :
    Agrees (readElements fields s ts) (ofElements? fields s (v :: elements)) rest := by
  rw [Json.elementLexemes_cons, List.append_assoc] at h
  cases fields with
  | nil => exact ⟨_, rfl⟩
  | cons field fields =>
    have hread := follows_readField field s h
    rw [ofElements?, readElements]
    cases hassign : assign? field v s with
    | none =>
      obtain ⟨problem, hread⟩ := hread.refused_of_none hassign
      rw [hread]
      exact ⟨problem, rfl⟩
    | some t =>
      obtain ⟨ts', hread, htail⟩ := hread.read_of_some hassign
      rw [hread]
      cases elements with
      | nil =>
        obtain ⟨ts', rfl, hclosed⟩ := htail.of_mark rfl rfl
        rw [Option.bind_some, ofElements?]
        exact ⟨ts', rfl, hclosed⟩
      | cons w elements =>
        obtain ⟨ts', rfl, hnext⟩ := htail.of_mark rfl rfl
        exact agrees_readElements fields t hnext
termination_by elements.length

private theorem follows_readTokens : Follows readTokens ofValue? := by
  intro v rest ts h
  cases v with
  | object members =>
    rw [Json.lexemes_object] at h
    obtain ⟨ts, rfl, hinner⟩ := h.of_mark rfl rfl
    cases members with
    | nil =>
      obtain ⟨ts, rfl, hclosed⟩ := hinner.of_mark rfl rfl
      exact ⟨ts, rfl, hclosed⟩
    | cons m members =>
      have hmembers := agrees_readMembers empty (Nat.lt_succ_self _) .nil hinner
      rw [Json.memberLexemes_cons] at hinner
      obtain ⟨ts, rfl, -⟩ := hinner.of_mark rfl rfl
      exact hmembers
  | array elements =>
    rw [Json.lexemes_array] at h
    obtain ⟨ts, rfl, hinner⟩ := h.of_mark rfl rfl
    cases elements with
    | nil =>
      obtain ⟨ts, rfl, hclosed⟩ := hinner.of_mark rfl rfl
      exact ⟨ts, rfl, hclosed⟩
    | cons v elements =>
      have helements := agrees_readElements Field.all empty hinner
      rw [Json.elementLexemes_cons, List.append_assoc] at hinner
      obtain ⟨t, ts, rfl, ht, -⟩ := hinner.head
      have hread : readTokens (.openBracket :: t :: ts) =
          readElements Field.all empty (t :: ts) := by
        cases t with
        | closeBracket => exact absurd rfl ht
        | _ => rfl
      rw [hread]
      exact helements
  | number l =>
    obtain ⟨t, ts', rfl, rfl | ⟨n, rfl⟩⟩ := h.head_of_number
    · exact ⟨_, rfl⟩
    · exact ⟨_, rfl⟩
  | _ =>
    obtain ⟨ts, rfl, -⟩ := h.of_mark rfl rfl
    exact ⟨_, rfl⟩

/-- The settings of a text are those of the value that the text spells. -/
theorem toOption_ofJson {v : Json.Value} {text : String} (h : v.Spells text.toList) :
    (ofJson text).toOption = ofValue? v := by
  have hscans := h.scans
  rw [← List.append_nil v.lexemes] at hscans
  have hread := follows_readTokens hscans
  unfold ofJson Json.readDocument
  cases hvalue : ofValue? v with
  | none =>
    obtain ⟨problem, hread⟩ := hread.refused_of_none hvalue
    rw [hread]
    rfl
  | some s =>
    obtain ⟨ts, hread, hdone⟩ := hread.read_of_some hvalue
    cases hdone
    rw [hread]
    rfl

end Caching.Settings
