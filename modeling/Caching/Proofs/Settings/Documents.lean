import Caching.Proofs.Settings.Fields
import Caching.Proofs.Settings.Meaning
import Caching.Settings.File
import Mathlib.Data.List.Nodup

/-!
# Settings as JSON documents

A document gives settings in any of many ways: as an object with the fields in any order, missing
ones left out or `null`, or as an array of the first fields. All of them are read as the same
settings, and a member too much is refused wherever it stands.
-/

namespace Caching.Settings

open Json (Literal)

/-! ### Values of fields -/

/-- The value gives the field as it is in the settings. -/
def Gives (field : Field) (v : Json.Value) (s : Settings) : Prop :=
  match field with
  | .provider => v.optional? Json.Value.member? = some s.provider
  | .maxSize => v.optional? Json.Value.word? = some s.maxSize
  | .expiryType => v.optional? Json.Value.member? = some s.expiryType
  | .expiryTimeMs => v.optional? Json.Value.word? = some s.expiryTimeMs
  | .highContention => v.optional? Json.Value.flag? = some s.highContention

private theorem Gives.assign? {field : Field} {v : Json.Value} {s : Settings} (h : Gives field v s)
    (t : Settings) : assign? field v t = some (t.copy field s) := by
  cases field <;> exact congrArg (Option.map _) h

private theorem gives_of_assign? {field : Field} {v : Json.Value} {s t : Settings}
    (h : assign? field v s = some t) : Gives field v t := by
  cases field
  all_goals
    obtain ⟨a, ha, rfl⟩ := Option.map_eq_some_iff.mp h
    exact ha

private theorem Gives.congr {field : Field} {v : Json.Value} {s t : Settings} (h : Gives field v s)
    (hfield : s.get? field = t.get? field) : Gives field v t := by
  have hcopy : t.copy field s = t := by
    apply ext_get?
    intro other
    rw [get?_copy]
    split
    · next heq => rw [heq, hfield]
    · rfl
  exact gives_of_assign? (hcopy ▸ h.assign? t)

private theorem assign?_eq_some_iff {field : Field} {v : Json.Value} {s t : Settings} :
    assign? field v s = some t ↔
      Gives field v t ∧ ∀ other, other ≠ field → t.get? other = s.get? other := by
  constructor
  · intro h
    have hgives := gives_of_assign? h
    refine ⟨hgives, fun other hother ↦ ?_⟩
    have ht : t = s.copy field t := Option.some.inj (h.symm.trans (hgives.assign? s))
    rw [ht, get?_copy, if_neg hother]
  · rintro ⟨hgives, hothers⟩
    rw [hgives.assign? s, Option.some.injEq]
    apply ext_get?
    intro other
    rw [get?_copy]
    split
    · next heq => rw [heq]
    · next hother => exact (hothers other hother).symm

/-! ### Members -/

/-- Members give settings if their keys are different fields that were not given before, and each
has the value of its field; fields without a member stay as they were. -/
theorem ofMembers?_eq_some_iff {given : List Field} {s t : Settings}
    {members : List (String × Json.Value)} :
    ofMembers? given s members = some t ↔ (members.map Prod.fst).Nodup ∧
      (∀ m ∈ members, ∃ field, Named.name field = m.1 ∧ field ∉ given ∧ Gives field m.2 t) ∧
      ∀ field : Field, Named.name field ∉ members.map Prod.fst → t.get? field = s.get? field := by
  induction members generalizing given s with
  | nil =>
    simp only [ofMembers?, Option.some.injEq, List.map_nil, List.nodup_nil, List.not_mem_nil,
      not_false_eq_true, forall_const, true_and, false_implies, implies_true]
    exact ⟨fun h field ↦ by rw [h], fun h ↦ ext_get? fun field ↦ (h field).symm⟩
  | cons m members ih =>
    obtain ⟨key, v⟩ := m
    rw [ofMembers?, Option.bind_eq_some_iff, List.map_cons, List.nodup_cons]
    constructor
    · rintro ⟨⟨field, u⟩, hmember, hrest⟩
      obtain ⟨hname, hfresh, hassign⟩ := ofMember?_eq_some_iff.mp hmember
      obtain ⟨hgives, hothers⟩ := assign?_eq_some_iff.mp hassign
      obtain rfl := Named.ofName?_eq_some_iff.mp hname
      obtain ⟨hnodup, hmembers, hleft⟩ := ih.mp hrest
      have habsent : Named.name field ∉ members.map Prod.fst := by
        intro hmem
        obtain ⟨m, hm, hkey⟩ := List.mem_map.mp hmem
        obtain ⟨other, hother, hnew, -⟩ := hmembers m hm
        obtain rfl := Named.Lawful.name_inj (hother.trans hkey)
        exact hnew List.mem_cons_self
      refine ⟨⟨habsent, hnodup⟩, fun m hm ↦ ?_, fun other hother ↦ ?_⟩
      · rcases List.mem_cons.mp hm with rfl | hm
        · exact ⟨field, rfl, hfresh, hgives.congr (hleft field habsent).symm⟩
        · obtain ⟨other, hother, hnew, hgives⟩ := hmembers m hm
          exact ⟨other, hother, fun h ↦ hnew (List.mem_cons_of_mem field h), hgives⟩
      · rw [List.mem_cons, not_or] at hother
        rw [hleft other hother.2, hothers other fun heq ↦ hother.1 (congrArg Named.name heq)]
    · rintro ⟨⟨habsent, hnodup⟩, hmembers, hleft⟩
      obtain ⟨field, rfl, hfresh, hgives⟩ := hmembers _ List.mem_cons_self
      refine ⟨(field, s.copy field t), ofMember?_eq_some_iff.mpr
        ⟨Named.ofName?_name field, hfresh, hgives.assign? s⟩,
        ih.mpr ⟨hnodup, fun m hm ↦ ?_, fun other hother ↦ ?_⟩⟩
      · obtain ⟨other, hother, hnew, hgives⟩ := hmembers m (List.mem_cons_of_mem _ hm)
        refine ⟨other, hother, fun h ↦ ?_, hgives⟩
        rcases List.mem_cons.mp h with rfl | h
        · exact habsent (List.mem_map.mpr ⟨m, hm, hother.symm⟩)
        · exact hnew h
      · rw [get?_copy]
        split
        · rfl
        · next hne =>
          refine hleft other ?_
          rw [List.mem_cons, not_or]
          exact ⟨fun h ↦ hne (Named.Lawful.name_inj h), hother⟩

/-! ### Documents -/

/-- The value of a field in JSON. -/
def Value.json : Value → Json.Value
  | .provider p => .text (Named.name p)
  | .expiryType e => .text (Named.name e)
  | .word n => .number (Literal.ofNat n.toNat)
  | .flag b => .flag b

/-- What settings write for each field that is set. -/
def sheet (s : Settings) (field : Field) : Option Json.Value :=
  (s.get? field).map Value.json

/-- What stands for a field, set or not. -/
def entry (values : Field → Option Json.Value) (field : Field) : Json.Value :=
  (values field).getD .null

/-- The member for a field. -/
def member (values : Field → Option Json.Value) (field : Field) : String × Json.Value :=
  (Named.name field, entry values field)

/-- The documents with given values: objects with all fields that have a value and any of the
others, in any order, and arrays as long as all values need. -/
inductive IsDocument (values : Field → Option Json.Value) : Json.Value → Prop where
  | object {fields : List Field} (hnodup : fields.Nodup)
      (hall : ∀ field, values field ≠ none → field ∈ fields) :
      IsDocument values (.object (fields.map (member values)))
  | array {count : Nat} (hall : ∀ field, values field ≠ none → field ∈ Field.all.take count) :
      IsDocument values (.array ((Field.all.take count).map (entry values)))

private theorem ofElements?_map {given fields : List Field} {s : Settings}
    {values : Field → Option Json.Value} (count : Nat) (hnodup : fields.Nodup)
    (hfresh : ∀ field ∈ fields, field ∉ given) :
    ofElements? fields s ((fields.take count).map (entry values)) =
      ofMembers? given s ((fields.take count).map (member values)) := by
  induction fields generalizing given s count with
  | nil => simp [ofElements?, ofMembers?]
  | cons field fields ih =>
    cases count with
    | zero => simp [ofElements?, ofMembers?]
    | succ count =>
      have hmember : ofMember? given s (Named.name field) (entry values field) =
          (assign? field (entry values field) s).map fun t ↦ (field, t) := by
        simp [ofMember?, hfresh field List.mem_cons_self]
      rw [List.take_succ_cons, List.map_cons, List.map_cons, ofElements?, member, ofMembers?,
        hmember]
      cases assign? field (entry values field) s with
      | none => rfl
      | some t =>
        obtain ⟨habsent, hnodup⟩ := List.nodup_cons.mp hnodup
        refine ih count hnodup fun other hother h ↦ ?_
        rcases List.mem_cons.mp h with rfl | h
        · exact habsent hother
        · exact hfresh other (List.mem_cons_of_mem field hother) h

private theorem gives_null {field : Field} {s : Settings} :
    Gives field .null s ↔ s.get? field = none := by
  cases field <;> simp [Gives, Json.Value.optional?, get?, eq_comm]

/-- Members for different fields, among them all that have a value, give settings if the value of
each field gives it. -/
theorem ofMembers?_map {values : Field → Option Json.Value} {fields : List Field} {s : Settings}
    (hnodup : fields.Nodup) (hall : ∀ field, values field ≠ none → field ∈ fields) :
    ofMembers? [] empty (fields.map (member values)) = some s ↔
      ∀ field, Gives field (entry values field) s := by
  have hkeys : (fields.map (member values)).map Prod.fst = fields.map Named.name :=
    List.map_map
  have hmem {field : Field} : Named.name field ∈ fields.map Named.name ↔ field ∈ fields :=
    List.mem_map_of_injective fun _ _ ↦ Named.Lawful.name_inj
  have habsent {field : Field} (h : field ∉ fields) :
      Gives field (entry values field) s ↔ s.get? field = none := by
    have hnone : values field = none := by
      by_contra hvalue
      exact h (hall field hvalue)
    rw [entry, hnone]
    exact gives_null
  rw [ofMembers?_eq_some_iff, hkeys]
  constructor
  · rintro ⟨-, hmembers, hleft⟩ field
    by_cases hfield : field ∈ fields
    · obtain ⟨other, hname, -, hgives⟩ := hmembers _ (List.mem_map_of_mem hfield)
      obtain rfl := Named.Lawful.name_inj hname
      exact hgives
    · rw [habsent hfield, hleft field (mt hmem.mp hfield), get?_empty]
  · intro hgives
    refine ⟨hnodup.map fun _ _ ↦ Named.Lawful.name_inj, fun m hm ↦ ?_, fun field hfield ↦ ?_⟩
    · obtain ⟨field, -, rfl⟩ := List.mem_map.mp hm
      exact ⟨field, rfl, List.not_mem_nil, hgives field⟩
    · rw [get?_empty]
      exact (habsent (mt hmem.mpr hfield)).mp (hgives field)

theorem nodup_fields : Field.all.Nodup := by
  decide

/-- A document gives settings if the value of each field gives it. -/
theorem ofValue?_document {values : Field → Option Json.Value} {v : Json.Value} {s : Settings}
    (h : IsDocument values v) :
    ofValue? v = some s ↔ ∀ field, Gives field (entry values field) s := by
  cases h with
  | object hnodup hall => exact ofMembers?_map hnodup hall
  | @array count hall =>
    rw [ofValue?, ofElements?_map count nodup_fields fun _ _ ↦ List.not_mem_nil]
    exact ofMembers?_map (nodup_fields.sublist (List.take_sublist count _)) hall

/-! ### What documents are read as -/

private theorem gives_sheet {s t : Settings} {field : Field} :
    Gives field (entry s.sheet field) t ↔ t.get? field = s.get? field := by
  cases hvalue : s.get? field with
  | none =>
    rw [entry, sheet, hvalue]
    exact gives_null
  | some value =>
    rw [entry, sheet, hvalue]
    cases field
    all_goals
      obtain ⟨a, -, rfl⟩ := Option.map_eq_some_iff.mp hvalue
      simp [Gives, Value.json, Json.Value.optional?, Json.Value.member?, Json.Value.word?,
        Json.Value.flag?, get?, eq_comm]

private theorem gives_number {field : Field} {l : Literal} {s : Settings}
    (hfield : field = .maxSize ∨ field = .expiryTimeMs) :
    Gives field (.number l) s ↔ ∃ n, l.IsWord n ∧ s.get? field = some (.word n) := by
  have hword {o : Option UInt64} : l.word?.map some = some o ↔
      ∃ n, l.IsWord n ∧ o.map Value.word = some (.word n) := by
    rw [Option.map_eq_some_iff]
    refine exists_congr fun n ↦ and_congr Literal.word?_eq_some_iff ?_
    simp [eq_comm]
  rcases hfield with rfl | rfl
  · exact hword
  · exact hword

/-- A text is read as the settings of the value that it spells. -/
theorem fromJson_eq_ok_iff {v : Json.Value} {text : String} {s : Settings}
    (h : v.Spells text.toList) : fromJson text = .ok s ↔ ofValue? v = some s := by
  rw [← toOption_ofJson h, fromJson]
  cases ofJson text with
  | ok t => simp [Except.toOption]
  | error problem => simp [Except.toOption]

/-- A text is refused if its value gives no settings. -/
theorem fromJson_eq_error {v : Json.Value} {text : String} (h : v.Spells text.toList)
    (hnone : ofValue? v = none) : ∃ detail, fromJson text = .error (.config detail) := by
  rw [← toOption_ofJson h] at hnone
  rw [fromJson]
  cases hread : ofJson text with
  | ok t =>
    rw [hread] at hnone
    cases hnone
  | error problem => exact ⟨_, rfl⟩

/-! ### What settings write -/

/-- The characters of names stand for themselves between quotes. -/
theorem spells_nameText {name : String}
    (h : name.toList.all (fun c ↦ 0x20 ≤ c.toNat && c != '"' && c != '\\') = true) :
    Json.Lexeme.Spells (.text name) ("\"" ++ name ++ "\"").toList := by
  rw [String.toList_append, String.toList_append]
  exact .text (Json.spellsText_self (by simpa [and_assoc] using h))

private theorem spells_json (value : Value) : value.json.Spells value.text.toList := by
  cases value with
  | provider p => exact (spells_nameText (by cases p <;> decide)).layout
  | expiryType e => exact (spells_nameText (by cases e <;> decide)).layout
  | word n =>
    have htext : (Literal.ofNat n.toNat).text = Text.decimal n.toNat := by
      simp [Literal.text, Literal.magnitude, Literal.ofNat]
    rw [Value.text, String.toList_ofList, ← htext]
    exact (Json.Lexeme.Spells.number _).layout
  | flag b =>
    cases b
    · exact Json.Lexeme.Spells.no.layout
    · exact Json.Lexeme.Spells.yes.layout

/-- What is written for a field, set or not. -/
def entryText (s : Settings) (field : Field) : String :=
  ((s.get? field).map Value.text).getD "null"

private theorem spells_entry (s : Settings) (field : Field) :
    (entry s.sheet field).Spells (s.entryText field).toList := by
  rw [entry, sheet, entryText]
  cases s.get? field with
  | none => exact Json.Lexeme.Spells.null.layout
  | some value => exact spells_json value

/-- What is written for a member. -/
def memberText (s : Settings) (field : Field) : String :=
  "\"" ++ Named.name field ++ "\":" ++ s.entryText field

private theorem layout_members (s : Settings) (fields : List Field) :
    Json.Layout (Json.memberLexemes (fields.map (member s.sheet)))
      (String.intercalate "," (fields.map s.memberText)).toList := by
  induction fields with
  | nil => exact .done nofun
  | cons field fields ih =>
    have hkey : Json.Lexeme.Spells (.text (Named.name field))
        ("\"" ++ Named.name field ++ "\"").toList :=
      spells_nameText (by cases field <;> decide)
    have hmember : Json.Layout
        (.text (Named.name field) :: .colon :: (entry s.sheet field).lexemes)
        (s.memberText field).toList := by
      have hlayout := hkey.layout.append
        (Json.Lexeme.Spells.colon.layout.append (s.spells_entry field))
      simpa [memberText] using hlayout
    rw [List.map_cons, List.map_cons, member, Json.memberLexemes_cons]
    cases fields with
    | nil => simpa [Json.moreMembers] using hmember
    | cons next fields =>
      have hmore := hmember.append (Json.Lexeme.Spells.comma.layout.append ih)
      simpa [Json.moreMembers, String.intercalate_cons_cons] using hmore

/-- The JSON text of settings is an object with all fields in their order. -/
theorem spells_toJson (s : Settings) :
    (Json.Value.object (Field.all.map (member s.sheet))).Spells s.toJson.toList := by
  have hlayout := Json.Lexeme.Spells.openBrace.layout.append
    ((s.layout_members Field.all).append Json.Lexeme.Spells.closeBrace.layout)
  rw [Json.Value.Spells, Json.Value.lexemes, toJson, String.toList_append, String.toList_append,
    List.append_assoc]
  exact hlayout

/-! ### Every spelling is read alike -/

/-- The settings with a number for one of the fields that take numbers. -/
def setWord (s : Settings) (field : Field) (n : UInt64) : Settings :=
  match field with
  | .maxSize => { s with maxSize := some n }
  | .expiryTimeMs => { s with expiryTimeMs := some n }
  | _ => s

private theorem get?_setWord {s : Settings} {field : Field} {n : UInt64}
    (hfield : field = .maxSize ∨ field = .expiryTimeMs) (other : Field) :
    (s.setWord field n).get? other = if other = field then some (.word n) else s.get? other := by
  rcases hfield with rfl | rfl <;> cases other <;> rfl

/-- A document with a number for a field gives the settings with that number, if it is plain, and
no others. -/
theorem gives_update_iff {s t : Settings} {field : Field} {l : Literal}
    (hfield : field = .maxSize ∨ field = .expiryTimeMs) :
    (∀ other, Gives other (entry (Function.update s.sheet field (some (.number l))) other) t) ↔
      ∃ n, l.IsWord n ∧ t = s.setWord field n := by
  have hself : entry (Function.update s.sheet field (some (.number l))) field = .number l := by
    simp [entry]
  have hother {other : Field} (h : other ≠ field) :
      entry (Function.update s.sheet field (some (.number l))) other = entry s.sheet other := by
    simp [entry, h]
  constructor
  · intro hgives
    have hnumber := hgives field
    rw [hself, gives_number hfield] at hnumber
    obtain ⟨n, hword, hvalue⟩ := hnumber
    refine ⟨n, hword, ext_get? fun other ↦ ?_⟩
    rw [get?_setWord hfield]
    split
    · next heq => rw [heq, hvalue]
    · next hne => exact gives_sheet.mp (hother hne ▸ hgives other)
  · rintro ⟨n, hword, rfl⟩ other
    by_cases heq : other = field
    · rw [heq, hself, gives_number hfield]
      exact ⟨n, hword, by rw [get?_setWord hfield, if_pos rfl]⟩
    · rw [hother heq, gives_sheet, get?_setWord hfield, if_neg heq]

/-- No settings are given where a key is no field's or stands twice. -/
theorem ofMembers?_eq_none {front back : List (String × Json.Value)} {key : String}
    {v : Json.Value}
    (hkey : (∀ field : Field, Named.name field ≠ key) ∨ key ∈ (front ++ back).map Prod.fst) :
    ofMembers? [] empty (front ++ (key, v) :: back) = none := by
  cases hread : ofMembers? [] empty (front ++ (key, v) :: back) with
  | none => rfl
  | some t =>
    obtain ⟨hnodup, hmembers, -⟩ := ofMembers?_eq_some_iff.mp hread
    rcases hkey with hunknown | hpresent
    · obtain ⟨field, hname, -⟩ := hmembers (key, v) (by simp)
      exact absurd hname (hunknown field)
    · rw [List.map_append, List.map_cons, List.nodup_middle, ← List.map_append] at hnodup
      exact absurd hpresent (List.nodup_cons.mp hnodup).1

/-- A document with the values of settings is read as those settings. -/
theorem fromJson_of_document {s : Settings} {v : Json.Value} {text : String}
    (h : IsDocument s.sheet v) (hspells : v.Spells text.toList) : fromJson text = .ok s := by
  rw [fromJson_eq_ok_iff hspells, ofValue?_document h]
  exact fun field ↦ gives_sheet.mpr rfl

/-- What settings write in JSON is one of their documents. -/
theorem isDocument_fields (s : Settings) :
    IsDocument s.sheet (.object (Field.all.map (member s.sheet))) :=
  .object nodup_fields fun field _ ↦ Named.Lawful.mem_members field

/-- The text of any document with the values of settings is read as those settings, and the text
that they write is one. A member too much is refused, as is a number that is not a plain one of 64
bits; a plain one is read exactly. -/
theorem fromJson_exact (s : Settings) :
    (∀ v text, IsDocument s.sheet v → v.Spells text.toList → fromJson text = .ok s) ∧
      (∃ v, IsDocument s.sheet v ∧ v.Spells s.toJson.toList) ∧
      (∀ front back key v text,
        ((∀ field : Field, Named.name field ≠ key) ∨ key ∈ (front ++ back).map Prod.fst) →
        (Json.Value.object (front ++ (key, v) :: back)).Spells text.toList →
          ∃ detail, fromJson text = .error (.config detail)) ∧
      ∀ field l v text t, field = .maxSize ∨ field = .expiryTimeMs →
        IsDocument (Function.update s.sheet field (some (.number l))) v → v.Spells text.toList →
          (fromJson text = .ok t ↔ ∃ n, l.IsWord n ∧ t = s.setWord field n) := by
  refine ⟨fun v text ↦ fromJson_of_document, ⟨_, s.isDocument_fields, s.spells_toJson⟩,
    fun front back key v text hkey hspells ↦ ?_,
    fun field l v text t hfield hdocument hspells ↦ ?_⟩
  · exact fromJson_eq_error hspells (ofMembers?_eq_none hkey)
  · rw [fromJson_eq_ok_iff hspells, ofValue?_document hdocument]
    exact gives_update_iff hfield

/-- The largest number stands in an array behind a blank; the number after it is refused, and so is
a field that stands twice. -/
theorem fromJson_exact_at_bound :
    fromJson "[null, 18446744073709551615]" =
        .ok ⟨none, some 18446744073709551615, none, none, none⟩ ∧
      (∃ detail, fromJson "\x7b\"max_size\":null,\"max_size\":null\x7d" =
        .error (.config detail)) ∧
      ∀ t, fromJson "\x7b\"max_size\":18446744073709551616\x7d" ≠ .ok t := by
  obtain ⟨hread, -, htwice, hnumber⟩ :=
    fromJson_exact ⟨none, some 18446744073709551615, none, none, none⟩
  have hkey : Json.Lexeme.Spells (.text "max_size") "\"max_size\"".toList :=
    @spells_nameText "max_size" (by decide)
  have hnull := (hkey.layout.append Json.Lexeme.Spells.colon.layout).append
    Json.Lexeme.Spells.null.layout
  have hbound : Json.Lexeme.Spells (.number (Literal.ofNat 18446744073709551615))
      "18446744073709551615".toList := by
    rw [show "18446744073709551615".toList = (Literal.ofNat 18446744073709551615).text by decide]
    exact .number _
  have hlarge : Json.Lexeme.Spells (.number (Literal.ofNat 18446744073709551616))
      "18446744073709551616".toList := by
    rw [show "18446744073709551616".toList = (Literal.ofNat 18446744073709551616).text by decide]
    exact .number _
  refine ⟨hread _ _ (@IsDocument.array _ 2 ?_) ?_,
    htwice [("max_size", .null)] [] "max_size" .null _ (.inr (by simp)) ?_, fun t ht ↦ ?_⟩
  · intro field
    cases field <;> decide
  · exact Json.Lexeme.Spells.openBracket.layout.append
      ((Json.Lexeme.Spells.null.layout.append (Json.Lexeme.Spells.comma.layout.append
        (@Json.Layout.blanks_append _ [' '] _ (by simp [Json.isSpace]) hbound.layout))).append
        Json.Lexeme.Spells.closeBracket.layout)
  · exact Json.Lexeme.Spells.openBrace.layout.append ((hnull.append
      Json.Lexeme.Spells.comma.layout).append (hnull.append
      Json.Lexeme.Spells.closeBrace.layout))
  · have hdocument : IsDocument (Function.update
        (sheet ⟨none, some 18446744073709551615, none, none, none⟩) .maxSize
        (some (.number (Literal.ofNat 18446744073709551616))))
        (.object [("max_size", .number (Literal.ofNat 18446744073709551616))]) :=
      @IsDocument.object _ [.maxSize] (by decide) (by intro field; cases field <;> decide)
    have hspells : (Json.Value.object
        [("max_size", .number (Literal.ofNat 18446744073709551616))]).Spells
        "\x7b\"max_size\":18446744073709551616\x7d".toList :=
      Json.Lexeme.Spells.openBrace.layout.append (((hkey.layout.append
        Json.Lexeme.Spells.colon.layout).append hlarge.layout).append
        Json.Lexeme.Spells.closeBrace.layout)
    obtain ⟨n, hword, -⟩ := (hnumber .maxSize _ _ _ t (.inl rfl) hdocument hspells).mp ht
    have hvalue := hword.value
    have hlt := n.toNat_lt
    rw [Literal.ofNat, Text.valueOf_decimal] at hvalue
    omega

end Caching.Settings
