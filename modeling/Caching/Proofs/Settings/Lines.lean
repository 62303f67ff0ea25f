import Caching.Proofs.Settings.Documents
import Caching.Proofs.Toml.Tables
import Caching.Proofs.Vocabulary.Lawful

/-!
# Settings as TOML documents

A document gives settings by one line for each field that is set, in any order and layout. It is
read as the same settings as the JSON text that they write; a line that stands twice or has a key of
no field is refused.
-/

namespace Caching.Settings

/-! ### Tables -/

/-- The value of a field in TOML. -/
def Value.toml : Value → Toml.Value
  | .provider p => .text (Named.name p)
  | .expiryType e => .text (Named.name e)
  | .word n => .number n.toNat
  | .flag b => .flag b

/-- The entry for a field, if it is set. -/
def entryOf? (s : Settings) (field : Field) : Option Toml.Entry :=
  (s.get? field).map fun value ↦ (Named.name field, value.toml)

/-- The entries of settings, in the order of the fields. -/
def entries (s : Settings) : List Toml.Entry :=
  Field.all.filterMap s.entryOf?

private theorem mem_entries_iff {s : Settings} {e : Toml.Entry} :
    e ∈ s.entries ↔
      ∃ field value, s.get? field = some value ∧ e = (Named.name field, value.toml) := by
  have hall (field : Field) : field ∈ Field.all := Named.Lawful.mem_members field
  simp only [entries, entryOf?, List.mem_filterMap, hall, true_and, Option.map_eq_some_iff]
  exact exists_congr fun field ↦ exists_congr fun value ↦ and_congr_right fun _ ↦ eq_comm

private theorem nodup_keys_entries (s : Settings) : (Toml.keys s.entries).Nodup := by
  rw [Toml.keys, entries, List.map_filterMap]
  refine nodup_fields.filterMap fun field other key hkey hother ↦ ?_
  simp only [entryOf?, Option.map_map, Option.mem_def, Option.map_eq_some_iff] at hkey hother
  obtain ⟨_, -, rfl⟩ := hkey
  obtain ⟨_, -, hname⟩ := hother
  exact Named.Lawful.name_inj hname.symm

private theorem find?_of_perm {s : Settings} {t : Toml.Table} (h : t.Perm s.entries)
    (field : Field) : t.find? (Named.name field) = (s.get? field).map Value.toml := by
  have ht : (Toml.keys t).Nodup := (h.map Prod.fst).nodup_iff.mpr s.nodup_keys_entries
  cases hvalue : s.get? field with
  | none =>
    refine Toml.find?_eq_none_iff.mpr fun hmem ↦ ?_
    obtain ⟨e, he, hname⟩ := List.mem_map.mp hmem
    obtain ⟨other, value, hother, rfl⟩ := mem_entries_iff.mp (h.mem_iff.mp he)
    obtain rfl := Named.Lawful.name_inj hname
    rw [hvalue] at hother
    cases hother
  | some value =>
    exact Toml.find?_of_mem ht (h.mem_iff.mpr (mem_entries_iff.mpr ⟨field, value, hvalue, rfl⟩))

private theorem field?_of_perm {α : Type} {s : Settings} {t : Toml.Table} (h : t.Perm s.entries)
    {field : Field} (embed : α → Value) {value : Option α} {read : Toml.Value → Option α}
    (hvalue : s.get? field = value.map embed) (hread : ∀ a, read (embed a).toml = some a) :
    field? t field read = some value := by
  rw [field?, find?_of_perm h, hvalue]
  cases value with
  | none => rfl
  | some a => simp [hread a]

private theorem ofToml?_of_perm {s : Settings} {t : Toml.Table} {text : String}
    (h : t.Perm s.entries) (hread : Toml.ofText? text = some t) : ofToml? text = some s := by
  have hknown : (t.all fun e ↦ (Named.ofName? e.1 : Option Field).isSome) = true := by
    refine List.all_eq_true.mpr fun e he ↦ ?_
    obtain ⟨field, value, -, rfl⟩ := mem_entries_iff.mp (h.mem_iff.mp he)
    simp
  have hword (n : UInt64) : word? (Value.word n).toml = some n := by
    have hlt : n.toNat < Text.wordBound := n.toNat_lt
    simp [word?, Value.toml, hlt]
  have hprovider : field? t .provider member? = some s.provider :=
    field?_of_perm h .provider rfl fun p ↦ by simp [member?, Value.toml]
  have hmax : field? t .maxSize word? = some s.maxSize := field?_of_perm h .word rfl hword
  have htype : field? t .expiryType member? = some s.expiryType :=
    field?_of_perm h .expiryType rfl fun e ↦ by simp [member?, Value.toml]
  have htime : field? t .expiryTimeMs word? = some s.expiryTimeMs :=
    field?_of_perm h .word rfl hword
  have hflag : field? t .highContention flag? = some s.highContention :=
    field?_of_perm h .flag rfl fun b ↦ rfl
  rw [ofToml?, hread]
  simp [hknown, hprovider, hmax, htype, htime, hflag]

/-- A table with a key of no field gives no settings. -/
theorem ofToml?_of_unknown {key : String} {text : String}
    (hkey : ∀ field : Field, Named.name field ≠ key)
    (hread : ∀ t, Toml.ofText? text = some t → key ∈ Toml.keys t) : ofToml? text = none := by
  unfold ofToml?
  cases htable : Toml.ofText? text with
  | none => rfl
  | some t =>
    obtain ⟨e, he, rfl⟩ := List.mem_map.mp (hread t htable)
    have hunknown : (t.all fun e ↦ (Named.ofName? e.1 : Option Field).isSome) = false := by
      refine List.all_eq_false.mpr ⟨e, he, ?_⟩
      simp [Named.ofName?_eq_none_iff.mpr hkey]
    simp [hunknown]

/-! ### What settings write -/

private theorem spellsValue_nameText {name : String}
    (h : name.toList.all (fun c ↦ Toml.isPlain c && c != '"' && c != '\\') = true) :
    Toml.SpellsValue (.text name) ("\"" ++ name ++ "\"").toList := by
  rw [String.toList_append, String.toList_append]
  refine .text fun c hc ↦ ?_
  simpa [Toml.IsRaw, and_assoc] using List.all_eq_true.mp h c hc

/-- The text of a value spells it. -/
theorem spellsValue_text (value : Value) : Toml.SpellsValue value.toml value.text.toList := by
  cases value with
  | provider p => exact spellsValue_nameText (by cases p <;> decide)
  | expiryType e => exact spellsValue_nameText (by cases e <;> decide)
  | word n =>
    rw [Value.text, String.toList_ofList]
    exact .number _
  | flag b =>
    cases b
    · exact .no
    · exact .yes

/-- The names of fields need no quotes. -/
theorem isBareKey_name (field : Field) : Toml.IsBareKey (Named.name field).toList where
  nonempty := by cases field <;> decide
  bare := List.all_eq_true.mp (by cases field <;> decide)

/-- The line that is written for a field, if it is set. -/
def lineText (s : Settings) (field : Field) : String :=
  match s.get? field with
  | some value => Named.name field ++ " = " ++ value.text ++ "\n"
  | none => ""

/-- A value behind the name of its field, with the blanks that are written. -/
theorem line_field (field : Field) (value : Value) :
    Toml.Line (some (Named.name field, value.toml))
      ((Named.name field).toList ++ " = ".toList ++ value.text.toList) := by
  have hline := @Toml.Line.entry _ _ _ [] [' '] [' '] [] [] (isBareKey_name field)
    (spellsValue_text value) (.of_all rfl) (.of_all rfl) (.of_all rfl) (.of_all rfl) (.inl rfl)
  simpa using hline

private theorem lines_join (s : Settings) (fields : List Field) :
    Toml.Lines (fields.filterMap s.entryOf?) (String.join (fields.map s.lineText)).toList := by
  induction fields with
  | nil => exact .nil
  | cons field fields ih =>
    rw [String.toList_join] at ih ⊢
    rw [List.map_cons, List.flatMap_cons, lineText, List.filterMap_cons, entryOf?]
    cases s.get? field with
    | none => exact ih
    | some value => simpa using Toml.Lines.cons (line_field field value) (.inl rfl) ih

/-- The text that settings write is a document with their entries. -/
theorem isDocument_toToml (s : Settings) : Toml.IsDocument s.entries s.toToml.toList := by
  have hlast : Toml.Line none ([] ++ []) := .empty (.of_all rfl) (.inl rfl)
  have hdocument := Toml.IsDocument.intro (s.lines_join Field.all) hlast
  rw [Option.toList_none, List.append_nil, List.append_nil, List.append_nil] at hdocument
  exact hdocument

/-! ### Every layout is read alike -/

private theorem fromToml_eq_ok {s : Settings} {text : String} (h : ofToml? text = some s) :
    fromToml text = .ok s := by
  rw [fromToml, h]

theorem fromToml_eq_error {text : String} (h : ofToml? text = none) :
    ∃ detail, fromToml text = .error (.config detail) := by
  rw [fromToml, h]
  exact ⟨_, rfl⟩

/-- A document with the entries of settings, in any order, is read as those settings. -/
theorem fromToml_of_perm {s : Settings} {entries : List Toml.Entry} {text : String}
    (hperm : entries.Perm s.entries) (h : Toml.IsDocument entries text.toList) :
    fromToml text = .ok s := by
  have hkeys : (Toml.keys entries).Nodup :=
    (hperm.map Prod.fst).nodup_iff.mpr s.nodup_keys_entries
  have hread := Toml.ofText?_of_document h
  rw [if_pos hkeys] at hread
  exact fromToml_eq_ok (ofToml?_of_perm (entries.reverse_perm.trans hperm) hread)

/-- A document in which a key stands twice is refused. -/
theorem fromToml_of_twice {front back : List Toml.Entry} {entry : Toml.Entry} {text : String}
    (htwice : entry.1 ∈ Toml.keys (front ++ back))
    (h : Toml.IsDocument (front ++ entry :: back) text.toList) :
    ∃ detail, fromToml text = .error (.config detail) := by
  have hkeys : ¬ (Toml.keys (front ++ entry :: back)).Nodup := by
    intro hnodup
    rw [Toml.keys, List.map_append, List.map_cons, List.nodup_middle, ← List.map_append] at hnodup
    exact (List.nodup_cons.mp hnodup).1 htwice
  have hread := Toml.ofText?_of_document h
  rw [if_neg hkeys] at hread
  refine fromToml_eq_error ?_
  rw [ofToml?, hread]
  rfl

/-- A document with the entries of settings, in any order and layout, is read as those settings, and
so is the text that they write, with the same outcome as in JSON. A document in which a key stands
twice is refused, as is one with a key of no field on any of its lines. -/
theorem fromToml_exact (s : Settings) :
    (fromToml s.toToml = .ok s ∧ fromToml s.toToml = fromJson s.toJson) ∧
      (∀ entries text, entries.Perm s.entries → Toml.IsDocument entries text.toList →
        fromToml text = .ok s) ∧
      (∀ front entry back text, entry.1 ∈ Toml.keys (front ++ back) →
        Toml.IsDocument (front ++ entry :: back) text.toList →
          ∃ detail, fromToml text = .error (.config detail)) ∧
      ∀ entries lines blanks key spelled tail text, Toml.Lines entries lines →
        Toml.AreSpaces blanks → Toml.SpellsKey key spelled →
        (∀ field : Field, Named.name field ≠ key) → Toml.Stops Toml.isBare tail →
        text.toList = lines ++ (blanks ++ (spelled ++ tail)) →
          ∃ detail, fromToml text = .error (.config detail) := by
  have hwritten : fromToml s.toToml = .ok s := fromToml_of_perm (.refl _) s.isDocument_toToml
  have hjson : fromJson s.toJson = .ok s :=
    fromJson_of_document s.isDocument_fields s.spells_toJson
  refine ⟨⟨hwritten, hwritten.trans hjson.symm⟩, fun entries text ↦ fromToml_of_perm,
    fun front entry back text ↦ fromToml_of_twice, ?_⟩
  intro entries lines blanks key spelled tail text hlines hblanks hkey hunknown htail htext
  exact fromToml_eq_error (ofToml?_of_unknown hunknown fun t ↦
    Toml.mem_keys_of_ofText? hlines hblanks hkey htail htext)

/-- Two lines in the other order, with a comment and blanks, and the largest number. -/
theorem fromToml_exact_of_reordered :
    fromToml "max_size\t=18446744073709551615\r\n#\n provider = \"moka\" #" =
        .ok ⟨some .moka, some 18446744073709551615, none, none, none⟩ ∧
      (∃ detail, fromToml "provider = \"moka\"\nprovider = \"lru\"" = .error (.config detail)) ∧
      ∃ detail, fromToml "provider = \"moka\"\n'size' = 1" = .error (.config detail) := by
  obtain ⟨-, hread, htwice, hunknown⟩ :=
    fromToml_exact ⟨some .moka, some 18446744073709551615, none, none, none⟩
  have hmark : Toml.IsComment ['#'] := .inr ⟨[], rfl, List.forall_mem_nil _⟩
  have hnumber : Toml.SpellsValue (.number 18446744073709551615) "18446744073709551615".toList := by
    rw [show "18446744073709551615".toList = Text.decimal 18446744073709551615 by decide]
    exact .number _
  have hsize : Toml.Line (some ("max_size", .number 18446744073709551615))
      "max_size\t=18446744073709551615".toList :=
    @Toml.Line.entry _ _ _ [] ['\t'] [] [] [] (isBareKey_name .maxSize) hnumber
      (.of_all rfl) (.of_all rfl) (.of_all rfl) (.of_all rfl) (.inl rfl)
  have hcomment : Toml.Line none ['#'] := @Toml.Line.empty [] _ (.of_all rfl) hmark
  have hlast : Toml.Line (some ("provider", .text "moka")) " provider = \"moka\" #".toList :=
    @Toml.Line.entry _ _ _ [' '] [' '] [' '] [' '] ['#'] (isBareKey_name .provider)
      (spellsValue_text (.provider .moka)) (.of_all rfl) (.of_all rfl) (.of_all rfl) (.of_all rfl)
      hmark
  have hmoka : Toml.Line (some ("provider", .text "moka")) "provider = \"moka\"".toList :=
    line_field .provider (.provider .moka)
  have hlru : Toml.Line (some ("provider", .text "lru")) "provider = \"lru\"".toList :=
    line_field .provider (.provider .lru)
  refine ⟨hread _ _ (.swap _ _ _) ?_,
    htwice [("provider", .text "moka")] ("provider", .text "lru") [] _ (by decide) ?_,
    hunknown [("provider", .text "moka")] "provider = \"moka\"\n".toList [] "size" "'size'".toList
      " = 1".toList _ ?_ (.of_all rfl) ?_ ?_ ?_ rfl⟩
  · exact .intro (.cons hsize (.inr rfl) (.cons hcomment (.inl rfl) .nil)) hlast
  · exact .intro (.cons hmoka (.inl rfl) .nil) hlru
  · exact .cons hmoka (.inl rfl) .nil
  · exact .single (by simp [Toml.isPlain])
  · intro field
    cases field <;> decide
  · rintro c rest ⟨⟩
    rfl

end Caching.Settings
