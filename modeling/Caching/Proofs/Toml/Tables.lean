import Caching.Proofs.Toml.Reading
import Mathlib.Data.List.Nodup

/-!
# The keys of TOML tables

A document of entries gives the table of its entries, unless a key stands twice. Whatever a document
goes on with, no key is ever taken away from its table.
-/

namespace Caching.Toml

/-! ### Tables of entries -/

/-- The keys of a table. -/
def keys (t : Table) : List String :=
  t.map Prod.fst

/-- With different keys, what stands under a key is the value of its entry. -/
theorem find?_of_mem {t : Table} (ht : (keys t).Nodup) {key : String} {v : Value}
    (h : (key, v) ∈ t) : t.find? key = some v := by
  induction t with
  | nil => cases h
  | cons e t ih =>
    obtain ⟨habsent, ht⟩ := List.nodup_cons.mp ht
    rw [Table.find?, List.lookup_cons]
    rcases List.mem_cons.mp h with rfl | h
    · simp
    · have hne : key ≠ e.1 := by
        rintro rfl
        exact habsent (List.mem_map.mpr ⟨_, h, rfl⟩)
      rw [beq_false_of_ne hne]
      exact ih ht h

theorem find?_eq_none_iff {t : Table} {key : String} : t.find? key = none ↔ key ∉ keys t := by
  simp only [Table.find?, keys, List.lookup_eq_none_iff, bne_iff_ne, List.mem_map, not_exists,
    not_and]
  exact forall₂_congr fun e _ ↦ ne_comm

private theorem addNew?_eq (t : Table) (entry : Entry) :
    addNew? t entry = if entry.1 ∈ keys t then none else some (entry :: t) := by
  by_cases hmem : entry.1 ∈ keys t
  · rw [if_pos hmem]
    cases hfind : t.find? entry.1 with
    | none => exact absurd hmem (find?_eq_none_iff.mp hfind)
    | some v => rw [addNew?, Table.add?, hfind]
  · rw [if_neg hmem, addNew?, Table.add?, find?_eq_none_iff.mpr hmem]
    have hkeep : t.filter (fun e ↦ e.1 != entry.1) = t := by
      refine List.filter_eq_self.mpr fun e he ↦ bne_iff_ne.mpr ?_
      rintro heq
      exact hmem (List.mem_map.mpr ⟨e, he, heq⟩)
    simp only [Table.set, hkeep]

private theorem addEntries?_eq {t : Table} {entries : List Entry} (ht : (keys t).Nodup) :
    addEntries? t entries =
      if (keys (entries ++ t)).Nodup then some (entries.reverse ++ t) else none := by
  induction entries generalizing t with
  | nil => simp [addEntries?, ht]
  | cons entry entries ih =>
    have hkeys : (keys (entry :: entries ++ t)).Nodup ↔ (keys (entries ++ entry :: t)).Nodup := by
      simp only [keys, List.cons_append, List.map_cons, List.map_append]
      exact List.nodup_middle.symm
    have hstep : addEntries? t (entry :: entries) =
        (addNew? t entry).bind fun t ↦ addEntries? t entries := rfl
    rw [hstep, addNew?_eq]
    by_cases hmem : entry.1 ∈ keys t
    · have htwice : ¬ (keys (entry :: entries ++ t)).Nodup := by
        intro hnodup
        obtain ⟨e, he, heq⟩ := List.mem_map.mp hmem
        refine (List.nodup_cons.mp hnodup).1 ?_
        exact List.mem_map.mpr ⟨e, List.mem_append_right entries he, heq⟩
      rw [if_pos hmem, if_neg htwice]
      rfl
    · have hfresh : (keys (entry :: t)).Nodup := List.nodup_cons.mpr ⟨hmem, ht⟩
      rw [if_neg hmem, Option.bind_some, ih hfresh]
      simp only [hkeys, List.reverse_cons, List.append_assoc, List.singleton_append]

private theorem ofText?_eq {text : String} (h : ∀ rest, text.toList ≠ '\ufeff' :: rest) :
    ofText? text = readLines (text.toList.length + 1) ⟨[], []⟩ text.toList := by
  rw [ofText?]
  split
  · next rest heq => exact absurd heq (h rest)
  · rfl

/-- The table of a document has its entries in reverse; there is none if a key stands twice. -/
theorem ofText?_of_document {entries : List Entry} {text : String}
    (h : IsDocument entries text.toList) :
    ofText? text = if (keys entries).Nodup then some entries.reverse else none := by
  rw [ofText?_eq h.head, readLines_of_document h (Nat.lt_succ_self _),
    addEntries?_eq (t := []) List.nodup_nil, List.append_nil, List.append_nil]

/-! ### Keys that stay -/

/-- No key of the first table is missing in the second. -/
def Keeps (t t' : Table) : Prop :=
  ∀ key ∈ keys t, key ∈ keys t'

theorem Keeps.trans {t u w : Table} (h : Keeps t u) (h' : Keeps u w) : Keeps t w :=
  fun key hkey ↦ h' key (h key hkey)

private theorem mem_keys_set (key : String) (v : Value) (t : Table) : key ∈ keys (t.set key v) :=
  List.mem_cons_self

private theorem keeps_set (key : String) (v : Value) (t : Table) : Keeps t (t.set key v) := by
  intro other hother
  by_cases heq : other = key
  · exact heq ▸ mem_keys_set key v t
  · obtain ⟨e, he, rfl⟩ := List.mem_map.mp hother
    exact List.mem_cons_of_mem _ (List.mem_map.mpr ⟨e, List.mem_filter.mpr ⟨he, by simpa⟩, rfl⟩)

private theorem add?_eq_set {key : String} {path : List String} {v : Value} {t t' : Table}
    (h : t.add? (key :: path) v = some t') : ∃ w, t' = t.set key w := by
  cases path with
  | nil =>
    rw [Table.add?] at h
    split at h
    · cases h
      exact ⟨v, rfl⟩
    · cases h
  | cons next path =>
    rw [Table.add?] at h
    · split at h
      · obtain ⟨inner, -, rfl⟩ := Option.map_eq_some_iff.mp h
        exact ⟨_, rfl⟩
      · obtain ⟨inner, -, rfl⟩ := Option.map_eq_some_iff.mp h
        exact ⟨_, rfl⟩
      · obtain ⟨inner, -, rfl⟩ := Option.map_eq_some_iff.mp h
        exact ⟨_, rfl⟩
      · cases h
    · simp

private theorem open?_eq_set {key : String} {path : List String} {t t' : Table}
    (h : t.open? (key :: path) = some t') : ∃ w, t' = t.set key w := by
  cases path with
  | nil =>
    rw [Table.open?] at h
    split at h
    · cases h
      exact ⟨_, rfl⟩
    · cases h
      exact ⟨_, rfl⟩
    · cases h
  | cons next path =>
    rw [Table.open?] at h
    · split at h
      · obtain ⟨inner, -, rfl⟩ := Option.map_eq_some_iff.mp h
        exact ⟨_, rfl⟩
      · cases h
      · obtain ⟨inner, -, rfl⟩ := Option.map_eq_some_iff.mp h
        exact ⟨_, rfl⟩
      · cases h
    · simp

private theorem keeps_open? {path : List String} {t t' : Table} (h : t.open? path = some t') :
    Keeps t t' := by
  cases path with
  | nil => cases h
  | cons key path =>
    obtain ⟨w, rfl⟩ := open?_eq_set h
    exact keeps_set key w t

private theorem keeps_addUnder? {header path : List String} {v : Value} {t t' : Table}
    (h : t.addUnder? header path v = some t') : Keeps t t' := by
  cases header with
  | nil =>
    cases path with
    | nil => cases h
    | cons key path =>
      obtain ⟨w, rfl⟩ := add?_eq_set h
      exact keeps_set key w t
  | cons key header =>
    rw [Table.addUnder?] at h
    split at h
    · obtain ⟨inner, -, rfl⟩ := Option.map_eq_some_iff.mp h
      exact keeps_set key _ t
    · cases h

private theorem keeps_readContent {draft draft' : Draft} {cs rest : List Char}
    (h : readContent draft cs = some (draft', rest)) : Keeps draft.table draft'.table := by
  unfold readContent at h
  split at h
  · obtain ⟨⟨path, rest⟩, -, h⟩ := Option.bind_eq_some_iff.mp h
    obtain ⟨t, hopen, h⟩ := Option.bind_eq_some_iff.mp h
    cases h
    exact keeps_open? hopen
  · obtain ⟨⟨⟨path, v⟩, rest⟩, -, h⟩ := Option.bind_eq_some_iff.mp h
    obtain ⟨t, hadd, h⟩ := Option.bind_eq_some_iff.mp h
    cases h
    exact keeps_addUnder? hadd

private theorem keeps_readLine {draft draft' : Draft} {cs rest : List Char}
    (h : readLine draft cs = some (draft', rest)) : Keeps draft.table draft'.table := by
  unfold readLine at h
  split at h
  all_goals first
    | exact keeps_readContent h
    | cases h
      exact fun key hkey ↦ hkey

private theorem readOn_cases {steps : Nat} {draft : Draft} {cs : List Char} {t : Table}
    (h : readOn steps draft cs = some t) :
    t = draft.table ∨ ∃ rest, readLines steps draft rest = some t := by
  unfold readOn at h
  split at h
  · exact .inl (Option.some.inj h).symm
  · split at h
    · exact .inr ⟨_, h⟩
    · cases h

private theorem keeps_readLines {steps : Nat} {draft : Draft} {cs : List Char} {t : Table}
    (h : readLines steps draft cs = some t) : Keeps draft.table t := by
  induction steps generalizing draft cs with
  | zero => cases h
  | succ steps ih =>
    rw [readLines_succ] at h
    obtain ⟨⟨draft', rest⟩, hline, hon⟩ := Option.bind_eq_some_iff.mp h
    refine (keeps_readLine hline).trans ?_
    rcases readOn_cases hon with rfl | ⟨rest, hread⟩
    · exact fun key hkey ↦ hkey
    · exact ih hread

private theorem SpellsKey.head {key : String} {spelled : List Char} (h : SpellsKey key spelled)
    (after : List Char) :
    ∃ c rest, spelled ++ after = c :: rest ∧ (isBare c = true ∨ c = '\'' ∨ c = '"') := by
  cases h with
  | bare hbare =>
    obtain ⟨c, rest, hstart, hc⟩ := hbare.head after
    exact ⟨c, rest, hstart, .inl hc⟩
  | single => exact ⟨_, _, rfl, .inr (.inl rfl)⟩
  | double => exact ⟨_, _, rfl, .inr (.inr rfl)⟩

private theorem head_of_readPair {key : String} {spelled : List Char} (h : SpellsKey key spelled)
    {after : List Char} (hafter : Stops isBare after)
    {value : List Char → Option (Value × List Char)} {path : List String} {v : Value}
    {rest : List Char} (hread : readPair value (spelled ++ after) = some ((path, v), rest)) :
    ∃ more, path = key :: more := by
  obtain ⟨⟨path', rest'⟩, hkey, hread⟩ := Option.bind_eq_some_iff.mp hread
  dsimp only at hread
  split at hread
  · obtain ⟨⟨v', rest'⟩, -, hpair⟩ := Option.bind_eq_some_iff.mp hread
    cases hpair
    exact head_of_readKey h hafter hkey
  · cases hread

private theorem mem_keys_of_key {key : String} {blanks spelled tail : List Char} {steps : Nat}
    {t t' : Table} (hkey : SpellsKey key spelled) (hblanks : AreSpaces blanks)
    (htail : Stops isBare tail)
    (h : readLines steps ⟨t, []⟩ (blanks ++ (spelled ++ tail)) = some t') : key ∈ keys t' := by
  cases steps with
  | zero => cases h
  | succ steps =>
    obtain ⟨c, rest, hstart, hc⟩ := hkey.head tail
    have hother {d : Char} (hd : isBare d = false ∧ d ≠ '\'' ∧ d ≠ '"') : c ≠ d := by
      rintro rfl
      simp [hd] at hc
    have hstops : Stops isSpace (spelled ++ tail) := by
      rw [hstart]
      rintro d more ⟨⟩
      rcases hc with hbare | rfl | rfl
      · exact isSpace_of_isBare hbare
      · rfl
      · rfl
    rw [readLines_succ, skipSpace_append hblanks hstops, hstart, readLine_of_content
      ⟨hother (by decide), hother (by decide), hother (by decide)⟩] at h
    obtain ⟨⟨draft, left⟩, hcontent, hon⟩ := Option.bind_eq_some_iff.mp h
    have hmem : key ∈ keys draft.table := by
      rw [readContent] at hcontent
      · obtain ⟨⟨⟨path, v⟩, left⟩, hpair, hcontent⟩ := Option.bind_eq_some_iff.mp hcontent
        obtain ⟨u, hadd, hcontent⟩ := Option.bind_eq_some_iff.mp hcontent
        cases hcontent
        obtain ⟨more, rfl⟩ := head_of_readPair hkey htail (hstart ▸ hpair)
        obtain ⟨w, rfl⟩ := add?_eq_set hadd
        exact mem_keys_set key w t
      · simp [@hother '[' (by decide)]
    rcases readOn_cases hon with rfl | ⟨rest, hread⟩
    · exact hmem
    · exact keeps_readLines hread key hmem

/-- Behind any lines, the key of the next one is in the table of the document. -/
theorem mem_keys_of_ofText? {entries : List Entry} {key : String}
    {lines blanks spelled tail : List Char} {text : String} {t : Table}
    (hlines : Lines entries lines) (hblanks : AreSpaces blanks) (hkey : SpellsKey key spelled)
    (htail : Stops isBare tail) (htext : text.toList = lines ++ (blanks ++ (spelled ++ tail)))
    (h : ofText? text = some t) : key ∈ keys t := by
  have hmark : ∀ rest, text.toList ≠ '\ufeff' :: rest := by
    intro rest heq
    rw [htext] at heq
    cases hlines with
    | nil =>
      cases blanks with
      | nil =>
        obtain ⟨c, more, hstart, hc⟩ := hkey.head tail
        rw [List.nil_append, List.nil_append, hstart] at heq
        cases heq
        exact absurd hc (by decide)
      | cons c blanks =>
        cases heq
        exact absurd (hblanks '\ufeff' List.mem_cons_self) (by decide)
    | cons hline hending =>
      rw [List.append_assoc, List.append_assoc] at heq
      exact absurd (hline.head (.inr ⟨_, _, hending, rfl⟩) heq) (by decide)
  have hlength : lines.length + (blanks ++ (spelled ++ tail)).length <
      (lines ++ (blanks ++ (spelled ++ tail))).length + 1 := by
    rw [← List.length_append]
    exact Nat.lt_succ_self _
  obtain ⟨steps, -, hread⟩ := readLines_append hlines hlength
  rw [ofText?_eq hmark, htext, hread] at h
  obtain ⟨u, -, hread⟩ := Option.bind_eq_some_iff.mp h
  exact mem_keys_of_key hkey hblanks htail hread

end Caching.Toml
