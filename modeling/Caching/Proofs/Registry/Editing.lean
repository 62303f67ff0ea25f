import Mathlib.Data.List.Infix
import Mathlib.Data.List.Nodup
import Caching.Cache.Registry

/-!
# Registries under edits

Whatever its owner lists and unlists, a registry lists every provider once, in the order in which
they were first listed. What is said about the availability of a provider counts from the moment it
is listed, and the last word counts. Resolution reads nothing else.
-/

namespace Caching

/-- The listing once something was said about its availability. -/
def Listing.heeding (l : Listing) (word : Option Bool) : Listing :=
  { l with available := word.getD l.available }

@[simp] theorem Listing.heeding_none (l : Listing) : l.heeding none = l := rfl

@[simp] theorem Listing.heeding_heeding (l : Listing) (word later : Option Bool) :
    (l.heeding word).heeding later = l.heeding (later.or word) := by
  cases later <;> rfl

@[simp] theorem Listing.heeding_self (l : Listing) : l.heeding (some l.available) = l := rfl

namespace Registry

/-- A change that its owner makes to a registry. -/
inductive Edit where
  | list (listing : Listing)
  | setAvailability (id : Provider) (available : Bool)
  deriving DecidableEq, Repr

namespace Edit

/-- The provider that a change lists. -/
def listed? : Edit → Option Provider
  | .list l => some l.id
  | .setAvailability .. => none

@[simp] theorem listed?_list (l : Listing) : (list l).listed? = some l.id := rfl

@[simp] theorem listed?_setAvailability (id : Provider) (available : Bool) :
    (setAvailability id available).listed? = none := rfl

/-- The listing that a change gives to a provider. -/
def listing? (id : Provider) : Edit → Option Listing
  | .list l => if l.id = id then some l else none
  | .setAvailability .. => none

/-- What a change says about the availability of a provider when some are listed already. It is not
heard before the provider is. -/
def word? (id : Provider) (known : List Provider) : Edit → Option Bool
  | .list l => if l.id = id then some l.available else none
  | .setAvailability other available =>
    if other = id ∧ id ∈ known then some available else none

private theorem word?_of_listing? {id : Provider} {e : Edit} {l : Listing}
    (h : e.listing? id = some l) (known : List Provider) : e.word? id known = some l.available := by
  cases e with
  | list other =>
    rw [listing?, Option.ite_none_right_eq_some, Option.some.injEq] at h
    rw [word?, if_pos h.1, h.2]
  | setAvailability => cases h

end Edit

/-- The registry after a change. -/
def edit (r : Registry) : Edit → Registry
  | .list l => r.withListing l
  | .setAvailability id available => r.withAvailability id available

/-- The registry after changes. -/
def edited (r : Registry) (edits : List Edit) : Registry :=
  edits.foldl edit r

/-- The last listing that changes give to a provider. -/
def lastListing? (id : Provider) (edits : List Edit) : Option Listing :=
  (edits.filterMap (Edit.listing? id)).getLast?

/-- All that changes say about the availability of a provider while it is listed. -/
def words (id : Provider) : List Provider → List Edit → List Bool
  | _, [] => []
  | known, e :: rest =>
    (e.word? id known).toList ++ words id (known ++ e.listed?.toList) rest

section

variable (r : Registry) (id : Provider) (known : List Provider) (edits more : List Edit)

theorem edited_append : r.edited (edits ++ more) = (r.edited edits).edited more :=
  List.foldl_append

private theorem edited_concat (e : Edit) : r.edited (edits ++ [e]) = (r.edited edits).edit e := by
  simp [edited]

private theorem words_concat (e : Edit) :
    words id known (edits ++ [e]) =
      words id known edits ++ (e.word? id (known ++ edits.filterMap Edit.listed?)).toList := by
  induction edits generalizing known with
  | nil => simp [words]
  | cons first rest ih =>
    rw [List.cons_append, words, words, ih, List.append_assoc]
    cases first <;> simp [List.filterMap_cons]

/-! ### The order of the listings -/

private theorem ids_edit (e : Edit) :
    (r.edit e).ids = r.ids ++ e.listed?.toList.removeAll r.ids := by
  cases e with
  | setAvailability id available => simp [edit]
  | list l =>
    rw [edit, ids_withListing]
    by_cases h : l.id ∈ r.ids <;> simp [List.removeAll, h]

/-- A provider that is listed keeps its place. -/
theorem ids_prefix_edited : r.ids <+: (r.edited edits).ids := by
  induction edits using List.reverseRecOn with
  | nil => exact List.prefix_rfl
  | append_singleton edits e ih =>
    rw [edited_concat, ids_edit]
    exact ih.trans (List.prefix_append _ _)

private theorem nodup_ids_edit {r : Registry} (h : r.ids.Nodup) (e : Edit) :
    (r.edit e).ids.Nodup := by
  cases e with
  | setAvailability id available => simpa [edit] using h
  | list l =>
    rw [edit, ids_withListing]
    split
    · exact h
    · next hnew =>
      refine List.nodup_append.2 ⟨h, List.nodup_singleton _, fun p hp q hq ↦ ?_⟩
      rw [List.mem_singleton.1 hq]
      exact fun e ↦ hnew (e ▸ hp)

/-- No provider is listed twice, if none was at the start. -/
theorem nodup_ids_edited {r : Registry} (h : r.ids.Nodup) : (r.edited edits).ids.Nodup := by
  induction edits using List.reverseRecOn with
  | nil => exact h
  | append_singleton edits e ih =>
    rw [edited_concat]
    exact nodup_ids_edit ih e

/-- The order is that of the first listings. -/
theorem ids_edited {r : Registry} (h : r.ids.eraseDups = r.ids) :
    (r.edited edits).ids = (r.ids ++ edits.filterMap Edit.listed?).eraseDups := by
  induction edits using List.reverseRecOn with
  | nil => simp [edited, h]
  | append_singleton edits e ih =>
    rw [edited_concat, ids_edit, List.filterMap_append, ← List.append_assoc,
      List.eraseDups_append, ← ih]
    have hmem (p : Provider) : p ∈ (r.edited edits).ids ↔
        p ∈ r.ids ++ edits.filterMap Edit.listed? := by rw [ih, List.mem_eraseDups]
    generalize r.ids ++ edits.filterMap Edit.listed? = known at hmem ⊢
    cases e with
    | setAvailability id available => simp [List.filterMap_cons]
    | list l =>
      by_cases hl : l.id ∈ known <;> simp [List.removeAll, List.eraseDups_cons, hmem, hl]

/-! ### What stands in a listing -/

private theorem find?_edit (e : Edit) :
    (r.edit e).find? id =
      ((e.listing? id).or (r.find? id)).map fun l ↦ l.heeding (e.word? id r.ids) := by
  cases e with
  | list l =>
    rw [edit, find?_withListing]
    by_cases h : l.id = id <;> simp [Edit.listing?, Edit.word?, h]
  | setAvailability other available =>
    rw [edit, find?_withAvailability]
    by_cases hid : id ∈ r.ids
    · by_cases ho : other = id <;> simp [Edit.listing?, Edit.word?, Listing.heeding, ho, hid]
    · simp [Edit.listing?, find?_eq_none.2 hid]

/-- A listing is the last that was given, with the last word on its availability. -/
theorem find?_edited {r : Registry} (h : r.ids.eraseDups = r.ids) :
    (r.edited edits).find? id =
      ((lastListing? id edits).or (r.find? id)).map fun l ↦
        l.heeding (words id r.ids edits).getLast? := by
  induction edits using List.reverseRecOn with
  | nil => simp [edited, lastListing?, words]
  | append_singleton edits e ih =>
    have hknown : id ∈ (r.edited edits).ids ↔ id ∈ r.ids ++ edits.filterMap Edit.listed? := by
      rw [ids_edited edits h, List.mem_eraseDups]
    have hword : e.word? id (r.ids ++ edits.filterMap Edit.listed?) =
        e.word? id (r.edited edits).ids := by
      cases e <;> simp only [Edit.word?, hknown]
    have hlast : lastListing? id (edits ++ [e]) = (e.listing? id).or (lastListing? id edits) := by
      cases he : e.listing? id <;> simp [lastListing?, he]
    rw [edited_concat, find?_edit, ih, words_concat, hword, hlast, List.getLast?_append]
    cases he : e.listing? id with
    | some l => simp [Edit.word?_of_listing? he]
    | none => cases e.word? id (r.edited edits).ids <;> simp [Function.comp_def]

end

/-! ### Resolution -/

section

variable {r : Registry} {id : Provider} {l : Listing}

private theorem find?_eq_some (h : r.ids.Nodup) :
    r.find? id = some l ↔ l ∈ r.listings ∧ l.id = id := by
  refine ⟨fun hl ↦ ⟨List.mem_of_find?_eq_some hl, id_of_find? hl⟩, fun ⟨hmem, hid⟩ ↦ ?_⟩
  have hlisted : (r.find? id).isSome := by
    rw [isSome_find?, ← hid]
    exact List.mem_map_of_mem hmem
  have ⟨found, hfound⟩ := Option.isSome_iff_exists.1 hlisted
  have hsame : found.id = l.id := (id_of_find? hfound).trans hid.symm
  rw [hfound, List.inj_on_of_nodup_map h (List.mem_of_find?_eq_some hfound) hmem hsame]

private theorem mem_available (h : r.ids.Nodup) :
    id ∈ r.available ↔ ∃ l, r.find? id = some l ∧ l.available = true := by
  simp only [available, List.mem_map, List.mem_filter, find?_eq_some h]
  exact ⟨fun ⟨l, ⟨hmem, hup⟩, hid⟩ ↦ ⟨l, ⟨hmem, hid⟩, hup⟩,
    fun ⟨l, ⟨hmem, hid⟩, hup⟩ ↦ ⟨l, ⟨hmem, hup⟩, hid⟩⟩

/-- A provider that is asked for is resolved to its listing, if it is available. -/
theorem resolve_some_of_mem (h : r.ids.Nodup) (hid : id ∈ r.available) :
    ∃ l, r.find? id = some l ∧ r.resolve (some id) = .ok l := by
  have ⟨l, hl, hup⟩ := (mem_available h).1 hid
  exact ⟨l, hl, by simp [resolve, hl, Option.filter, hup]⟩

/-- No other provider takes its place if it is not. -/
theorem resolve_some_of_not_mem (h : r.ids.Nodup) (hid : id ∉ r.available) :
    r.resolve (some id) = .error (.providerUnavailable id) := by
  cases hl : r.find? id with
  | none => simp [resolve, hl]
  | some l =>
    have hdown : l.available ≠ true := fun hup ↦ hid ((mem_available h).2 ⟨l, hl, hup⟩)
    simp [resolve, hl, Option.filter, hdown]

private theorem head?_available (r : Registry) :
    r.available.head? = (r.listings.find? Listing.available).map Listing.id := by
  rw [available, List.head?_map, List.head?_filter]

/-- Unasked, the first that is available is resolved to its listing. -/
theorem resolve_none_of_head? (h : r.ids.Nodup) (hid : r.available.head? = some id) :
    ∃ l, r.find? id = some l ∧ r.resolve none = .ok l := by
  rw [head?_available, Option.map_eq_some_iff] at hid
  have ⟨l, hl, hid⟩ := hid
  exact ⟨l, (find?_eq_some h).2 ⟨List.mem_of_find?_eq_some hl, hid⟩, by simp [resolve, hl]⟩

/-- Unasked, resolution fails only where nothing is available. -/
theorem resolve_none_eq_error (r : Registry) :
    r.resolve none = .error .noProviderAvailable ↔ r.available = [] := by
  rw [← List.head?_eq_none_iff, head?_available, Option.map_eq_none_iff]
  cases hl : r.listings.find? Listing.available <;> simp [resolve, hl]

/-- Whatever is listed and said, from the registry of all providers or from none: every provider is
listed once, in the order of the first listings, with its last listing and the last word on it, and
resolution takes the listing of the provider that was asked for or of the first that is available.
-/
theorem edited_in_order (start : Registry)
    (hstart : start = builtin ∨ start = default ∨ start = empty) (edits more : List Edit) :
    (start.edited edits).ids.Nodup ∧
    (start.edited edits).ids = (start.ids ++ edits.filterMap Edit.listed?).eraseDups ∧
    (start = empty ∨ Provider.resolutionOrder <+: (start.edited edits).ids) ∧
    (start.edited edits).ids <+: (start.edited (edits ++ more)).ids ∧
    (∀ id, (start.edited edits).find? id =
      ((lastListing? id edits).or (start.find? id)).map fun l ↦
        l.heeding (words id start.ids edits).getLast?) ∧
    (∀ id, id ∈ (start.edited edits).available → ∃ l,
      (start.edited edits).find? id = some l ∧
        (start.edited edits).resolve (some id) = .ok l) ∧
    (∀ id, id ∉ (start.edited edits).available →
      (start.edited edits).resolve (some id) = .error (.providerUnavailable id)) ∧
    (∀ id, (start.edited edits).available.head? = some id → ∃ l,
      (start.edited edits).find? id = some l ∧ (start.edited edits).resolve none = .ok l) ∧
    ((start.edited edits).resolve none = .error .noProviderAvailable ↔
      (start.edited edits).available = []) := by
  have hids : start.ids = Provider.resolutionOrder ∨ start = empty := by
    rcases hstart with rfl | rfl | rfl
    · exact .inl rfl
    · exact .inl rfl
    · exact .inr rfl
  have hnodup : start.ids.Nodup := by
    rcases hids with h | rfl
    · rw [h]
      decide
    · decide
  have hfirst : start.ids.eraseDups = start.ids := by
    rcases hids with h | rfl
    · rw [h]
      decide
    · decide
  have hkept := nodup_ids_edited edits hnodup
  refine ⟨hkept, ids_edited edits hfirst, ?_, ?_, fun id ↦ find?_edited id edits hfirst,
    fun id ↦ resolve_some_of_mem hkept, fun id ↦ resolve_some_of_not_mem hkept,
    fun id ↦ resolve_none_of_head? hkept, resolve_none_eq_error _⟩
  · rcases hids with h | h
    · rw [← h]
      exact .inr (ids_prefix_edited start edits)
    · exact .inl h
  · rw [edited_append]
    exact ids_prefix_edited _ more

/-- A word on a provider that is not listed is lost, and listing it anew keeps its place. -/
theorem edited_in_order_unheard :
    let edits : List Edit := [.setAvailability .lru false, .list ⟨.dashMap, false, .refusing⟩,
      .list ⟨.lru, true, .refusing⟩, .setAvailability .lru false, .list ⟨.dashMap, true, .refusing⟩]
    (empty.edited edits).ids = [.dashMap, .lru] ∧
      (empty.edited (edits.take 3)).available = [.lru] ∧
      (empty.edited edits).available = [.dashMap] ∧
      (empty.edited edits).find? .lru = some ⟨.lru, false, .refusing⟩ ∧
      (empty.edited edits).resolve (some .lru) = .error (.providerUnavailable .lru) ∧
      (empty.edited edits).resolve none = .ok ⟨.dashMap, true, .refusing⟩ := by
  intro edits
  have ⟨_, hids, _, _, hfind, _, hmissing, hfirst, _⟩ :=
    edited_in_order empty (.inr (.inr rfl)) edits []
  refine ⟨hids.trans (by decide), by decide, by decide, (hfind .lru).trans (by decide),
    hmissing .lru (by decide), ?_⟩
  have ⟨l, hl, hresolved⟩ := hfirst .dashMap (by decide)
  have hlisting : some l = some ⟨.dashMap, true, .refusing⟩ :=
    hl.symm.trans ((hfind .dashMap).trans (by decide))
  rw [hresolved, Option.some.inj hlisting]

end

end Registry

end Caching
