import Caching.Proofs.Settings.Fields
import Caching.Proofs.Spec.Finality

/-!
# Settings in layers

Settings from several sources may be merged and then applied to a builder, or applied one after the
other. Both leave the same builder, as long as every expiry time on the way is in range. Merging is
the more lenient way: it drops an expiry time that a later layer overrules before anybody checks it.
-/

namespace Caching

namespace Settings

/-- The settings of several sources in one, where later sources count. -/
def layered (layers : List Settings) : Settings :=
  layers.foldl merge empty

/-- Why settings are refused, if they are. -/
def problem? (s : Settings) : Option String :=
  s.expiryTime.bind Builder.expiryTimeProblem?

private theorem get?_merge (earlier later : Settings) (field : Field) :
    (earlier.merge later).get? field = (later.get? field).or (earlier.get? field) := by
  cases field <;> exact Option.map_or

private theorem layered_concat (layers : List Settings) (last : Settings) :
    layered (layers ++ [last]) = (layered layers).merge last :=
  List.foldl_append

private theorem layered_cons (first : Settings) (rest : List Settings) :
    layered (first :: rest) = first.merge (layered rest) := by
  induction rest using List.reverseRecOn with
  | nil => exact (empty_merge first).trans (merge_empty first).symm
  | append_singleton rest last ih =>
    rw [← List.cons_append, layered_concat, ih, layered_concat, merge_assoc]

/-- Of several layers, the last one that sets a field counts. -/
theorem get?_layered (layers : List Settings) (field : Field) :
    (layered layers).get? field = (layers.filterMap (·.get? field)).getLast? := by
  induction layers using List.reverseRecOn with
  | nil => exact get?_empty field
  | append_singleton layers last ih =>
    rw [layered_concat, get?_merge, ih]
    cases h : last.get? field <;> simp [h]

/-- What is wrong with merged settings was wrong with one of them. -/
theorem exists_problem_of_layered {layers : List Settings} {problem : String}
    (h : (layered layers).problem? = some problem) :
    ∃ layer ∈ layers, layer.problem? = some problem := by
  induction layers with
  | nil => cases h
  | cons first rest ih =>
    obtain ⟨time, htime, hproblem⟩ := Option.bind_eq_some_iff.mp h
    rw [layered_cons, expiryTime, merge, Option.map_or] at htime
    rcases Option.or_eq_some_iff.mp htime with hlater | ⟨-, hfirst⟩
    · obtain ⟨layer, hmem, hlayer⟩ := ih (Option.bind_eq_some_iff.mpr ⟨time, hlater, hproblem⟩)
      exact ⟨layer, List.mem_cons_of_mem _ hmem, hlayer⟩
    · exact ⟨first, List.mem_cons_self, Option.bind_eq_some_iff.mpr ⟨time, hfirst, hproblem⟩⟩

/-- The other way round it need not be: a later layer overrules a bad expiry time. -/
example :
    let first : Settings := ⟨none, none, none, some 0, none⟩
    let second : Settings := ⟨none, none, none, some 1000, none⟩
    first.problem? ≠ none ∧ (layered [first, second]).problem? = none := by
  decide

end Settings

namespace Builder

open Settings

variable {L E : Type} {b : Builder L E}

/-- What an open builder answers to settings: it depends on the settings alone. -/
def settingsAnswer (s : Settings) : Except Fault (Option (Spec L E)) :=
  match s.problem? with
  | some problem => .error (.invalidSpecification problem)
  | none => .ok none

/-- Settings in range are answered without a specification. -/
theorem settingsAnswer_eq_ok_iff {s : Settings} {answer : Option (Spec L E)} :
    settingsAnswer s = .ok answer ↔ s.problem? = none ∧ answer = none := by
  unfold settingsAnswer
  cases s.problem? <;> simp [eq_comm]

/-- An open builder takes settings as a whole if they are in range, and stays open in any case. -/
theorem make_settings (h : b.finalized = false) (s : Settings) :
    (make (.settings s) b).1 = settingsAnswer s ∧
      (make (.settings s) b).2.finalized = false ∧
      (s.problem? = none → (make (.settings s) b).2 = putAll s.choices b) := by
  rw [make]
  rcases applySettings_of_open h s with ⟨hfit, happly⟩ | ⟨-, problem, hproblem, happly⟩
  · have hnone : s.problem? = none := Option.bind_eq_none_iff.mpr fun time htime ↦
      expiryTimeProblem?_eq_none_iff.mpr (hfit time htime)
    rw [happly, settingsAnswer, hnone]
    exact ⟨rfl, (finalized_putAll _).trans h, fun _ ↦ rfl⟩
  · have hsome : s.problem? = some problem := hproblem
    rw [happly, settingsAnswer, hsome]
    exact ⟨rfl, (finalized_putAll _).trans h, fun hnone ↦ absurd hnone (Option.some_ne_none _)⟩

private theorem putAll_choices (s : Settings) :
    putAll s.choices b =
      { b with
        provider := s.provider.or b.provider
        maxSize := s.maxSize.or b.maxSize
        expiryType := s.expiryType.or b.expiryType
        expiryTime := s.expiryTime.or b.expiryTime
        highContention := s.highContention.getD b.highContention } := by
  rw [choices, putAll_append, putAll_append, putAll_earlyChoices]
  cases s.expiryTime <;> cases s.highContention <;> rfl

private theorem putAll_merge (first second : Settings) :
    putAll (first.merge second).choices b = putAll second.choices (putAll first.choices b) := by
  have htime : (first.merge second).expiryTime = second.expiryTime.or first.expiryTime :=
    Option.map_or
  have hcontention : (first.merge second).highContention.getD b.highContention =
      second.highContention.getD (first.highContention.getD b.highContention) := by
    rw [merge]
    cases second.highContention <;> rfl
  rw [putAll_choices, putAll_choices, putAll_choices, htime, hcontention]
  simp only [merge, Option.or_assoc]

/-- An open builder answers each layer by itself. -/
theorem play_settings (h : b.finalized = false) (layers : List Settings) :
    (play (layers.map .settings) b).1 =
      layers.map fun layer ↦ (.settings layer, settingsAnswer layer) := by
  induction layers generalizing b with
  | nil => rfl
  | cons first rest ih =>
    obtain ⟨hanswer, hopen, -⟩ := make_settings h first
    rw [List.map_cons, play_cons, ih hopen, hanswer, List.map_cons]

/-- Layers in range, one after the other, leave what they come to when merged. -/
theorem play_settings_of_fit (h : b.finalized = false) {layers : List Settings}
    (hfit : ∀ layer ∈ layers, layer.problem? = none) :
    (play (layers.map .settings) b).2 = putAll (layered layers).choices b := by
  induction layers generalizing b with
  | nil => rfl
  | cons first rest ih =>
    obtain ⟨hfirst, hrest⟩ := List.forall_mem_cons.mp hfit
    obtain ⟨-, hopen, hputs⟩ := make_settings h first
    rw [List.map_cons, play_cons, ih hopen hrest, hputs hfirst, layered_cons, putAll_merge]

/-- Merged settings hold for each field what the last of the layers that set it says, so merging is
associative, and settings that say nothing have no part in it. If all layers are taken when they are
applied to an open builder one after the other, then it takes the merged settings too, is left the
same by them and builds the same. If it refuses the merged settings, it refuses one of the layers
for the same reason. -/
theorem layers_alike (layers : List Settings) (b : Builder L E) (hopen : b.finalized = false) :
    let merged := make (.settings (layered layers)) b
    let run := play (layers.map .settings) b
    (∀ field, (layered layers).get? field = (layers.filterMap (·.get? field)).getLast?) ∧
      (∀ s t u : Settings, (s.merge t).merge u = s.merge (t.merge u)) ∧
      (∀ s : Settings, empty.merge s = s ∧ s.merge empty = s) ∧
      ((∀ turn ∈ run.1, ∃ answer, turn.2 = .ok answer) →
        merged = (.ok none, run.2) ∧ make .build merged.2 = make .build run.2) ∧
      ∀ fault, merged.1 = .error fault → ∃ turn ∈ run.1, turn.2 = .error fault := by
  intro merged run
  obtain ⟨hanswer, -, hputs⟩ := make_settings hopen (layered layers)
  refine ⟨get?_layered layers, merge_assoc, fun s ↦ ⟨empty_merge s, merge_empty s⟩, ?_, ?_⟩
  · intro htaken
    have hfit (layer : Settings) (hlayer : layer ∈ layers) : layer.problem? = none := by
      obtain ⟨answer, hok⟩ := htaken (.settings layer, settingsAnswer layer) (by
        rw [play_settings hopen]
        exact List.mem_map_of_mem hlayer)
      exact (settingsAnswer_eq_ok_iff.mp hok).1
    have hnone : (layered layers).problem? = none := by
      cases hproblem : (layered layers).problem? with
      | none => rfl
      | some problem =>
        obtain ⟨layer, hlayer, hbad⟩ := exists_problem_of_layered hproblem
        rw [hfit layer hlayer] at hbad
        cases hbad
    have hmerged : merged = (.ok none, run.2) := by
      refine Prod.ext (hanswer.trans (settingsAnswer_eq_ok_iff.mpr ⟨hnone, rfl⟩)) ?_
      exact (hputs hnone).trans (play_settings_of_fit hopen hfit).symm
    exact ⟨hmerged, by rw [hmerged]⟩
  · intro fault hfault
    rw [hanswer] at hfault
    cases hproblem : (layered layers).problem? with
    | none => rw [settingsAnswer, hproblem] at hfault; cases hfault
    | some problem =>
      obtain ⟨layer, hlayer, hbad⟩ := exists_problem_of_layered hproblem
      refine ⟨(.settings layer, settingsAnswer layer), ?_, ?_⟩
      · rw [play_settings hopen]
        exact List.mem_map_of_mem hlayer
      · rw [← hfault, settingsAnswer, settingsAnswer, hproblem, hbad]

/-- A file and the environment, where the latter overrules a bound and adds an expiry. -/
theorem layers_alike_of_two :
    let file : Settings := ⟨some .lru, some 10, none, none, none⟩
    let environment : Settings := ⟨none, some 20, some .postWrite, some 1000, none⟩
    make (.settings (layered [file, environment])) (new : Builder Nat Nat) =
      (.ok none, (play [.settings file, .settings environment] new).2) := by
  intro file environment
  refine ((layers_alike [file, environment] new rfl).2.2.2.1 ?_).1
  intro turn (hturn : turn ∈ [(.settings file, .ok none), (.settings environment, .ok none)])
  rcases List.mem_cons.mp hturn with rfl | hrest
  · exact ⟨none, rfl⟩
  · exact ⟨none, by rw [List.mem_singleton.mp hrest]⟩

end Builder

end Caching
