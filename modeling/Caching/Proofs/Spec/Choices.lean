import Caching.Proofs.Spec.Calls
import Mathlib.Data.List.Induction

/-!
# What a builder was told

Every call on a builder offers values for some of its fields. Which of them it takes can be told
from the answer: all of them if the call succeeds, and of settings with a bad expiry time those that
come before it. As long as nothing was built, a builder holds the last value it took for each field.
-/

namespace Caching

variable {L E : Type}

namespace Builder

/-- A value for one field. -/
inductive Choice (L E : Type) where
  | provider (p : Provider)
  | maxSize (n : UInt64)
  | expiryType (e : ExpiryType)
  | expiryTime (time : Duration)
  | listener (listener : L)
  | executor (executor : E)
  | highContention (enabled : Bool)

/-- The builder with the value in its field. -/
def Choice.put : Choice L E → Builder L E → Builder L E
  | .provider p, b => { b with provider := some p }
  | .maxSize n, b => { b with maxSize := some n }
  | .expiryType e, b => { b with expiryType := some e }
  | .expiryTime time, b => { b with expiryTime := some time }
  | .listener l, b => { b with listener := some l }
  | .executor x, b => { b with executor := some x }
  | .highContention on, b => { b with highContention := on }

/-- The builder with the values in their fields, where later ones count. -/
def putAll (choices : List (Choice L E)) (b : Builder L E) : Builder L E :=
  choices.foldl (fun b choice ↦ choice.put b) b

/-- The last of the values that `pick` is after. -/
def lastOf {α : Type} (pick : Choice L E → Option α) (choices : List (Choice L E)) : Option α :=
  (choices.filterMap pick).getLast?

end Builder

open Builder (Choice lastOf putAll)

/-- The values that settings have for the fields before the expiry time. -/
def Settings.earlyChoices (s : Settings) : List (Choice L E) :=
  (s.provider.map .provider).toList ++ (s.maxSize.map .maxSize).toList ++
    (s.expiryType.map .expiryType).toList

/-- The values that settings have, in the order of the fields. -/
def Settings.choices (s : Settings) : List (Choice L E) :=
  s.earlyChoices ++ (s.expiryTime.map .expiryTime).toList ++
    (s.highContention.map .highContention).toList

/-- The specification in which every field has the last of the values for it. -/
def Spec.ofChoices (choices : List (Choice L E)) : Spec L E where
  provider := lastOf (fun | .provider p => some p | _ => none) choices
  maxSize := lastOf (fun | .maxSize n => some n | _ => none) choices
  expiryType := (lastOf (fun | .expiryType e => some e | _ => none) choices).getD .none
  expiryTime := lastOf (fun | .expiryTime time => some time | _ => none) choices
  listener := lastOf (fun | .listener l => some l | _ => none) choices
  executor := lastOf (fun | .executor x => some x | _ => none) choices
  highContention :=
    (lastOf (fun | .highContention on => some on | _ => none) choices).getD false

namespace Builder

/-- A call with its answer. -/
abbrev Turn (L E : Type) := Call L E × Except Fault (Option (Spec L E))

namespace Turn

/-- The turn gave a specification. -/
def isBuilt : Turn L E → Bool
  | (_, .ok (some _)) => true
  | _ => false

/-- The values that the call offered and the builder took. -/
def accepted : Turn L E → List (Choice L E)
  | (.settings s, .ok _) => s.choices
  | (.settings _, .error .builderFinalized) => []
  | (.settings s, .error _) => s.earlyChoices
  | (_, .error _) => []
  | (.provider p, .ok _) => [.provider p]
  | (.maxSize n, .ok _) => [.maxSize n]
  | (.expiryType e, .ok _) => [.expiryType e]
  | (.expiryTime time, .ok _) => [.expiryTime time]
  | (.listener l, .ok _) => [.listener l]
  | (.executor x, .ok _) => [.executor x]
  | (.highContention on, .ok _) => [.highContention on]
  | (.build, .ok _) => []

end Turn

/-- Makes the calls in their order, whatever becomes of each. -/
def play : List (Call L E) → Builder L E → List (Turn L E) × Builder L E
  | [], b => ([], b)
  | call :: rest, b =>
    let (answer, b) := make call b
    let (turns, b) := play rest b
    ((call, answer) :: turns, b)

variable {b b' : Builder L E}

/-! ### The last value of each field -/

section LastOf

variable {α : Type} (pick : Choice L E → Option α)

private theorem lastOf_concat (choices : List (Choice L E)) (choice : Choice L E) :
    lastOf pick (choices ++ [choice]) = (pick choice).or (lastOf pick choices) := by
  unfold lastOf
  cases h : pick choice <;> simp [h]

end LastOf

theorem putAll_append (first second : List (Choice L E)) (b : Builder L E) :
    putAll (first ++ second) b = putAll second (putAll first b) :=
  List.foldl_append

/-- What a builder holds that was told the values: the last one for each field. -/
theorem putAll_new (choices : List (Choice L E)) :
    putAll choices new =
      let spec := Spec.ofChoices choices
      ⟨spec.provider, spec.maxSize, lastOf (fun | .expiryType e => some e | _ => none) choices,
        spec.expiryTime, spec.listener, spec.executor, spec.highContention, false⟩ := by
  induction choices using List.reverseRecOn with
  | nil => rfl
  | append_singleton choices choice ih =>
    rw [putAll_append, ih]
    cases choice <;> simp [putAll, Choice.put, Spec.ofChoices, lastOf_concat]

/-! ### What one call does -/

/-- The duration may be an expiry time. -/
def IsExpiryTime (time : Duration) : Prop :=
  0 < time.nanos ∧ time.nanos ≤ maxExpiryTime.nanos

/-- An open builder has a reason to refuse the call. -/
def Refuses (b : Builder L E) : Call L E → Prop
  | .expiryTime time => ¬ IsExpiryTime time
  | .settings s => ∃ time ∈ s.expiryTime, ¬ IsExpiryTime time
  | .build => b.expiryTime.isSome ≠ (b.expiryType.getD .none).isEnabled
  | _ => False

/-- Once a specification was built, every call is refused and changes nothing. -/
theorem make_of_finalized (h : b.finalized = true) (call : Call L E) :
    make call b = (.error .builderFinalized, b) := by
  have hrefused {α : Type} (result : Except Fault α) :
      b.guarded result = .error .builderFinalized := by
    simp [guarded, h]
  cases call with
  | provider p => simp [make, setProvider, hrefused, attempt, answered]
  | maxSize n => simp [make, setMaxSize, hrefused, attempt, answered]
  | expiryType e => simp [make, setExpiryType, hrefused, attempt, answered]
  | expiryTime time => simp [make, setExpiryTime, hrefused, attempt, answered]
  | listener listener => simp [make, setListener, hrefused, attempt, answered]
  | executor executor => simp [make, setExecutor, hrefused, attempt, answered]
  | highContention enabled => simp [make, setHighContention, hrefused, attempt, answered]
  | settings s => simp [make, applySettings, h, answered]
  | build => simp [make, build, hrefused]

/-- Values put into fields do not finish a builder. -/
@[simp]
theorem finalized_putAll (choices : List (Choice L E)) :
    (putAll choices b).finalized = b.finalized := by
  induction choices generalizing b with
  | nil => rfl
  | cons choice choices ih =>
    have hput : (choice.put b).finalized = b.finalized := by cases choice <;> rfl
    rw [← hput]
    exact ih

private theorem guarded_of_open {α : Type} (h : b.finalized = false) (result : Except Fault α) :
    b.guarded result = result := by
  simp [guarded, h]

private theorem setExpiryTime_of_fit (h : b.finalized = false) {time : Duration}
    (hfit : IsExpiryTime time) : b.setExpiryTime time = .ok ((Choice.expiryTime time).put b) := by
  rw [setExpiryTime, guarded_of_open h, expiryTimeProblem?_eq_none_iff.mpr hfit]
  rfl

private theorem setExpiryTime_of_unfit (h : b.finalized = false) {time : Duration}
    (hunfit : ¬ IsExpiryTime time) :
    ∃ problem, expiryTimeProblem? time = some problem ∧
      b.setExpiryTime time = .error (.invalidSpecification problem) := by
  rw [setExpiryTime, guarded_of_open h]
  cases hproblem : expiryTimeProblem? time with
  | none => exact absurd (expiryTimeProblem?_eq_none_iff.mp hproblem) hunfit
  | some problem => exact ⟨problem, rfl, rfl⟩

private theorem attemptSome_of_ok {α : Type} (call : Builder L E → α → Except Fault (Builder L E))
    (choice : α → Choice L E) {value : Option α}
    (hcall : ∀ a ∈ value, call b a = .ok ((choice a).put b)) :
    attemptSome value call (none, b) = (none, putAll (value.map choice).toList b) := by
  cases value with
  | none => rfl
  | some a =>
    rw [attemptSome, hcall a rfl]
    rfl

private theorem attemptSome_of_failed {α : Type}
    (call : Builder L E → α → Except Fault (Builder L E)) (value : Option α) (fault : Fault) :
    attemptSome value call (some fault, b) = (some fault, b) := by
  cases value <;> rfl

/-- Settings are taken as a whole, or up to an expiry time that is out of range. -/
theorem applySettings_of_open (h : b.finalized = false) (s : Settings) :
    ((∀ time ∈ s.expiryTime, IsExpiryTime time) ∧
        b.applySettings s = (none, putAll s.choices b)) ∨
      ((∃ time ∈ s.expiryTime, ¬ IsExpiryTime time) ∧
        ∃ problem, s.expiryTime.bind expiryTimeProblem? = some problem ∧
          b.applySettings s =
            (some (.invalidSpecification problem), putAll s.earlyChoices b)) := by
  have hopen (choices : List (Choice L E)) : (putAll choices b).finalized = false := by simp [h]
  have hearly : ((none, b) |> attemptSome s.provider setProvider
      |> attemptSome s.maxSize setMaxSize |> attemptSome s.expiryType setExpiryType) =
      (none, putAll s.earlyChoices b) := by
    rw [attemptSome_of_ok setProvider .provider fun _ _ ↦ guarded_of_open h _,
      attemptSome_of_ok setMaxSize .maxSize fun _ _ ↦ guarded_of_open (hopen _) _,
      ← putAll_append,
      attemptSome_of_ok setExpiryType .expiryType fun _ _ ↦ guarded_of_open (hopen _) _,
      ← putAll_append]
    rfl
  rw [applySettings, h]
  rw [if_neg Bool.false_ne_true, hearly]
  by_cases hfit : ∀ time ∈ s.expiryTime, IsExpiryTime time
  · refine .inl ⟨hfit, ?_⟩
    rw [attemptSome_of_ok setExpiryTime .expiryTime fun time htime ↦
        setExpiryTime_of_fit (hopen _) (hfit time htime), ← putAll_append,
      attemptSome_of_ok setHighContention .highContention fun _ _ ↦ guarded_of_open (hopen _) _,
      ← putAll_append]
    rfl
  · obtain ⟨time, htime, hunfit⟩ : ∃ time ∈ s.expiryTime, ¬ IsExpiryTime time := by
      simpa using hfit
    obtain ⟨problem, hproblem, hrefused⟩ :=
      setExpiryTime_of_unfit (hopen (s.earlyChoices)) hunfit
    rw [Option.mem_def.mp htime]
    refine .inr ⟨⟨time, rfl, hunfit⟩, problem, hproblem, ?_⟩
    rw [attemptSome, hrefused]
    exact attemptSome_of_failed setHighContention s.highContention _

private theorem build_of_fit (h : b.finalized = false)
    (hmatch : b.expiryTime.isSome = (b.expiryType.getD .none).isEnabled) :
    b.build = .ok (⟨b.provider, b.maxSize, b.expiryType.getD .none, b.expiryTime, b.listener,
      b.executor, b.highContention⟩,
      { b with finalized := true, listener := none, executor := none }) := by
  have hdefault : (default : ExpiryType) = .none := rfl
  simp only [build, guarded_of_open h, hdefault, expiryProblem?_eq_none_iff.mpr hmatch]

private theorem build_of_unfit (h : b.finalized = false)
    (hmatch : b.expiryTime.isSome ≠ (b.expiryType.getD .none).isEnabled) :
    ∃ problem, b.build = .error (.invalidSpecification problem) := by
  have hdefault : (default : ExpiryType) = .none := rfl
  cases hproblem : expiryProblem? (b.expiryType.getD .none) b.expiryTime with
  | none => exact absurd (expiryProblem?_eq_none_iff.mp hproblem) hmatch
  | some problem => exact ⟨problem, by simp only [build, guarded_of_open h, hdefault, hproblem]⟩

/-- What an open builder makes of a call that is not the one that builds: it takes the values that
it accepts, and gives no specification. -/
structure Takes (b : Builder L E) (call : Call L E) (answer : Except Fault (Option (Spec L E)))
    (b' : Builder L E) : Prop where
  puts : b' = putAll (Turn.accepted (call, answer)) b
  unbuilt : Turn.isBuilt (call, answer) = false
  unfinished : answer ≠ .error .builderFinalized
  refused : (∃ fault, answer = .error fault) ↔ b.Refuses call

private theorem takes_of_ok {call : Call L E} {b' : Builder L E}
    (hputs : b' = putAll (Turn.accepted (call, .ok none)) b) (hrefuses : ¬ b.Refuses call) :
    b.Takes call (.ok none) b' where
  puts := hputs
  unbuilt := rfl
  unfinished := nofun
  refused := ⟨nofun, fun hrefused ↦ absurd hrefused hrefuses⟩

private theorem takes_of_invalid {call : Call L E} {b' : Builder L E} {problem : String}
    (hputs : b' = putAll (Turn.accepted (call, .error (.invalidSpecification problem))) b)
    (hrefuses : b.Refuses call) : b.Takes call (.error (.invalidSpecification problem)) b' where
  puts := hputs
  unbuilt := by cases call <;> rfl
  unfinished := nofun
  refused := ⟨fun _ ↦ hrefuses, fun _ ↦ ⟨_, rfl⟩⟩

private theorem takes_of_guarded {call : Call L E} {choice : Choice L E}
    (h : b.finalized = false)
    (hmake : make call b = answered (b.attempt (b.guarded (.ok (choice.put b)))))
    (haccepted : Turn.accepted (call, .ok none) = [choice]) (hrefuses : ¬ b.Refuses call) :
    b.Takes call (make call b).1 (make call b).2 := by
  rw [hmake, guarded_of_open h]
  refine takes_of_ok ?_ hrefuses
  dsimp only [attempt, answered]
  rw [haccepted]
  rfl

/-- An open builder either builds what it holds, which finishes it, or takes what it accepts. -/
theorem make_of_open (h : b.finalized = false) (call : Call L E) :
    (call = .build ∧ ¬ b.Refuses .build ∧ make call b =
        (.ok (some ⟨b.provider, b.maxSize, b.expiryType.getD .none, b.expiryTime, b.listener,
          b.executor, b.highContention⟩),
          { b with finalized := true, listener := none, executor := none })) ∨
      b.Takes call (make call b).1 (make call b).2 := by
  cases call with
  | provider p => exact .inr (takes_of_guarded h rfl rfl id)
  | maxSize n => exact .inr (takes_of_guarded h rfl rfl id)
  | expiryType e => exact .inr (takes_of_guarded h rfl rfl id)
  | listener l => exact .inr (takes_of_guarded h rfl rfl id)
  | executor x => exact .inr (takes_of_guarded h rfl rfl id)
  | highContention on => exact .inr (takes_of_guarded h rfl rfl id)
  | expiryTime time =>
    refine .inr ?_
    by_cases hfit : IsExpiryTime time
    · rw [make, setExpiryTime_of_fit h hfit]
      exact takes_of_ok rfl fun hunfit ↦ hunfit hfit
    · obtain ⟨problem, -, hproblem⟩ := setExpiryTime_of_unfit h hfit
      rw [make, hproblem]
      exact takes_of_invalid rfl hfit
  | settings s =>
    refine .inr ?_
    rw [make]
    rcases applySettings_of_open h s with ⟨hfit, happly⟩ | ⟨hunfit, problem, -, happly⟩
    · rw [happly]
      refine takes_of_ok rfl ?_
      rintro ⟨time, htime, hunfit⟩
      exact absurd (hfit time htime) hunfit
    · rw [happly]
      exact takes_of_invalid rfl hunfit
  | build =>
    by_cases hmatch : b.expiryTime.isSome = (b.expiryType.getD .none).isEnabled
    · refine .inl ⟨rfl, fun hrefused ↦ hrefused hmatch, ?_⟩
      rw [make, build_of_fit h hmatch]
    · obtain ⟨problem, hproblem⟩ := build_of_unfit h hmatch
      rw [make, hproblem]
      exact .inr (takes_of_invalid rfl hmatch)

end Builder

end Caching
