import Caching.Proofs.Desk.Incidents

/-!
# What moves the clock

Unless an errand moves the clock, only the turns of entries move it while something is done. So what
the clock shows can be told from the entries that have had their turns, and a clock that can be read
can be read throughout.
-/

namespace Caching

variable {L : Type}

/-- The entry that has its turn, if that is what is noted. -/
def Incident.turns (x : Incident L) : List (Entry (Commission L)) :=
  match x.occurrence? with
  | some occurrence => occurrence.turns
  | none => []

/-- Nothing has its turn by it and nothing is aborted. -/
def Incident.IsQuiet (x : Incident L) : Prop :=
  x.turns = [] ∧ ∀ abort, x ≠ aborted abort

private theorem Incident.IsFiling.isQuiet {x : Incident L} (h : x.IsFiling) : x.IsQuiet := by
  rcases h with ⟨e, rfl⟩ | ⟨handle, rfl⟩
  · exact ⟨rfl, nofun⟩
  · exact ⟨rfl, nofun⟩

namespace Desk

variable {reach : Instant → Prop}

section

variable {timing : List (Incident L) → Clock → Prop} {history more : List (Incident L)}
  {x : Incident L} {a b : Agenda (Commission L)}

private theorem timing_quiet
    (hquiet : ∀ {history more clock}, timing history clock → (∀ x ∈ more, x.IsQuiet) →
      timing (history ++ more) clock)
    (h : .moved ∈ history ∨ timing history a.clock) (hclock : b.clock = a.clock)
    (hmore : ∀ x ∈ more, x.IsQuiet) :
    .moved ∈ history ++ more ∨ timing (history ++ more) b.clock :=
  h.imp (List.mem_append_left _) fun h ↦ hclock ▸ hquiet h hmore

private theorem timing_turn {target : Option Instant} {live : Bool} {e : Entry (Commission L)}
    (hturn : ∀ {history clock e x}, timing history clock →
      (reach e.due ∨ e.due.nanos ≤ clock.shown) → x.turns = [e] → (∀ abort, x ≠ .aborted abort) →
      timing (history ++ [x]) (clock.advanceTo e.due))
    (h : .moved ∈ history ∨ timing history a.clock) (htake : a.take? target = some (live, e, b))
    (hdue : .moved ∈ history ∨ reach e.due ∨ e.due.nanos ≤ a.clock.shown) (hx : x.turns = [e])
    (hno : ∀ abort, x ≠ .aborted abort) :
    .moved ∈ history ++ [x] ∨ timing (history ++ [x]) b.clock := by
  obtain ⟨-, -, -, rest, -, rfl⟩ := Agenda.take?_eq_some_iff.mp htake
  rcases h, hdue with ⟨hmoved | h, hmoved | hdue⟩
  · exact .inl (List.mem_append_left _ hmoved)
  · exact .inl (List.mem_append_left _ hmoved)
  · exact .inl (List.mem_append_left _ hmoved)
  · exact .inr (hturn h hdue hx hno)

private theorem moved_of_unread {clock : Clock}
    (hread : ∀ {history clock}, timing history clock → ∃ now, clock.now = .ok now)
    (h : .moved ∈ history ∨ timing history clock) {abort : Abort}
    (herror : clock.now = .error abort) : .moved ∈ history ++ more := by
  refine List.mem_append_left _ (h.resolve_right fun h ↦ ?_)
  obtain ⟨now, hnow⟩ := hread h
  rw [herror] at hnow
  cases hnow

private theorem isQuiet_of_mem_notice {job : Job (Commission L)} (hx : x ∈ job.notice a) :
    x.IsQuiet := by
  obtain ⟨chain, period, run, c, -, -, rfl⟩ := Job.eq_ran_of_mem_notice hx
  exact ⟨rfl, nofun⟩

end

variable [DecidableEq L]

/-- What is said of the clock in the light of the notes is kept unless an errand moves the clock, if
it is kept by every turn of an entry and by what is quiet, and leaves the clock readable. -/
theorem keeps_timing (timing : List (Incident L) → Clock → Prop)
    (hquiet : ∀ {history more clock}, timing history clock → (∀ x ∈ more, x.IsQuiet) →
      timing (history ++ more) clock)
    (hturn : ∀ {history clock e x}, timing history clock →
      (reach e.due ∨ e.due.nanos ≤ clock.shown) → x.turns = [e] → (∀ abort, x ≠ .aborted abort) →
      timing (history ++ [x]) (clock.advanceTo e.due))
    (hread : ∀ {history clock}, timing history clock → ∃ now, clock.now = .ok now) :
    Keeps reach fun history (d : Desk L) ↦ .moved ∈ history ∨ timing history d.agenda.clock := by
  constructor
  case note =>
    intro _ _ _ h
    exact h
  case submit =>
    intro _ _ _ _ _ _ _ h hsubmit
    exact timing_quiet hquiet h (Agenda.submit_cases hsubmit).1 fun _ hx ↦
      (Agenda.isFiling_of_mem_submission hx).isQuiet
  case begin =>
    intro _ d _ _ _ _ h harm
    exact timing_quiet hquiet h (Agenda.clock_arm (a := d.agenda.freshHandle.2) harm) fun _ hx ↦
      (Agenda.isFiling_of_mem_resumption hx).isQuiet
  case cancel =>
    intro _ d _ handle h _
    exact timing_quiet hquiet h (d.agenda.clock_cancel handle) fun _ hx ↦
      List.mem_singleton.mp hx ▸ ⟨rfl, nofun⟩
  case stop =>
    intro _ d h
    exact timing_quiet hquiet (b := d.agenda.shutdown) h rfl fun _ hx ↦
      List.mem_singleton.mp hx ▸ ⟨rfl, nofun⟩
  case skip =>
    intro _ _ _ _ _ h htake hdue
    exact timing_turn hturn h htake hdue rfl nofun
  case start =>
    intro fuel history d target e a r d' hinside h htake hdue hperform
    -- The start is a turn, and what a chain notes of its run is quiet.
    have hturned := timing_turn (x := .occurred (.started e a.clock.elapsed)) hturn h htake hdue rfl
      nofun
    have hnotice (x : Incident L) (hx : x ∈ e.job.notice a) : x.IsQuiet :=
      isQuiet_of_mem_notice hx
    have hstarted := timing_quiet (b := a) hquiet hturned rfl hnotice
    rw [List.append_assoc] at hstarted
    refine perform_told _ hinside ?_ hstarted hperform
    intro history chain period run c d₁ _ _ h₁
    cases harm : d₁.agenda.arm chain period (run + 1) c with
    | error abort => exact .inl (moved_of_unread hread h₁ (Agenda.now_of_arm_eq_error harm))
    | ok b =>
      refine timing_quiet hquiet h₁ (Agenda.clock_arm harm) fun x hx ↦ ?_
      rcases List.mem_cons.mp hx with rfl | hx
      · exact ⟨rfl, nofun⟩
      · exact (Agenda.isFiling_of_mem_resumption hx).isQuiet
  case moving =>
    intro _ _ _
    exact .inl (List.mem_append_right _ (List.mem_singleton_self _))
  case shift =>
    intro _ _ _ hmoved _ _ _
    exact .inl hmoved
  case fail =>
    intro history d abort h hfail
    rcases hfail with hmoved | ⟨other, herror⟩
    · exact .inl (List.mem_append_left _ hmoved)
    · exact .inl (moved_of_unread hread h herror)

private theorem keeps_standing {clock : Clock} (hread : ∃ now, clock.now = .ok now) :
    Keeps (fun _ ↦ False) fun history (d : Desk L) ↦
      .moved ∈ history ∨ d.agenda.clock = clock := by
  refine keeps_timing (fun _ c ↦ c = clock) (fun h _ ↦ h) ?_ fun h ↦ h ▸ hread
  intro _ _ e _ h hdue _ _
  rw [Clock.advanceTo_of_le_shown (hdue.resolve_left id), h]

section

variable {d d' : Desk L} {fuel : Nat} (hread : ∃ now, d.agenda.clock.now = .ok now)

include hread

/-- Attending to a commission takes no time, unless an errand moves the clock. -/
theorem clock_attend {c : Commission L} {run : Nat} {again : Bool}
    (hattend : attend fuel c run d = some (again, d')) :
    .moved ∈ attendIncidents fuel c run d ∨ d'.agenda.clock = d.agenda.clock := by
  have hstart : .moved ∈ ([] : List (Incident L)) ∨ d.agenda.clock = d.agenda.clock := .inr rfl
  exact (keeps_standing hread).attend hstart hattend

/-- Neither does an action that does not move the clock. -/
theorem clock_step {action : Action L} {response : Response} (hstill : action.moves = false)
    (hstep : d.step fuel action = some (response, d')) :
    .moved ∈ actIncidents (attend fuel) (attendIncidents fuel) fuel action d ∨
      d'.agenda.clock = d.agenda.clock := by
  have hstart : .moved ∈ ([] : List (Incident L)) ∨ d.agenda.clock = d.agenda.clock := .inr rfl
  exact ((keeps_standing hread).step hstill hstart hstep).1

end

/-- Nothing has its turn that is due later than the instant, so the clock does not pass it. -/
theorem keeps_within (instant : Instant) :
    Keeps (· ≤ instant) fun history (d : Desk L) ↦
      .moved ∈ history ∨ d.agenda.clock.shown ≤ instant.nanos := by
  refine keeps_timing (fun _ c ↦ c.shown ≤ instant.nanos) (fun h _ ↦ h) ?_ fun h ↦
    Clock.exists_now (Int.lt_of_le_of_lt h instant.nanos_lt)
  intro _ _ e _ h hdue _ _
  have hreached : e.due.nanos ≤ instant.nanos := hdue.elim id fun hle ↦ Int.le_trans hle h
  rw [Clock.shown_advanceTo]
  exact Int.max_le.mpr ⟨h, hreached⟩

/-- The latest of an instant and the due instants of all entries that have had their turns. -/
def farthest (start : Int) (history : List (Incident L)) : Int :=
  ((history.flatMap Incident.turns).map fun e ↦ e.due.nanos).foldl max start

omit [DecidableEq L] in
private theorem farthest_append (start : Int) (history more : List (Incident L)) :
    farthest start (history ++ more) = farthest (farthest start history) more := by
  simp only [farthest, List.flatMap_append, List.map_append, List.foldl_append]

omit [DecidableEq L] in
/-- Nothing is farther than the last instant. -/
theorem farthest_lt {start : Int} (h : start < instantBound) (history : List (Incident L)) :
    farthest start history < instantBound := by
  rw [farthest]
  generalize history.flatMap Incident.turns = turns
  induction turns generalizing start with
  | nil => exact h
  | cons e rest ih => exact ih (Int.max_lt.mpr ⟨h, e.due.nanos_lt⟩)

/-- The entries that have had their turns have moved the clock, and no action has been aborted. -/
theorem keeps_farthest {start : Int} (hstart : start < instantBound) :
    Keeps reach fun history (d : Desk L) ↦ .moved ∈ history ∨
      d.agenda.clock.shown = farthest start history ∧ ∀ abort, .aborted abort ∉ history := by
  refine keeps_timing
    (fun history c ↦ c.shown = farthest start history ∧ ∀ abort, .aborted abort ∉ history)
    ?_ ?_ fun h ↦ Clock.exists_now (h.1 ▸ farthest_lt hstart _)
  · rintro history more clock ⟨hshown, hunaborted⟩ hmore
    constructor
    · have hturns : more.flatMap Incident.turns = [] :=
        List.flatMap_eq_nil_iff.mpr fun x hx ↦ (hmore x hx).1
      rw [hshown, farthest_append, farthest.eq_1 _ more, hturns]
      rfl
    · intro abort hmem
      rcases List.mem_append.mp hmem with hold | hnew
      · exact hunaborted abort hold
      · exact (hmore _ hnew).2 abort rfl
  · rintro history clock e x ⟨hshown, hunaborted⟩ - hx hno
    constructor
    · rw [Clock.shown_advanceTo, hshown, farthest_append, farthest.eq_1 _ [x]]
      simp [hx]
    · intro abort hmem
      rcases List.mem_append.mp hmem with hold | hnew
      · exact hunaborted abort hold
      · exact hno abort (List.mem_singleton.mp hnew).symm

end Desk

end Caching
