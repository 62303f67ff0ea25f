import Caching.Proofs.Agenda.Records
import Caching.Proofs.Desk.Laws
import Mathlib.Algebra.GroupWithZero.Nat

/-!
# The chronicle of a desk

A run of actions on a desk, and everything that happens in it to the agenda in the order in which it
happens, inside errands and while they let time pass themselves as well.
-/

namespace Caching

/-- The number of entries that the call says it has started. -/
def Response.starts : Response → Nat
  | .executed n => n
  | _ => 0

variable {L : Type}

/-- The number of entries that a call inside an errand says it has started. -/
def Notice.starts : Notice L → Nat
  | .fired _ _ => 0
  | .answered _ response => response.starts

namespace Desk

/-- The number of entries that the calls inside errands say they have started. -/
def reported (d : Desk L) : Nat :=
  (d.log.map Notice.starts).sum

variable [DecidableEq L]

/-- What happens while time passes: entries have their turns, errands are followed, and chains go
on or break. -/
def teller (inside : Commission L → Nat → Desk L → List (Occurrence (Commission L))) :
    Chronicler (Desk L) (Commission L) (Occurrence (Commission L)) where
  turn live e a := [if live then .started e a.clock.elapsed else .skipped e a.clock.elapsed]
  inside := inside
  resume a chain period run c :=
    match a.arm chain period run c with
    | .ok _ => a.resumption chain period run c
    | .error _ => [.broken]

/-- What happens while an action is done; `inside` tells of the errands that are run then. -/
def actChronicle (attend : Attend (Desk L) (Commission L))
    (inside : Commission L → Nat → Desk L → List (Occurrence (Commission L))) (fuel : Nat)
    (action : Action L) (d : Desk L) : List (Occurrence (Commission L)) :=
  match action with
  | .schedule label delay body => d.agenda.submission delay (.once ⟨label, fun _ ↦ body⟩)
  | .scheduleRepeating label period body =>
    let (chain, a) := d.agenda.freshHandle
    a.resumption chain period 1 ⟨label, body⟩
  | .cancel label =>
    match d.handle? label with
    | some handle => [.cancelled handle]
    | none => []
  | .advance duration => advanceChronicle (teller inside) attend fuel duration d
  | .runPending => advanceChronicle (teller inside) attend fuel .zero d
  | .shutdown => [.stopped d.agenda.queue d.agenda.clock.elapsed]
  | .isCancelled _ | .moveClock _ | .elapsed | .pending | .isShutdown | .describe => []

/-- What happens while an errand is followed. -/
def followChronicle : Nat → L → Errand L → Desk L → List (Occurrence (Commission L))
  | _, _, .done _, _ => []
  | 0, _, .act _ _, _ => []
  | fuel + 1, label, .act action next, d =>
    actChronicle (attend fuel)
        (fun c run d ↦ followChronicle fuel c.label (c.body run)
          (d.note (.fired c.label d.agenda.clock.elapsed)))
        fuel action d ++
      match act (attend fuel) fuel action d with
      | none => []
      | some (response, d) =>
        followChronicle fuel label (next response) (d.note (.answered label response))

/-- What happens while a commission is attended to. -/
def attendChronicle (fuel : Nat) (c : Commission L) (run : Nat) (d : Desk L) :
    List (Occurrence (Commission L)) :=
  followChronicle fuel c.label (c.body run) (d.note (.fired c.label d.agenda.clock.elapsed))

/-- What happens while an errand is followed is what happens in its first action and then in what
follows on the answer. -/
theorem followChronicle_act {fuel : Nat} {label : L} {action : Action L}
    {next : Response → Errand L} {response : Response} {d d' : Desk L}
    (h : act (attend fuel) fuel action d = some (response, d')) :
    followChronicle (fuel + 1) label (.act action next) d =
      actChronicle (attend fuel) (attendChronicle fuel) fuel action d ++
        followChronicle fuel label (next response) (d'.note (.answered label response)) := by
  rw [followChronicle, h]
  rfl

/-- Does actions from outside, one after the other. -/
def play (fuel : Nat) : List (Action L) → Desk L → Option (List Response × Desk L)
  | [], d => some ([], d)
  | action :: rest, d =>
    match d.step fuel action with
    | none => none
    | some (response, d) => (play fuel rest d).map fun played ↦ (response :: played.1, played.2)

/-- Several actions are done if the first is done and then the others. -/
theorem play_cons_eq_some_iff {fuel : Nat} {action : Action L} {rest : List (Action L)}
    {responses : List Response} {d d' : Desk L} :
    play fuel (action :: rest) d = some (responses, d') ↔
      ∃ response d₁ later, d.step fuel action = some (response, d₁) ∧
        play fuel rest d₁ = some (later, d') ∧ responses = response :: later := by
  rw [play]
  constructor
  · intro h
    cases hstep : d.step fuel action with
    | none => simp [hstep] at h
    | some acted =>
      obtain ⟨response, d₁⟩ := acted
      simp only [hstep, Option.map_eq_some_iff, Prod.mk.injEq] at h
      obtain ⟨⟨later, d₂⟩, hrest, rfl, rfl⟩ := h
      exact ⟨response, d₁, later, rfl, hrest, rfl⟩
  · rintro ⟨response, d₁, later, hstep, hrest, rfl⟩
    simp [hstep, hrest]

/-- What happens while actions are done from outside. -/
def chronicle (fuel : Nat) : List (Action L) → Desk L → List (Occurrence (Commission L))
  | [], _ => []
  | action :: rest, d =>
    actChronicle (attend fuel) (attendChronicle fuel) fuel action d ++
      match d.step fuel action with
      | none => []
      | some (_, d) => chronicle fuel rest d

end Desk

end Caching
