import Caching.Proofs.Agenda.Lockstep
import Caching.Proofs.Closing.Finality

/-!
# Sessions in tandem

Two caches go in tandem if they stay related in some way, whatever is done to both, and answer alike
all the while. Then whatever is done to their sessions comes to the same: as long as only such
scripts are run and left on the agenda as are allowed for, every dealing has the same upshot in
both.
-/

namespace Caching

variable {K V : Type}

/-- What a dealing asks for is asked for. -/
def Dealing.Asks (asked : Duty K V → Prop) : Dealing K V → Prop
  | use script | schedule _ script | scheduleRepeating _ script => asked (.errand script)
  | clone | drop _ | advance _ | moveClock _ | passTime _ | shutdown | cancel _ => True

/-- What a dealing comes to, for whoever deals with a session. -/
inductive Upshot (V : Type) where
  | done
  /-- The replies to the operations. -/
  | replies (replies : List (Reply V))
  /-- The number of the new handle. -/
  | handle (n : Nat)
  /-- The number of entries that had their turn, if time came to an end. -/
  | count (r : Option (Except Abort Nat))
  /-- The clock was moved, or could not be. -/
  | moved (r : Except Abort Unit)
  /-- What the booking goes by. -/
  | booked (r : Except Abort Handle)

/-- The upshots are the same, up to what counts as the same reply. -/
inductive Upshot.Like (same : Reply V → Reply V → Prop) : Upshot V → Upshot V → Prop where
  | replies {rs rs' : List (Reply V)} (h : List.Forall₂ same rs rs') :
    Like same (.replies rs) (.replies rs')
  | refl (u : Upshot V) : Like same u u

/-- If only the same reply counts as the same, then so does only the same upshot. -/
theorem Upshot.Like.eq {u u' : Upshot V} (h : u.Like Eq u') : u = u' := by
  cases h with
  | replies h =>
    rw [List.forall₂_eq_eq_eq] at h
    rw [h]
  | refl => rfl

namespace Running

variable {σ : Type} [Engine σ K V] [DecidableEq V]

/-- The replies to the operations of a script. -/
def replies (w : Running σ K V) {α : Type} (script : Script (Operation K V) (Reply V) α) :
    List (Reply V) :=
  script.chronicle perform (fun operation w ↦ [(w.perform operation).1]) w

/-- A relation between caches that lasts, whatever is done to both, and by which they answer alike,
as long as only some duties are attended to and only some scripts are run. -/
structure Tandem (asked : Duty K V → Prop) (same : Reply V → Reply V → Prop)
    (related : Running σ K V → Running σ K V → Prop) : Prop where
  lockstep : Lockstep attend attend asked related
  host : ∀ {w w'}, related w w' → w'.host = w.host
  supplied : ∀ {w w'}, related w w' → w'.supplied = w.supplied
  withHost : ∀ {w w'}, related w w' → ∀ host, related { w with host } { w' with host }
  replies : ∀ {w w'}, related w w' → ∀ script : Script (Operation K V) (Reply V) Unit,
    asked (.errand script) → List.Forall₂ same (w.replies script) (w'.replies script)
  release : ∀ {w w'}, related w w' → related w.release w'.release

namespace Tandem

variable {asked : Duty K V → Prop} {same : Reply V → Reply V → Prop}
  {related : Running σ K V → Running σ K V → Prop} {w w' : Running σ K V}

/-- A script of operations may be run on both. -/
theorem follow (ht : Tandem asked same related) (h : related w w')
    {script : Script (Operation K V) (Reply V) Unit} (hasked : asked (.errand script)) :
    related (w.follow script).2 (w'.follow script).2 := by
  have hattend := ht.lockstep.attend h (.errand script) hasked 1
  cases hattend with
  | some hagree => exact hagree.2

end Tandem

end Running

namespace Session

open Running (Tandem)

section

variable [DecidableEq K] [DecidableEq V]

/-- What a dealing comes to. -/
def upshot (fuel : Nat) (dealing : Dealing K V) (s : Session K V) : Upshot V :=
  match dealing with
  | .use script => .replies (s.cache.body.replies script)
  | .clone => .handle s.clone.1
  | .drop _ | .shutdown | .cancel _ => .done
  | .advance d => .count ((s.advance fuel d).map Prod.fst)
  | .moveClock d => .moved ((s.moveClock d).map fun _ ↦ ())
  | .passTime d => .moved ((s.passTime d).map fun _ ↦ ())
  | .schedule delay errand => .booked ((s.agenda.schedule delay (.errand errand)).map Prod.fst)
  | .scheduleRepeating period errand =>
    .booked ((s.agenda.scheduleRepeating period (.errand errand)).map Prod.fst)

/-- What dealings come to one after the other, each with the session after it, as long as time comes
to an end. -/
def progress (fuel : Nat) : List (Dealing K V) → Session K V → List (Upshot V × Session K V)
  | [], _ => []
  | dealing :: rest, s =>
    match s.deal fuel dealing with
    | none => []
    | some (_, s') => (s.upshot fuel dealing, s') :: s'.progress fuel rest

end

/-- The caches of the sessions are related, and their handles are the same. -/
inductive Paired (kind : Kind)
    (related : Running (kind.Store K V) K V → Running (kind.Store K V) K V → Prop) :
    Session K V → Session K V → Prop where
  | intro {w w' : Running (kind.Store K V) K V} (h : related w w') (handles : List Bool) :
    Paired kind related ⟨⟨kind, w⟩, handles⟩ ⟨⟨kind, w'⟩, handles⟩

namespace Paired

variable [DecidableEq K] [DecidableEq V] {kind : Kind} {asked : Duty K V → Prop}
  {same : Reply V → Reply V → Prop}
  {related : Running (kind.Store K V) K V → Running (kind.Store K V) K V → Prop}
  (ht : Tandem asked same related) {s s' : Session K V}
include ht

private theorem agenda_eq (h : Paired kind related s s') : s'.agenda = s.agenda := by
  cases h with
  | intro h handles => exact ht.lockstep.agenda h

private theorem asksOnly (h : Paired kind related s s') : s.agenda.AsksOnly asked := by
  cases h with
  | intro h handles => exact ht.lockstep.asksOnly h

private theorem rearrange (h : Paired kind related s s') (f : Agenda (Duty K V) → Agenda (Duty K V))
    (hasks : (f s.agenda).AsksOnly asked) :
    Paired kind related (s.update fun w ↦ { w with agenda := f w.agenda })
      (s'.update fun w ↦ { w with agenda := f w.agenda }) := by
  cases h with
  | @intro w w' h handles =>
    have hsame : w'.agenda = w.agenda := ht.lockstep.agenda h
    simp only [update, hsame]
    exact .intro (ht.lockstep.withAgenda h _ hasks) handles

private theorem booked (h : Paired kind related s s')
    {r : Except Abort (Handle × Agenda (Duty K V))}
    (hasks : ∀ handle a, r = .ok (handle, a) → a.AsksOnly asked) :
    Paired kind related (s.booked r) (s'.booked r) := by
  rcases r with abort | ⟨handle, a⟩
  · exact h
  · exact h.rearrange ht (fun _ ↦ a) (hasks handle a rfl)

private theorem moveClock (h : Paired kind related s s') (d : Duration) :
    (s.moveClock d).map (fun _ ↦ ()) = (s'.moveClock d).map (fun _ ↦ ()) ∧
      Paired kind related ((s.moveClock d).toOption.getD s) ((s'.moveClock d).toOption.getD s') := by
  rw [Session.moveClock, Session.moveClock, h.agenda_eq ht, Agenda.moveClock]
  cases s.agenda.clock.advance d with
  | error abort => exact ⟨rfl, h⟩
  | ok clock => exact ⟨rfl, h.rearrange ht (fun _ ↦ { s.agenda with clock }) (h.asksOnly ht)⟩

private theorem passTime (h : Paired kind related s s') (d : Duration) :
    (s.passTime d).map (fun _ ↦ ()) = (s'.passTime d).map (fun _ ↦ ()) ∧
      Paired kind related ((s.passTime d).toOption.getD s) ((s'.passTime d).toOption.getD s') := by
  have hasks := h.asksOnly ht
  rw [Session.passTime, Session.passTime, h.agenda_eq ht, Agenda.moveClock]
  cases h with
  | @intro w w' h handles =>
    simp only [ht.host h, ht.supplied h, Session.agenda] at hasks ⊢
    cases w.host.advance d with
    | error abort => exact ⟨rfl, .intro h handles⟩
    | ok host =>
      have hhost := ht.withHost h host
      cases w.supplied with
      | true => exact ⟨rfl, .intro (ht.lockstep.withAgenda hhost w.agenda hasks) handles⟩
      | false =>
        cases w.agenda.clock.advance d with
        | error abort => exact ⟨rfl, .intro h handles⟩
        | ok clock =>
          exact ⟨rfl, .intro (ht.lockstep.withAgenda hhost { w.agenda with clock } hasks) handles⟩

/-- Time passes in both in the same way. -/
theorem advance (h : Paired kind related s s') (fuel : Nat) (d : Duration) :
    Option.Rel (Agree (Paired kind related)) (s.advance fuel d) (s'.advance fuel d) := by
  cases h with
  | intro h handles =>
    simp only [Session.advance, Cache.advance, Running.advance]
    rcases Agree.cases (ht.lockstep.advance fuel d h) with ⟨hs, hs'⟩ | ⟨r, v, v', hs, hs', hv⟩
    · rw [hs, hs']
      exact .none
    · rw [hs, hs']
      exact .some ⟨rfl, .intro hv handles⟩

private theorem drop (h : Paired kind related s s') (handle : Nat) :
    Paired kind related (s.drop handle) (s'.drop handle) := by
  cases h with
  | intro h handles =>
    cases hheld : (handles.set handle false).any id with
    | true =>
      simp only [Session.drop, isHeld, hheld]
      exact .intro h _
    | false =>
      simp only [Session.drop, isHeld, hheld]
      exact .intro (ht.release h) _

private theorem deal (h : Paired kind related s s') (fuel : Nat) {dealing : Dealing K V}
    (hasks : dealing.Asks asked) :
    (s.deal fuel dealing = none ∧ s'.deal fuel dealing = none) ∨ ∃ trace trace' t t',
      s.deal fuel dealing = some (trace, t) ∧ s'.deal fuel dealing = some (trace', t') ∧
      (s.upshot fuel dealing).Like same (s'.upshot fuel dealing) ∧ Paired kind related t t' := by
  have hwaits := h.asksOnly ht
  cases dealing with
  | use script =>
    cases h with
    | intro h handles =>
      refine .inr ⟨_, _, _, _, rfl, rfl, .replies (ht.replies h script hasks), ?_⟩
      exact .intro (ht.follow h hasks) handles
  | clone =>
    cases h with
    | intro h handles => exact .inr ⟨_, _, _, _, rfl, rfl, .refl _, .intro h _⟩
  | drop handle => exact .inr ⟨_, _, _, _, rfl, rfl, .refl _, h.drop ht handle⟩
  | advance d =>
    simp only [Session.deal, Session.upshot]
    rcases Agree.cases (h.advance ht fuel d) with ⟨hs, hs'⟩ | ⟨r, t, t', hs, hs', ht⟩
    · rw [hs, hs']
      exact .inl ⟨rfl, rfl⟩
    · rw [hs, hs']
      exact .inr ⟨_, _, _, _, rfl, rfl, .refl _, ht⟩
  | moveClock d =>
    obtain ⟨hupshot, hpaired⟩ := h.moveClock ht d
    refine .inr ⟨_, _, _, _, rfl, rfl, ?_, hpaired⟩
    rw [Session.upshot, Session.upshot, hupshot]
    exact .refl _
  | passTime d =>
    obtain ⟨hupshot, hpaired⟩ := h.passTime ht d
    refine .inr ⟨_, _, _, _, rfl, rfl, ?_, hpaired⟩
    rw [Session.upshot, Session.upshot, hupshot]
    exact .refl _
  | shutdown =>
    exact .inr ⟨_, _, _, _, rfl, rfl, .refl _, h.rearrange ht Agenda.shutdown (.shutdown _)⟩
  | schedule delay errand =>
    rw [Session.upshot, Session.upshot, Session.deal, Session.deal, h.agenda_eq ht]
    refine .inr ⟨_, _, _, _, rfl, rfl, .refl _, h.booked ht fun handle a hbooked ↦ ?_⟩
    have hjob : asked (Job.once (Duty.errand errand)).body := hasks
    exact hwaits.submit hjob hbooked
  | scheduleRepeating period errand =>
    rw [Session.upshot, Session.upshot, Session.deal, Session.deal, h.agenda_eq ht]
    refine .inr ⟨_, _, _, _, rfl, rfl, .refl _, h.booked ht fun handle a hbooked ↦ ?_⟩
    exact hwaits.scheduleRepeating hasks hbooked
  | cancel handle =>
    have hcancelled := h.rearrange ht (fun a ↦ a.cancel handle) (hwaits.cancel handle)
    exact .inr ⟨_, _, _, _, rfl, rfl, .refl _, hcancelled⟩

/-- Dealings one after the other come to the same in both. -/
theorem progress (h : Paired kind related s s') (fuel : Nat) {dealings : List (Dealing K V)}
    (hasks : ∀ dealing ∈ dealings, Dealing.Asks asked dealing) :
    List.Forall₂ (fun r r' ↦ r.1.Like same r'.1 ∧ Paired kind related r.2 r'.2)
      (s.progress fuel dealings) (s'.progress fuel dealings) := by
  induction dealings generalizing s s' with
  | nil => exact .nil
  | cons dealing rest ih =>
    rw [Session.progress, Session.progress]
    have hfirst := hasks dealing List.mem_cons_self
    rcases h.deal ht fuel hfirst with ⟨hs, hs'⟩ | ⟨trace, trace', t, t', hs, hs', hupshot, hpaired⟩
    · rw [hs, hs']
      exact .nil
    · rw [hs, hs']
      exact .cons ⟨hupshot, hpaired⟩
        (ih hpaired fun other hother ↦ hasks other (List.mem_cons_of_mem _ hother))

end Paired

end Session

end Caching
