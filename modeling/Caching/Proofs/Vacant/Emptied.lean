import Caching.Proofs.Closing.Finality
import Caching.Proofs.Plain.Reference

/-!
# Emptied after every step

A cache that may retain nothing goes by a map that is emptied after every step: each operation does
and answers what it does on a map without entries, and then whatever it has stored has to leave for
want of space.
-/

namespace Caching

variable {K V : Type}

/-- Whatever the map holds has to leave for want of space, and is told of. -/
def PlainMap.emptied (m : PlainMap K V) : PlainMap K V :=
  { m with
    entries := [], distinct := Keyed.distinct_nil
    told := m.told ++ m.entries.map fun e ↦ ⟨e.1, e.2, .size⟩ }

section

variable [DecidableEq K] [DecidableEq V]

/-- Performs an operation, and then empties the map. -/
def PlainMap.performEmptying (operation : Operation K V) (m : PlainMap K V) :
    Reply V × PlainMap K V :=
  let (reply, m) := m.perform operation
  (reply, m.emptied)

example : ((Script.call (.put 1 10) fun _ ↦ .single .size).run PlainMap.performEmptying
    (PlainMap.empty .lru : PlainMap Nat Nat)).1 = .ok (.count 0) := by
  rfl

omit [DecidableEq K] in
/-- What an operation on a map without entries has stored, and what then has to leave. -/
def Operation.turnedAway (operation : Operation K V) : List (Removal K V) :=
  match operation.key? with
  | some key => (operation.deed none).stored.toList.map fun value ↦ ⟨key, value, .size⟩
  | none => []

/-- An open map without entries answers as one, and is left without entries. -/
theorem PlainMap.performEmptying_of_active {m : PlainMap K V} (hactive : m.phase = .active)
    (hempty : m.entries = []) {operation : Operation K V} (hclose : operation ≠ .close) :
    m.performEmptying operation = (operation.openReply m.provider (fun _ ↦ none) 0,
      { m with told := m.told ++ operation.turnedAway }) := by
  obtain ⟨provider, phase, entries, distinct, told⟩ := m
  obtain rfl : phase = .active := hactive
  obtain rfl : entries = [] := hempty
  cases hkey : operation.key? with
  | some key =>
    simp only [performEmptying, perform, serve, hkey, Operation.turnedAway]
    cases hdeed : operation.deed none <;>
      simp [emptied, carry, current, Keyed.find?, Keyed.insert, Keyed.erase, Deed.removed,
        Deed.stored, hdeed] <;> rfl
  | none =>
    cases operation with
    | size | clear | state | provider =>
      simp [performEmptying, perform, serve, emptied, cleared, Operation.turnedAway,
        Operation.key?, Operation.openReply]
    | close => exact absurd rfl hclose
    | _ => cases hkey

private theorem PlainMap.told_performEmptying (p : Provider) (operation : Operation K V) :
    ((empty p).performEmptying operation).2.told = operation.turnedAway := by
  cases operation with
  | close => rfl
  | _ => rw [performEmptying_of_active rfl rfl (by simp)]; rfl

/-- What has to leave after something that has happened, if nothing was there before. -/
def Happening.turnedAway (p : Provider) : Happening K V → List (Removal K V)
  | served operation => ((PlainMap.empty p).performEmptying operation).2.told
  | late _ | called _ | lapsed _ _ | upkept | closed => []

end

namespace Vacant

section

variable [DecidableEq V]

/-- An operation of an open cache that may retain nothing. -/
theorem performWith_of_active (report : Report Vacant K V) {w : Running Vacant K V}
    (hactive : w.phase = .active) {operation : Operation K V} (hclose : operation ≠ .close) :
    Running.performWith report operation w =
      (operation.openReply w.provider (fun _ ↦ none) 0,
        Running.tell report operation.turnedAway w) := by
  cases hkey : operation.key? with
  | some key =>
    rw [Running.performWith_of_key report hkey hactive rfl]
    simp only [Operation.openReply, Operation.turnedAway, hkey]
    rfl
  | none =>
    cases operation with
    | size | clear =>
      rw [Running.performWith, Running.guarded_of_reading hactive rfl]
      rfl
    | state =>
      rw [Running.performWith, hactive]
      rfl
    | provider => rfl
    | close => exact absurd rfl hclose
    | _ => cases hkey

/-- The end of such a cache leaves the rest as it is. -/
theorem performWith_close (report : Report Vacant K V) (w : Running Vacant K V) :
    Running.performWith report .close w = (.ok .done, { w with phase := .closed }) := by
  obtain ⟨store, provider, phase, dispatching, listener, heard, agenda, supplied, host, log⟩ := w
  rw [Running.performWith, Running.close]
  cases phase with
  | closed => rfl
  | active => simp [Engine.teardown, Engine.farewell]

/-- At most one entry has to leave after an operation. What happens then is all that happens in the
operation. -/
theorem events_serve (report : Report Vacant K V)
    (inside : Removal K V → Running Vacant K V → List (Happening K V)) (now : Instant)
    (operation : Operation K V) (w : Running Vacant K V) :
    (operation.turnedAway = [] ∧ (PlannedEngine.serve now operation w).events report inside = []) ∨
      ∃ removal, operation.turnedAway = [removal] ∧
        (PlannedEngine.serve now operation w).events report inside = inside removal w := by
  have hserve : PlannedEngine.serve now operation w = LawfulEngine.serve now operation w := rfl
  rw [hserve]
  cases hkey : operation.key? with
  | none =>
    refine .inl ⟨?_, ?_⟩
    · simp only [Operation.turnedAway, hkey]
    · cases operation with
      | size | clear | close | state | provider => rfl
      | _ => cases hkey
  | some key =>
    have hsettle : LawfulEngine.serve now operation w =
        .settle (carryOut key (operation.deed none) w) := by
      simp only [LawfulEngine.serve, hkey]
      rfl
    simp only [hsettle, Operation.turnedAway, hkey, carryOut]
    cases (operation.deed none).stored with
    | none => exact .inl ⟨rfl, rfl⟩
    | some value => exact .inr ⟨_, rfl, List.append_nil _⟩

/-- The provider says nothing about what has to leave. -/
@[simp]
theorem turnedAway_served [DecidableEq K] (p : Provider) (operation : Operation K V) :
    (Happening.served operation).turnedAway p = operation.turnedAway :=
  PlainMap.told_performEmptying p operation

end

variable [DecidableEq K] [DecidableEq V]

/-- All that has happened to a cache that may retain nothing, once it is to tell of some removals:
it has told of these, and of whatever was to be stored after that. -/
structure Befalls (due : List (Removal K V)) (w : Running Vacant K V) (hs : List (Happening K V))
    (w' : Running Vacant K V) : Prop where
  provider : w'.provider = w.provider
  listens : w'.listener.isSome = w.listener.isSome
  told : w'.told = w.told ++
    if w.listener.isSome then due ++ hs.flatMap (Happening.turnedAway w.provider) else []
  closed : w'.phase = .closed ↔ w.phase = .closed ∨ .closed ∈ hs

namespace Befalls

variable {due : List (Removal K V)} {w w₁ w₂ w' : Running Vacant K V}
  {hs hs' : List (Happening K V)}

/-- Nothing has happened. -/
theorem refl (w : Running Vacant K V) : Befalls [] w [] w := by
  refine ⟨rfl, rfl, ?_, ?_⟩
  · simp only [List.flatMap_nil, List.append_nil, ite_self]
  · simp only [List.not_mem_nil, or_false]

/-- One thing after the other. -/
theorem trans (h : Befalls due w hs w₁) (h' : Befalls [] w₁ hs' w₂) :
    Befalls due w (hs ++ hs') w₂ := by
  constructor
  · exact h'.provider.trans h.provider
  · exact h'.listens.trans h.listens
  · rw [h'.told, h.told, h.listens, h.provider]
    split <;> simp
  · rw [h'.closed, h.closed, List.mem_append, or_assoc]

private theorem single (w : Running Vacant K V) (x : Happening K V)
    (hstores : x.turnedAway w.provider = []) (hclosed : x ≠ .closed) : Befalls [] w [x] w := by
  refine ⟨rfl, rfl, ?_, ?_⟩
  · simp [hstores]
  · simp [hclosed.symm]

private theorem aside (w : Running Vacant K V) (dispatching : Nat)
    (listener : Option (Listener K V))
    (hlistener : listener.isSome = w.listener.isSome) (heard : List (Heard K V))
    (htold : heard.map Heard.removal = w.told) (agenda : Agenda (Duty K V)) (host : Clock)
    (log : List LogEntry) :
    Befalls [] w [] { w with dispatching, listener, heard, agenda, host, log } := by
  refine ⟨rfl, hlistener, ?_, ?_⟩
  · simpa [Running.told] using htold
  · simp

private theorem withAgenda (w : Running Vacant K V) (agenda : Agenda (Duty K V)) :
    Befalls [] w [] (withAgenda w agenda) :=
  aside w _ _ rfl _ rfl agenda _ _

private theorem called (removal : Removal K V) {listener : Listener K V}
    (hlistener : w.listener = some listener) (listener' : Listener K V) :
    Befalls [removal] w [.called removal]
      { w.beginCall removal with listener := some listener' } := by
  refine ⟨rfl, ?_, ?_, ?_⟩
  · rw [hlistener]
    rfl
  · simp [Running.told, Running.beginCall, hlistener, Happening.turnedAway]
  · simp [Running.beginCall]

private theorem endCall (w : Running Vacant K V) (removal : Removal K V) (panic : Option Payload) :
    Befalls [] w [] (w.endCall removal panic) := by
  obtain ⟨log, hlog⟩ := w.endCall_eq removal panic
  rw [hlog]
  exact aside w _ _ rfl _ rfl _ _ log

private theorem finishCall (h : Befalls due w hs w₁) (place : Nat) (replies : List (Reply V))
    (removal : Removal K V) (panic : Option Payload) :
    Befalls due w hs ((w₁.keepReplies place replies).endCall removal panic) := by
  have hkept : Befalls [] w₁ [] (w₁.keepReplies place replies) :=
    aside w₁ _ _ rfl _ (w₁.told_keepReplies place replies) _ _ _
  have hall := h.trans (hkept.trans (endCall _ removal panic))
  rwa [List.append_nil, List.append_nil] at hall

private theorem ended (w : Running Vacant K V) :
    Befalls [] w [.closed] { w with phase := .closed } := by
  refine ⟨rfl, rfl, ?_, ?_⟩
  · simp [Running.told, Happening.turnedAway]
  · simp

private theorem release (w : Running Vacant K V) :
    Befalls [] w (Running.releasing w) w.release := by
  rw [Running.releasing, Running.release]
  cases w.phase with
  | closed => exact refl w
  | active => exact ended w

private theorem served {operation : Operation K V} (h : Befalls operation.turnedAway w hs w') :
    Befalls [] w ([.served operation] ++ hs) w' := by
  refine ⟨h.provider, h.listens, ?_, ?_⟩
  · simpa using h.told
  · simpa using h.closed

/-- An operation was performed. -/
theorem performWith {report : Report Vacant K V}
    {inside : Removal K V → Running Vacant K V → List (Happening K V)}
    (hreport : ∀ removal w, w.phase = .active →
      Befalls [removal] w (inside removal w) (report removal w))
    (w : Running Vacant K V) (operation : Operation K V) :
    Befalls [] w (Running.operating report inside operation w)
      (Running.performWith report operation w).2 := by
  cases hphase : w.phase with
  | closed =>
    rw [Running.performWith_of_closed report hphase, Running.operating.eq_def, hphase]
    exact single w _ rfl (by simp)
  | active =>
    by_cases hclose : operation = .close
    · subst hclose
      rw [Running.operating.eq_def, hphase, performWith_close]
      exact (single w (.served .close) (turnedAway_served _ _) (by simp)).trans (ended w)
    · rw [Running.operating_of_active report inside hphase hclose,
        performWith_of_active report hphase hclose]
      refine served ?_
      change Befalls _ w ((PlannedEngine.serve w.host.start operation w).events report inside) _
      rcases events_serve report inside w.host.start operation w with
        ⟨haway, hevents⟩ | ⟨removal, haway, hevents⟩
      · rw [haway, hevents]
        exact refl w
      · rw [haway, hevents]
        exact hreport removal w hphase

/-- A script was run. -/
theorem run {A R α : Type} {act : A → Running Vacant K V → R × Running Vacant K V}
    {inside : A → Running Vacant K V → List (Happening K V)}
    (hact : ∀ action w, Befalls [] w (inside action w) (act action w).2)
    (script : Script A R α) (w : Running Vacant K V) :
    Befalls [] w (script.chronicle act inside w) (script.run act w).2 := by
  induction script generalizing w with
  | done result => exact refl w
  | call action next ih => exact (hact action w).trans (ih (act action w).1 (act action w).2)

private theorem unheard (removal : Removal K V) (h : w.listener = none) :
    Befalls [removal] w [] w := by
  refine ⟨rfl, rfl, ?_, ?_⟩
  · simp [h]
  · simp

private theorem calledOnly (removal : Removal K V) {listener : Listener K V}
    (h : w.listener = some listener) (panic : Option Payload) :
    Befalls [removal] w [.called removal] ((w.beginCall removal).endCall removal panic) := by
  have hcalled := called removal h listener
  rw [← h] at hcalled
  exact hcalled.trans (endCall _ removal panic)

private theorem reportAt (bound : Nat) (removal : Removal K V) {w : Running Vacant K V}
    (hactive : w.phase = .active) :
    Befalls [removal] w (Running.reporting bound removal w)
      (Running.reportAt bound removal w) := by
  induction bound generalizing removal w with
  | zero =>
    rw [Running.reporting.eq_def, Running.reportAt.eq_def]
    dsimp only
    rw [hactive]
    cases hlistener : w.listener with
    | none => exact unheard removal hlistener
    | some listener => exact calledOnly removal hlistener (listener.lasting removal)
  | succ bound ih =>
    rw [Running.reporting.eq_def, Running.reportAt.eq_def]
    dsimp only
    rw [hactive]
    cases hlistener : w.listener with
    | none => exact unheard removal hlistener
    | some listener =>
      dsimp only
      cases listener.reactions with
      | nil => exact calledOnly removal hlistener (listener.lasting removal)
      | cons reaction rest =>
        have hcalled := called removal hlistener ⟨rest, listener.lasting⟩
        have hrun := run
          (fun operation w ↦ performWith (fun removal w h ↦ ih removal h) w operation)
          (reaction removal)
          { w.beginCall removal with listener := some ⟨rest, listener.lasting⟩ }
        exact (hcalled.trans hrun).finishCall w.heard.length _ removal _

/-- A script of operations was run. -/
theorem follow {α : Type} (script : Script (Operation K V) (Reply V) α)
    (w : Running Vacant K V) :
    Befalls [] w (Running.following script w) (w.follow script).2 :=
  run (fun operation w ↦ performWith (fun removal _ h ↦ reportAt w.depth removal h) w operation)
    script w

private theorem attend {duty : Duty K V} {run : Nat} {again : Bool}
    (hattend : Running.attend duty run w = some (again, w')) :
    Befalls [] w (Running.attending duty w) w' := by
  cases duty with
  | lapse key stamp =>
    cases hattend
    exact single w _ rfl (by simp)
  | upkeep =>
    have hsame := Running.attend_upkeep hattend
    subst hsame
    rw [Running.attending.eq_def]
    cases hphase : w'.phase with
    | active => exact single w' _ rfl (by simp)
    | closed => exact refl w'
  | errand script =>
    cases hattend
    exact follow script w

private theorem job {job : Job (Duty K V)} {r : Except Abort Unit}
    (hperform : job.perform Running.attend w = some (r, w')) :
    Befalls [] w (job.chronicle Running.teller Running.attend w) w' := by
  have htold : Befalls [] w ([] ++ job.chronicle Running.teller Running.attend w) w' := by
    refine Job.perform_told Running.teller (fun history v ↦ Befalls [] w history v)
      (fun _ history v ↦ Befalls [] w history v) ?_ ?_ (fun _ _ h ↦ h) (refl w) hperform
    · intro run again v hattend
      exact attend hattend
    · intro history chain period run v _ _ hv
      cases (agenda v).arm chain period (run + 1) job.body with
      | error abort => simpa [Running.teller] using hv
      | ok a => exact hv.trans (withAgenda v a)
  exact htold

/-- Time has passed on the agenda. -/
theorem advance {fuel : Nat} {d : Duration} {r : Except Abort Nat}
    (hadvance : w.advance fuel d = some (r, w')) :
    Befalls [] w (Running.advancing fuel d w) w' := by
  have htold : Befalls [] w ([] ++ Running.advancing fuel d w) w' := by
    refine advance_told Running.teller (fun _ history v ↦ Befalls [] w history v) ?_ ?_ ?_ hadvance
    · intro abort _
      exact refl w
    · intro now v r _ hdrain
      refine drain_told Running.teller (fun _ history v ↦ Befalls [] w history v) ?_ ?_ (n := 0)
        (refl w) hdrain
      · intro n history v e a hv _
        exact hv.trans (withAgenda v a)
      · intro n history v e a r v' hv _ hperform
        exact (hv.trans (withAgenda v a)).trans (job hperform)
    · intro r history v instant hv
      have hmoved := hv.trans (withAgenda v ((agenda v).readied instant))
      rwa [List.append_nil] at hmoved
  exact htold

end Befalls

/-- Performs an operation in the midst of calls, where the listener may use as many reactions as the
bound says. -/
def performAt (bound : Running Vacant K V → Nat) (operation : Operation K V)
    (w : Running Vacant K V) : Reply V × Running Vacant K V :=
  Running.performWith (Running.reportAt (bound w)) operation w

omit [DecidableEq K] in
private theorem active_of_run {bound : Running Vacant K V → Nat} {α : Type}
    {script : Script (Operation K V) (Reply V) α} {w : Running Vacant K V}
    (h : (script.run (performAt bound) w).2.phase = .active) : w.phase = .active := by
  cases hphase : w.phase with
  | active => rfl
  | closed =>
    have hstays (operation : Operation K V) (w : Running Vacant K V) (h : w.phase = .closed) :
        (performAt bound operation w).2.phase = .closed := by
      rw [performAt, Running.performWith_of_closed _ h]
      exact h
    have hclosed := Script.run_invariant hstays script hphase
    rw [h] at hclosed
    cases hclosed

/-- As long as the cache is open, a script of operations has the result that it has on a map which
is emptied after every step, however deep in calls of the listener it is run. -/
theorem run_as_emptied (bound : Running Vacant K V → Nat) {α : Type}
    (script : Script (Operation K V) (Reply V) α) {w : Running Vacant K V} {m : PlainMap K V}
    (hprovider : m.provider = w.provider) (hactive : m.phase = .active) (hempty : m.entries = [])
    (hopen : (script.run (performAt bound) w).2.phase = .active) :
    (script.run (performAt bound) w).1 = (script.run PlainMap.performEmptying m).1 := by
  induction script generalizing w m with
  | done result => rfl
  | call operation next ih =>
    have hphase := active_of_run hopen
    have hnext : (performAt bound operation w).2.phase = .active := active_of_run hopen
    by_cases hclose : operation = .close
    · subst hclose
      rw [performAt, performWith_close] at hnext
      cases hnext
    · have hsame : (performAt bound operation w).2.provider = w.provider :=
        (Befalls.performWith (fun removal _ h ↦ .reportAt (bound w) removal h) w operation).provider
      have hreply : (performAt bound operation w).1 =
          operation.openReply w.provider (fun _ ↦ none) 0 :=
        congrArg Prod.fst (performWith_of_active _ hphase hclose)
      simp only [Script.run, PlainMap.performEmptying_of_active hactive hempty hclose, hprovider]
        at hopen ⊢
      rw [hreply] at hopen ⊢
      exact ih _ hsame.symm hactive hempty hopen

end Vacant

namespace Session

open Vacant (Befalls)

variable [DecidableEq K] [DecidableEq V] {w : Running Vacant K V} {handles : List Bool}
  {trace : List (Happening K V)} {s' : Session K V} {fuel : Nat}

private theorem KeepsCache.befalls (h : KeepsCache ⟨⟨.vacant, w⟩, handles⟩ s') :
    ∃ w' handles', s' = ⟨⟨.vacant, w'⟩, handles'⟩ ∧ Befalls [] w [] w' := by
  obtain ⟨agenda, host, handles', rfl⟩ := h
  exact ⟨_, handles', rfl, .aside w _ _ rfl _ rfl agenda host _⟩

private theorem befalls_deal {dealing : Dealing K V}
    (hdeal : deal fuel dealing ⟨⟨.vacant, w⟩, handles⟩ = some (trace, s')) :
    ∃ w' handles', s' = ⟨⟨.vacant, w'⟩, handles'⟩ ∧ Befalls [] w trace w' := by
  let s : Session K V := ⟨⟨.vacant, w⟩, handles⟩
  cases dealing with
  | use script =>
    cases hdeal
    exact ⟨_, handles, rfl, .follow script w⟩
  | clone =>
    cases hdeal
    exact ⟨w, _, rfl, .refl w⟩
  | drop handle =>
    cases hdeal
    rw [dropping, Session.drop]
    dsimp only
    split
    · exact ⟨w, _, rfl, .refl w⟩
    · exact ⟨_, _, rfl, .release w⟩
  | advance d =>
    simp only [deal, Session.advance, Cache.advance, Option.map_map,
      Option.map_eq_some_iff] at hdeal
    obtain ⟨⟨r, body⟩, hadvance, hdeal⟩ := hdeal
    cases hdeal
    exact ⟨body, handles, rfl, .advance hadvance⟩
  | moveClock d =>
    cases hdeal
    cases hmoved : s.moveClock d with
    | error abort => exact (KeepsCache.refl s).befalls
    | ok s' =>
      obtain ⟨clock, rfl⟩ := moveClock_eq_ok hmoved
      exact (KeepsCache.update s w.host _).befalls
  | passTime d =>
    cases hdeal
    cases hpassed : s.passTime d with
    | error abort => exact (KeepsCache.refl s).befalls
    | ok s' =>
      obtain ⟨host, clock, rfl⟩ := passTime_eq_ok hpassed
      exact (KeepsCache.update s host _).befalls
  | shutdown =>
    cases hdeal
    exact (KeepsCache.update s w.host _).befalls
  | schedule delay errand =>
    cases hdeal
    exact (KeepsCache.booked s _).befalls
  | scheduleRepeating period errand =>
    cases hdeal
    exact (KeepsCache.booked s _).befalls
  | cancel handle =>
    cases hdeal
    exact (KeepsCache.update s w.host _).befalls

/-- The same for dealings one after the other. -/
theorem befalls_deals {dealings : List (Dealing K V)}
    (hdeals : deals fuel dealings ⟨⟨.vacant, w⟩, handles⟩ = some (trace, s')) :
    ∃ w' handles', s' = ⟨⟨.vacant, w'⟩, handles'⟩ ∧ Befalls [] w trace w' := by
  induction dealings generalizing w handles trace with
  | nil =>
    cases hdeals
    exact ⟨w, handles, rfl, .refl w⟩
  | cons dealing rest ih =>
    simp only [deals, Option.bind_eq_bind, Option.bind_eq_some_iff, Option.pure_def,
      Option.some.injEq, Prod.mk.injEq] at hdeals
    obtain ⟨⟨first, s₁⟩, hdeal, ⟨more, s₂⟩, hrest, rfl, rfl⟩ := hdeals
    obtain ⟨w₁, handles₁, rfl, hfirst⟩ := befalls_deal hdeal
    obtain ⟨w₂, handles₂, rfl, hmore⟩ := ih hrest
    exact ⟨w₂, handles₂, rfl, hfirst.trans hmore⟩

end Session

end Caching
