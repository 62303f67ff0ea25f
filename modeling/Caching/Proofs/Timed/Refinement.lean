import Caching.Cache.Factory
import Caching.Proofs.Engine.Course
import Caching.Proofs.Timed.Attendance

/-!
# The timed engine refines a timed map

Whether time is let pass on the executor, on its clock alone or not at all, and whether the executor
still runs, the replies of a cache are those of a map that knows nothing of schedules. What the
executor attends to clears lapsed entries away earlier, and nobody can tell.
-/

namespace Caching

variable {K V : Type} [DecidableEq K] [DecidableEq V]

/-- Makes moves, with the replies to those who used the cache. There are none if an advance needs
more fuel, or if something aborts. -/
def Running.play {σ : Type} [Engine σ K V] (fuel : Nat) :
    List (Move K V) → Running σ K V → Option (List (Reply V))
  | [], _ => some []
  | .use script :: rest, w =>
    let (reply, w) := w.follow script
    (play fuel rest w).map (reply :: ·)
  | .advance d :: rest, w =>
    match w.advance fuel d with
    | some (.ok _, w) => play fuel rest w
    | some (.error _, _) | none => none
  | .moveClock d :: rest, w =>
    match w.agenda.moveClock d with
    | .ok agenda => play fuel rest { w with agenda }
    | .error _ => none
  | .shutdown :: rest, w => play fuel rest { w with agenda := w.agenda.shutdown }

namespace Timed.Reflects

variable {now : Instant} {w w' : Running (Timed K V) K V} {m : TimedMap K V}

omit [DecidableEq K] [DecidableEq V] in
private theorem moveClock (h : Reflects m.now w m) {d : Duration} {later : Instant}
    (hlater : m.now.add? d = some later) : ∃ a, w.agenda.moveClock d = .ok a ∧
      a.queue = w.agenda.queue ∧
      Reflects (m.pass d).now (Caching.withAgenda w a) (m.pass d) := by
  have hle : m.now ≤ later := by
    have hsum := Instant.add?_eq_some_iff.mp hlater
    rw [Instant.le_iff]
    omega
  obtain ⟨clock, hadvance, hclock⟩ := Clock.now_advance h.clock hlater
  refine ⟨{ w.agenda with clock }, ?_, rfl, ?_⟩
  · rw [Agenda.moveClock, hadvance]
    rfl
  · exact Reflects.pass (h.withAgenda (a := { w.agenda with clock }) hle hclock h.idle) hlater

omit [DecidableEq K] [DecidableEq V] in
private theorem shutdown (h : Reflects now w m) :
    Reflects now (Caching.withAgenda w w.agenda.shutdown) m := by
  refine h.withAgenda (Int.le_refl _) h.clock ?_
  intro e he
  cases he

/-- A script has the same result, and goes on reflecting the map. -/
theorem follow {α : Type} (h : Reflects m.now w m)
    (script : Script (Operation K V) (Reply V) α) :
    (w.follow script).1 = (script.run TimedMap.perform m).1 ∧
      Reflects (script.run TimedMap.perform m).2.now (w.follow script).2
        (script.run TimedMap.perform m).2 := by
  have hact (operation : Operation K V) (w : Running (Timed K V) K V) (m : TimedMap K V)
      (h : Reflects m.now w m) : (w.perform operation).1 = (m.perform operation).1 ∧
        Reflects (m.perform operation).2.now (w.perform operation).2 (m.perform operation).2 := by
    rw [m.now_perform operation]
    exact h.perform operation
  exact Script.run_simulation hact script h

/-- Whatever a cache replies is what the map replies. -/
theorem play (h : Reflects m.now w m) {moves : List (Move K V)}
    (hrange : m.now.nanos + (moves.map Move.nanos).sum < instantBound) {fuel : Nat}
    {replies : List (Reply V)} (hplay : w.play fuel moves = some replies) :
    replies = m.replies moves := by
  induction moves generalizing w m replies with
  | nil => exact (Option.some.inj hplay).symm
  | cons move rest ih =>
    rw [List.map_cons, List.sum_cons] at hrange
    cases move with
    | use script =>
      obtain ⟨hresult, hreflects⟩ := h.follow script
      obtain ⟨later, hlater, hreplies⟩ := Option.map_eq_some_iff.mp hplay
      have hnow := m.now_run script
      rw [Move.nanos, Nat.zero_add, ← hnow] at hrange
      rw [← hreplies, ih hreflects hrange hlater]
      exact congrArg (· :: _) hresult
    | advance d =>
      obtain ⟨later, hlater, hleft⟩ := TimedMap.exists_pass hrange
      rw [Running.play] at hplay
      split at hplay
      · next count w' hadvance =>
        exact ih (h.advance hlater hadvance) hleft hplay
      · cases hplay
      · cases hplay
    | moveClock d =>
      obtain ⟨later, hlater, hleft⟩ := TimedMap.exists_pass hrange
      obtain ⟨a, hmove, _, hreflects⟩ := h.moveClock hlater
      rw [Running.play, hmove] at hplay
      exact ih hreflects hleft hplay
    | shutdown =>
      rw [Move.nanos, Nat.zero_add] at hrange
      exact ih h.shutdown hrange hplay

end Timed.Reflects

namespace Timed

/-- The listener is quiet, and nothing on the agenda is repeated. -/
def IsBrief (w : Running (Timed K V) K V) : Prop :=
  w.IsQuiet ∧ ∀ e ∈ w.agenda.queue, e.job.body ≠ .upkeep

omit [DecidableEq K] [DecidableEq V] in
private theorem IsBrief.extend {w w' : Running (Timed K V) K V} (h : IsBrief w)
    (hquiet : w'.IsQuiet) (hextends : w.agenda.Extends w'.agenda) : IsBrief w' := by
  refine ⟨hquiet, ?_⟩
  intro e he
  rcases hextends.2 e he with hold | ⟨key, stamp, hjob⟩
  · exact h.2 e hold
  · rw [hjob]
    exact nofun

/-- No operation puts anything on the agenda that is repeated. -/
theorem IsBrief.perform {w : Running (Timed K V) K V} (h : IsBrief w)
    (operation : Operation K V) : IsBrief (w.perform operation).2 := by
  have hcarry (now : Instant) (_ : Engine.reading w = .ok now) (key : K) (deed : Deed V)
      (w' : Running (Timed K V) K V) (h' : IsBrief w') :
      IsBrief (Running.settle w.report (LawfulEngine.carry now key deed w')) := by
    obtain ⟨_, hagenda, hquiet⟩ :=
      Running.settle_of_quiet h'.1 (carryOut_frames key w' now deed) w.depth
    have hextends := carryOut_extends key w' now deed
    rw [← hagenda] at hextends
    exact h'.extend hquiet hextends
  refine Running.performWith_kept hcarry (fun w' h' ↦ h') ?_ h operation
  intro _
  rw [Running.close]
  split
  · exact h
  · have hshut : Running.IsQuiet { w with phase := .closed } := h.1
    have hquiet := hshut.frames (teardown_frames _)
    have hextends := teardown_extends { w with phase := .closed }
    exact h.extend hquiet hextends

/-- With enough fuel, and if nothing is repeated, every sequence of moves comes to its end. -/
theorem Reflects.play_ends {w : Running (Timed K V) K V} {m : TimedMap K V}
    (h : Reflects m.now w m) (hbrief : IsBrief w) {moves : List (Move K V)}
    (hrange : m.now.nanos + (moves.map Move.nanos).sum < instantBound) :
    ∃ fuel, ∀ more, fuel ≤ more → w.play more moves = some (m.replies moves) := by
  induction moves generalizing w m with
  | nil => exact ⟨0, fun _ _ ↦ rfl⟩
  | cons move rest ih =>
    rw [List.map_cons, List.sum_cons] at hrange
    cases move with
    | use script =>
      obtain ⟨hresult, hreflects⟩ := h.follow script
      have hkept := Script.run_invariant
        (fun operation w (hw : IsBrief w) ↦ hw.perform operation) script hbrief
      rw [Move.nanos, Nat.zero_add, ← m.now_run script] at hrange
      obtain ⟨fuel, hplay⟩ := ih hreflects hkept hrange
      refine ⟨fuel, ?_⟩
      intro more hmore
      exact Option.map_eq_some_iff.mpr ⟨_, hplay more hmore, congrArg (· :: _) hresult⟩
    | advance d =>
      obtain ⟨later, hlater, hleft⟩ := TimedMap.exists_pass hrange
      obtain ⟨fuel, count, w', hadvance, hafter⟩ := h.advance_ends hbrief.2 d
      have hreflects := h.advance hlater hadvance
      obtain ⟨fuel', hplay⟩ := ih hreflects ⟨hreflects.quiet, hafter⟩ hleft
      refine ⟨max fuel fuel', ?_⟩
      intro more hmore
      rw [Running.play, show w.advance more d = some (.ok count, w') from
        advance_mono (by omega) hadvance]
      exact hplay more (by omega)
    | moveClock d =>
      obtain ⟨later, hlater, hleft⟩ := TimedMap.exists_pass hrange
      obtain ⟨a, hmove, hqueue, hreflects⟩ := h.moveClock hlater
      have hleaves : IsBrief (Caching.withAgenda w a) := by
        refine ⟨hbrief.1, ?_⟩
        intro e he
        rw [show (Caching.withAgenda w a).agenda.queue = w.agenda.queue from hqueue] at he
        exact hbrief.2 e he
      obtain ⟨fuel, hplay⟩ := ih hreflects hleaves hleft
      refine ⟨fuel, ?_⟩
      intro more hmore
      rw [Running.play, hmove]
      exact hplay more hmore
    | shutdown =>
      rw [Move.nanos, Nat.zero_add] at hrange
      obtain ⟨fuel, hplay⟩ := ih h.shutdown ⟨hbrief.1, fun e he ↦ absurd he List.not_mem_nil⟩ hrange
      exact ⟨fuel, hplay⟩

omit [DecidableEq K] [DecidableEq V] in
/-- A cache that starts on the timed engine reflects a map without values. -/
theorem reflects_start {spec : CacheSpec K V} {expiry : Expiry}
    (hexpiry : spec.engineExpiry = some expiry) {executor : Agenda (Duty K V)}
    (hexecutor : spec.executor = some executor) {now : Instant}
    (hnow : executor.clock.now = .ok now) (hidle : ∀ e ∈ executor.queue, e.job.body.IsIdle)
    (hquiet : ∀ listener ∈ spec.listener, listener.reactions = []) (host : Clock) :
    Reflects now (Running.start (empty spec.engineExpiry) .dashMap spec host)
      (TimedMap.empty expiry .dashMap now) := by
  have hagenda := agenda_start hexecutor (empty spec.engineExpiry) .dashMap host
  refine ⟨.nil hexpiry rfl rfl, rfl, rfl, hquiet, ?_, ?_⟩
  · rw [hagenda]
    exact hnow
  · rw [hagenda]
    exact hidle

/-- A cache with expiry that is given an executor replies what a timed map replies, at every point
of every history: whoever uses it, by operations and what is derived of them, however time passes in
between, and even if the executor is shut down. So it makes no difference whether anybody attends to
what comes due. The executor may serve others, as long as they do not use the cache, and if they
repeat nothing without end, every advance comes to its end. -/
theorem play_refines {spec : CacheSpec K V} {host : Host} {cache : Running (Timed K V) K V}
    {log : List LogEntry} (hbuilt : Factory.buildTimed spec host = (.ok ⟨.timed, cache⟩, log))
    {expiry : Expiry} (hexpiry : spec.engineExpiry = some expiry) {executor : Agenda (Duty K V)}
    (hexecutor : spec.executor = some executor) (hidle : ∀ e ∈ executor.queue, e.job.body.IsIdle)
    {now : Instant} (hnow : executor.clock.now = .ok now)
    (hquiet : ∀ listener ∈ spec.listener, listener.reactions = []) {moves : List (Move K V)}
    (hrange : now.nanos + (moves.map Move.nanos).sum < instantBound) {others : List (Move K V)}
    (hothers : others.map Move.unattended = moves.map Move.unattended) :
    (∀ fuel replies, cache.play fuel others = some replies →
        replies = (TimedMap.empty expiry .dashMap now).replies moves) ∧
      ((∀ e ∈ executor.queue, e.job.body ≠ .upkeep) → ∃ fuel, ∀ more, fuel ≤ more →
        cache.play more others = some ((TimedMap.empty expiry .dashMap now).replies moves)) := by
  have hcache := start_of_buildTimed hbuilt
  have hstart := reflects_start hexpiry hexecutor hnow hidle hquiet host.clock
  rw [← hcache] at hstart
  have hnanos : (others.map Move.nanos).sum = (moves.map Move.nanos).sum := by
    rw [← Move.map_nanos_unattended others, hothers, Move.map_nanos_unattended]
  have hreplies : (TimedMap.empty expiry .dashMap now).replies others =
      (TimedMap.empty expiry .dashMap now).replies moves := by
    rw [← TimedMap.replies_unattended others, hothers, TimedMap.replies_unattended]
  rw [← hnanos] at hrange
  rw [← hreplies]
  constructor
  · intro fuel replies hplay
    exact hstart.play hrange hplay
  · intro hbrief
    apply hstart.play_ends ?_ hrange
    rw [hcache]
    refine ⟨hquiet, ?_⟩
    rw [agenda_start hexecutor]
    exact hbrief

/-- A read after 60 of 100 nanoseconds makes the value last 100 more, and not one more, whoever
looks without reading. -/
theorem play_refines_of_read :
    let expiry : Expiry := ⟨true, ⟨100, by decide⟩⟩
    let first : Instant := ⟨0, by decide, by decide⟩
    let executor : Agenda (Duty Nat Nat) := .ofClock (.ofStart first)
    let spec : CacheSpec Nat Nat :=
      ⟨some .dashMap, none, .postAccess, some expiry.time, none, some executor, false⟩
    let cache : Running (Timed Nat Nat) Nat Nat :=
      Running.start (empty spec.engineExpiry) .dashMap spec .fresh
    let moves : List (Move Nat Nat) :=
      [.use (.single (.put 1 10)), .advance ⟨60, by decide⟩, .use (.single (.get 1)),
        .moveClock ⟨99, by decide⟩, .use (.single (.containsKey 1)), .advance ⟨1, by decide⟩,
        .use (.single (.containsKey 1)), .shutdown, .use (.single .size)]
    spec.engineExpiry = some expiry ∧ spec.executor = some executor ∧
      executor.clock.now = .ok first ∧
      first.nanos + (moves.map Move.nanos).sum < instantBound ∧
      ∃ fuel, ∀ more, fuel ≤ more → cache.play more moves =
        some [.ok (.value none), .ok (.value (some 10)), .ok (.flag true), .ok (.flag false),
          .ok (.count 0)] := by
  intro expiry first executor spec cache moves
  have hbuilt : Factory.buildTimed spec .fresh = (.ok ⟨.timed, cache⟩, []) := rfl
  have hnow : executor.clock.now = .ok first :=
    Clock.now_eq_ok_iff.mpr (by decide)
  have hrange : first.nanos + (moves.map Move.nanos).sum < instantBound := by decide
  refine ⟨rfl, rfl, hnow, hrange, ?_⟩
  have hexpiry : spec.engineExpiry = some expiry := rfl
  have hexecutor : spec.executor = some executor := rfl
  have hidle (e : Entry (Duty Nat Nat)) (he : e ∈ executor.queue) : e.job.body.IsIdle :=
    absurd he List.not_mem_nil
  have hquiet : ∀ listener ∈ spec.listener, listener.reactions = [] := nofun
  obtain ⟨_, hends⟩ := play_refines hbuilt hexpiry hexecutor hidle hnow hquiet hrange rfl
  have hreplies : (TimedMap.empty expiry .dashMap first).replies moves =
      [.ok (.value none), .ok (.value (some 10)), .ok (.flag true), .ok (.flag false),
        .ok (.count 0)] := by decide +kernel
  rw [← hreplies]
  exact hends fun e he ↦ absurd he List.not_mem_nil

end Timed

end Caching
