import Caching.Proofs.Dispatch.Turns

/-!
# What a close promises when it returns

The close that closes a cache returns only when no call of its listener runs on another thread. One
that comes later returns at once. It relies on the first, which may still be waiting, or may have
been made inside a call that goes on.
-/

namespace Caching.Threads

variable {s s' start : Threads} {thread other cache c : Nat} {t t' : Thread} {d d' : Dispatch}
  {turn : Turn} {effect : Effect} {log later : List Act}

/-- Nothing goes on: no cache is closed, no call runs, and nobody waits. -/
structure IsAtRest (s : Threads) : Prop where
  caches : ∀ d ∈ s.caches, d.stage ≠ .closed ∧ d.running = 0
  threads : ∀ t ∈ s.threads, t = ⟨[], none⟩

/-- Active caches and idle threads are at rest. -/
theorem isAtRest_idle (caches threads : Nat) : (idle caches threads).IsAtRest := by
  constructor
  · intro d hd
    simp [List.eq_of_mem_replicate hd]
  · intro t ht
    exact List.eq_of_mem_replicate ht

private theorem IsClosed.put (h : s.IsClosed c) (htakes : Takes cache t d turn effect t' d')
    (hd : s.caches[cache]? = some d) : (s.put thread cache t' d').IsClosed c := by
  rw [isClosed_put hd]
  split
  · next hc =>
    subst hc
    exact htakes.stage_of_closed ((isClosed_iff hd).mp h)
  · exact h

private theorem ClearBeside.put (h : s.ClearBeside other c) (hclosed : s.IsClosed c)
    (htakes : Takes cache t d turn effect t' d') (ht : s.threads[thread]? = some t)
    (hd : s.caches[cache]? = some d) : (s.put thread cache t' d').ClearBeside other c := by
  intro i hi
  have hnone := h i hi
  rw [callsOn_put ht]
  split
  · next hthread =>
    subst hthread
    rw [callsOn_eq ht] at hnone
    by_cases hc : c = cache
    · subst hc
      have hle := htakes.count_le_of_closed ((isClosed_iff hd).mp hclosed)
      omega
    · rw [htakes.count_of_ne hc]
      exact hnone
  · exact hnone

/-- What holds at any time, however the turns have come. Whoever waits has closed the cache that it
waits for; a cache is closed by somebody whose close still waits or has returned; and once it has
returned, no call runs but those that it was made in. -/
structure Keeps (log : List Act) (s : Threads) : Prop where
  tallied : s.IsTallied
  waits : ∀ thread cache, s.Waits thread cache → s.IsClosed cache
  closers : ∀ cache, s.IsClosed cache →
    (∃ thread, s.Waits thread cache) ∨ ∃ thread, ⟨thread, cache, .returned true⟩ ∈ log
  alone : ∀ thread cache, ⟨thread, cache, .returned true⟩ ∈ log →
    s.IsClosed cache ∧ s.ClearBeside thread cache

private theorem Takes.of_returned (h : Takes cache t d turn (.returned true) t' d')
    (hwaits : t.waiting = some cache → d.stage = .closed) :
    d'.stage = .closed ∧ isClear d' t' cache = true := by
  cases h with
  | closesAtOnce _ _ hclear => exact ⟨rfl, hclear⟩
  | awakens hwaiting hclear => exact ⟨hwaits hwaiting, hclear⟩

private theorem Takes.returned_or_waits (h : Takes cache t d turn effect t' d')
    (ht : s.threads[thread]? = some t) (hd : s.caches[cache]? = some d) (hopen : ¬ s.IsClosed c)
    (hclosed : (s.put thread cache t' d').IsClosed c) :
    (c = cache ∧ effect = .returned true) ∨ (s.put thread cache t' d').Waits thread c := by
  rw [isClosed_put hd] at hclosed
  split at hclosed
  · next hc =>
    subst hc
    rw [isClosed_iff hd] at hopen
    rw [waits_put ht, if_pos rfl]
    exact (h.of_closes hopen hclosed).imp_left fun heffect ↦ ⟨rfl, heffect⟩
  · exact absurd hclosed hopen

namespace Keeps

/-- It holds of a state at rest. -/
theorem ofIsAtRest (h : s.IsAtRest) : Keeps [] s := by
  have hthread (thread : Nat) (t : Thread) (ht : s.threads[thread]? = some t) : t = ⟨[], none⟩ :=
    h.threads t (List.mem_of_getElem? ht)
  constructor
  · intro cache d hd
    have hcalls : s.threads.flatMap Thread.calls = [] := by
      rw [List.flatMap_eq_nil_iff]
      intro t ht
      rw [h.threads t ht]
    rw [(h.caches d (List.mem_of_getElem? hd)).2, callsOf, hcalls, List.count_nil]
  · intro thread cache hwaits
    obtain ⟨t, ht, hw⟩ := Option.bind_eq_some_iff.mp hwaits
    rw [hthread thread t ht] at hw
    cases hw
  · intro cache hclosed
    obtain ⟨d, hd, hstage⟩ := Option.map_eq_some_iff.mp hclosed
    exact absurd hstage (h.caches d (List.mem_of_getElem? hd)).1
  · intro thread cache hmem
    cases hmem

section

variable (h : Keeps log s) (htakes : Takes cache t d turn effect t' d')
  (ht : s.threads[thread]? = some t) (hd : s.caches[cache]? = some d)

include h htakes ht hd

private theorem isClosed_of_waits {i : Nat} (hwaits : (s.put thread cache t' d').Waits i c) :
    (s.put thread cache t' d').IsClosed c := by
  rw [waits_put ht] at hwaits
  split at hwaits
  · rcases htakes.waiting_after hwaits with hbefore | ⟨rfl, hstage⟩
    · exact (h.waits thread c ((waits_iff ht).mpr hbefore)).put htakes hd
    · rw [isClosed_put hd, if_pos rfl]
      exact hstage
  · exact (h.waits i c hwaits).put htakes hd

private theorem closers_of_isClosed (hbefore : s.IsClosed c) :
    (∃ i, (s.put thread cache t' d').Waits i c) ∨
      ∃ i, ⟨i, c, .returned true⟩ ∈ log ++ [⟨thread, cache, effect⟩] := by
  rcases h.closers c hbefore with ⟨i, hwaits⟩ | ⟨i, hmem⟩
  · by_cases hi : i = thread
    · subst hi
      rcases htakes.waiting_before ((waits_iff ht).mp hwaits) with hstill | ⟨rfl, rfl⟩
      · refine .inl ⟨i, ?_⟩
        rw [waits_put ht, if_pos rfl]
        exact hstill
      · exact .inr ⟨i, List.mem_append_right _ (List.mem_singleton_self _)⟩
    · refine .inl ⟨i, ?_⟩
      rw [waits_put ht, if_neg hi]
      exact hwaits
  · exact .inr ⟨i, List.mem_append_left _ hmem⟩

/-- A close that returns in a turn leaves no call on other threads. -/
theorem clearBeside_of_returned (heffect : effect = .returned true) :
    (s.put thread cache t' d').IsClosed cache ∧
      (s.put thread cache t' d').ClearBeside thread cache := by
  subst heffect
  have hwaiting (hw : t.waiting = some cache) : d.stage = .closed :=
    (isClosed_iff hd).mp (h.waits thread cache ((waits_iff ht).mpr hw))
  obtain ⟨hstage, hclear⟩ := htakes.of_returned hwaiting
  refine ⟨?_, (h.tallied.put htakes ht hd).clearBeside ?_ ?_ hclear⟩
  · rw [isClosed_put hd, if_pos rfl]
    exact hstage
  · rw [getElem?_threads_put ht, if_pos rfl]
  · rw [getElem?_caches_put hd, if_pos rfl]

private theorem put : Keeps (log ++ [⟨thread, cache, effect⟩]) (s.put thread cache t' d') := by
  refine ⟨h.tallied.put htakes ht hd, ?_, ?_, ?_⟩
  · intro i c hwaits
    exact h.isClosed_of_waits htakes ht hd hwaits
  · intro c hclosed
    by_cases hbefore : s.IsClosed c
    · exact h.closers_of_isClosed htakes ht hd hbefore
    · rcases htakes.returned_or_waits ht hd hbefore hclosed with ⟨rfl, rfl⟩ | hwaits
      · exact .inr ⟨thread, List.mem_append_right _ (List.mem_singleton_self _)⟩
      · exact .inl ⟨thread, hwaits⟩
  · intro i c hmem
    rcases List.mem_append.mp hmem with hold | hnew
    · obtain ⟨hclosed, hclear⟩ := h.alone i c hold
      exact ⟨hclosed.put htakes hd, hclear.put hclosed htakes ht hd⟩
    · obtain ⟨rfl, rfl, heffect⟩ : i = thread ∧ c = cache ∧ .returned true = effect := by
        simpa using hnew
      exact h.clearBeside_of_returned htakes ht hd heffect.symm

end

/-- Every course from a state at rest keeps it. -/
theorem course (hrest : start.IsAtRest) (h : start.Course log s) : Keeps log s := by
  induction h with
  | start => exact ofIsAtRest hrest
  | turn _ habout hstep ih =>
    obtain ⟨t, d, t', d', ht, hd, htakes, rfl⟩ := step_takes habout hstep
    exact ih.put htakes ht hd

end Keeps

/-- No call of a closed cache starts, whatever turns follow. -/
theorem Course.of_closed (h : s.Course later s') (hclosed : s.IsClosed cache) :
    s'.IsClosed cache ∧ ∀ thread, ⟨thread, cache, .entered⟩ ∉ later := by
  induction h with
  | start => exact ⟨hclosed, fun _ ↦ List.not_mem_nil⟩
  | @turn log s s' i c turn effect _ habout hstep ih =>
    obtain ⟨hstill, hnone⟩ := ih
    obtain ⟨t, d, t', d', ht, hd, htakes, rfl⟩ := step_takes habout hstep
    refine ⟨hstill.put htakes hd, fun thread hmem ↦ ?_⟩
    rcases List.mem_append.mp hmem with hold | hnew
    · exact hnone thread hold
    · obtain ⟨rfl, rfl, rfl⟩ : thread = i ∧ cache = c ∧ .entered = effect := by
        simpa using hnew
      cases htakes with
      | enters _ hopen => exact hopen ((isClosed_iff hd).mp hstill)

/-- Whoever closes a cache, however many threads call its listener or close it, in whatever order:
once a close has returned, no call of the listener starts. When the close that closed the cache
returns, no call runs on another thread. A later close returns at once. If calls run on other
threads then, another thread still waits in the close that closed the cache, or that close was made
inside the calls that run, and has returned there. -/
theorem close_returns (hrest : start.IsAtRest) {first : Bool}
    (hcourse : start.Course (log ++ [⟨thread, cache, .returned first⟩]) s) :
    (∀ later s', s.Course later s' → ∀ other, ⟨other, cache, .entered⟩ ∉ later) ∧
      (first = true → s.ClearBeside thread cache) ∧
      (first = false → s.ClearBeside thread cache ∨
        (∃ other, other ≠ thread ∧ s.Waits other cache) ∨
        ∃ other, other ≠ thread ∧ ⟨other, cache, .returned true⟩ ∈ log ∧
          s.ClearBeside other cache) := by
  generalize hlog : log ++ [⟨thread, cache, .returned first⟩] = whole at hcourse
  cases hcourse with
  | start => simp at hlog
  | @turn before s₀ _ _ _ turn _ h habout hstep =>
    obtain ⟨rfl, hlast⟩ := List.append_inj' hlog rfl
    cases hlast
    obtain ⟨t, d, t', d', ht, hd, htakes, rfl⟩ := step_takes habout hstep
    have hbefore := Keeps.course hrest h
    cases first with
    | true =>
      obtain ⟨hclosed, hclear⟩ := hbefore.clearBeside_of_returned htakes ht hd rfl
      exact ⟨fun _ _ hlater ↦ (hlater.of_closed hclosed).2, fun _ ↦ hclear, nofun⟩
    | false =>
      cases htakes with
      | closesAgain hfree hstage =>
        have hclosed : s₀.IsClosed cache := (isClosed_iff hd).mpr hstage
        rw [put_self ht hd]
        refine ⟨fun _ _ hlater ↦ (hlater.of_closed hclosed).2, nofun, fun _ ↦ ?_⟩
        rcases hbefore.closers cache hclosed with ⟨other, hwaits⟩ | ⟨other, hmem⟩
        · refine .inr (.inl ⟨other, ?_, hwaits⟩)
          rintro rfl
          rw [waits_iff ht, hfree] at hwaits
          cases hwaits
        · have hclear := (hbefore.alone other cache hmem).2
          by_cases hother : other = thread
          · exact .inl (hother ▸ hclear)
          · exact .inr (.inr ⟨other, hother, hmem, hclear⟩)

/-- While one thread waits in its close, the close of another one returns. -/
example : ((idle 1 3).play [(0, .enter 0), (1, .close 0), (2, .close 0)]).1 =
    [.entered, .held, .returned false] := by
  decide

/-- A thread closes a cache while another one is in a call of the listener, and waits until the call
has ended. -/
theorem close_returns_after_call :
    ∃ s, (idle 1 2).Course
        ([⟨0, 0, .entered⟩, ⟨1, 0, .held⟩, ⟨0, 0, .left⟩] ++ [⟨1, 0, .returned true⟩]) s ∧
      s.ClearBeside 1 0 ∧ ∀ later s', s.Course later s' → ∀ other, ⟨other, 0, .entered⟩ ∉ later := by
  let called : Threads := ⟨[⟨.active, 1⟩], [⟨[0], none⟩, ⟨[], none⟩]⟩
  let waiting : Threads := ⟨[⟨.closed, 1⟩], [⟨[0], none⟩, ⟨[], some 0⟩]⟩
  let ended : Threads := ⟨[⟨.closed, 0⟩], [⟨[], none⟩, ⟨[], some 0⟩]⟩
  let returned : Threads := ⟨[⟨.closed, 0⟩], [⟨[], none⟩, ⟨[], none⟩]⟩
  have henter : (idle 1 2).step 0 (.enter 0) = some (.entered, called) := rfl
  have hclose : called.step 1 (.close 0) = some (.held, waiting) := rfl
  have hleave : waiting.step 0 (.leave 0) = some (.left, ended) := rfl
  have hawaken : ended.step 1 .awaken = some (.returned true, returned) := rfl
  have hcourse : (idle 1 2).Course
      ([⟨0, 0, .entered⟩, ⟨1, 0, .held⟩, ⟨0, 0, .left⟩] ++ [⟨1, 0, .returned true⟩]) returned :=
    .turn (.turn (.turn (.turn .start (by rfl) henter) (by rfl) hclose) (by rfl) hleave) (by rfl)
      hawaken
  obtain ⟨hnone, hclear, _⟩ := close_returns (isAtRest_idle 1 2) hcourse
  exact ⟨returned, hcourse, hclear rfl, hnone⟩

/-- Not every close that returns leaves no call on other threads: a listener closes its own cache,
and while its call still runs, another thread closes the cache again and need not wait. -/
theorem not_every_close_waits :
    ¬ ∀ (start s : Threads) (log : List Act) (thread cache : Nat) (first : Bool), start.IsAtRest →
      start.Course (log ++ [⟨thread, cache, .returned first⟩]) s → s.ClearBeside thread cache := by
  intro h
  let called : Threads := ⟨[⟨.active, 1⟩], [⟨[0], none⟩, ⟨[], none⟩]⟩
  let closed : Threads := ⟨[⟨.closed, 1⟩], [⟨[0], none⟩, ⟨[], none⟩]⟩
  have henter : (idle 1 2).step 0 (.enter 0) = some (.entered, called) := rfl
  have hclose : called.step 0 (.close 0) = some (.returned true, closed) := rfl
  have hagain : closed.step 1 (.close 0) = some (.returned false, closed) := rfl
  have hcourse : (idle 1 2).Course
      ([⟨0, 0, .entered⟩, ⟨0, 0, .returned true⟩] ++ [⟨1, 0, .returned false⟩]) closed :=
    .turn (.turn (.turn .start (by rfl) henter) (by rfl) hclose) (by rfl) hagain
  have hclear := h _ _ _ _ _ _ (isAtRest_idle 1 2) hcourse 0 (by decide)
  exact absurd hclear (by decide)

end Caching.Threads
