import Caching.Dispatch

/-!
# Turns of threads

A turn changes no more than the thread that takes it and the cache that it is about. What it makes
of the two is said once, with the condition under which it can be taken; whatever a turn keeps or
changes is read off that. Any number of turns of any threads, in any order, make a course.
-/

namespace Caching

private theorem Dispatch.start?_of_open {d : Dispatch} (hopen : d.stage ≠ .closed) :
    d.start? = some { d with running := d.running + 1 } := by
  unfold start?
  split
  · next hclosed => exact absurd hclosed hopen
  · rfl
  · rfl

/-- Only a cache that is closed is closed after it was made ready. -/
theorem Dispatch.stage_activate (d : Dispatch) :
    d.activate.stage = .closed ↔ d.stage = .closed := by
  unfold activate
  cases h : d.stage <;> simp [h]

private theorem Dispatch.running_activate (d : Dispatch) : d.activate.running = d.running := by
  unfold activate
  split <;> rfl

namespace Threads

variable {s s' : Threads} {thread cache : Nat} {t t' : Thread} {d d' : Dispatch} {turn : Turn}
  {effect : Effect}

/-- The number of calls of a cache's listener that run on a thread. -/
def callsOn (s : Threads) (thread cache : Nat) : Nat :=
  (s.threads[thread]?).elim 0 fun t ↦ t.calls.count cache

/-- The cache is closed. -/
def IsClosed (s : Threads) (cache : Nat) : Prop :=
  (s.caches[cache]?).map Dispatch.stage = some .closed

/-- The thread waits in a close of the cache. -/
def Waits (s : Threads) (thread cache : Nat) : Prop :=
  (s.threads[thread]?).bind Thread.waiting = some cache

/-- No call of the cache's listener runs on any other thread. -/
def ClearBeside (s : Threads) (thread cache : Nat) : Prop :=
  ∀ other, other ≠ thread → s.callsOn other cache = 0

/-! ### What a turn does -/

/-- The cache that a turn of a thread is about: the one that it names, or the one that the thread
waits for. -/
def about (s : Threads) (thread : Nat) : Turn → Option Nat
  | .activate cache | .enter cache | .leave cache | .close cache => some cache
  | .awaken => (s.threads[thread]?).bind Thread.waiting

/-- Everything that a turn about a cache can make of the thread and the cache. -/
inductive Takes (cache : Nat) (t : Thread) (d : Dispatch) :
    Turn → Effect → Thread → Dispatch → Prop where
  | activates (hfree : t.waiting = none) :
    Takes cache t d (.activate cache) .activated t d.activate
  | enters (hfree : t.waiting = none) (hopen : d.stage ≠ .closed) :
    Takes cache t d (.enter cache) .entered { t with calls := cache :: t.calls }
      { d with running := d.running + 1 }
  | turnsAway (hfree : t.waiting = none) (hclosed : d.stage = .closed) :
    Takes cache t d (.enter cache) .turnedAway t d
  | leaves (hfree : t.waiting = none) (hcall : cache ∈ t.calls) :
    Takes cache t d (.leave cache) .left { t with calls := t.calls.erase cache } d.finish
  /-- The cache is closed already. -/
  | closesAgain (hfree : t.waiting = none) (hclosed : d.stage = .closed) :
    Takes cache t d (.close cache) (.returned false) t d
  | closesAtOnce (hfree : t.waiting = none) (hopen : d.stage ≠ .closed)
      (hclear : isClear d t cache = true) :
    Takes cache t d (.close cache) (.returned true) t d.shut
  /-- Calls run on other threads. -/
  | closesLater (hfree : t.waiting = none) (hopen : d.stage ≠ .closed)
      (hcalls : isClear d t cache = false) :
    Takes cache t d (.close cache) .held { t with waiting := some cache } d.shut
  | awakens (hwaits : t.waiting = some cache) (hclear : isClear d t cache = true) :
    Takes cache t d .awaken (.returned true) { t with waiting := none } d

/-- The state with a thread and a cache in new states. -/
def put (s : Threads) (thread cache : Nat) (t : Thread) (d : Dispatch) : Threads :=
  (s.setCache cache d).setThread thread t

private theorem put_cache (hd : s.caches[cache]? = some d) :
    s.put thread cache t d = s.setThread thread t := by
  obtain ⟨_, rfl⟩ := List.getElem?_eq_some_iff.mp hd
  simp [put, setCache]

private theorem put_thread (ht : s.threads[thread]? = some t) :
    s.put thread cache t d = s.setCache cache d := by
  obtain ⟨_, rfl⟩ := List.getElem?_eq_some_iff.mp ht
  simp [put, setThread, setCache]

/-- Both may stay as they are. -/
theorem put_self (ht : s.threads[thread]? = some t) (hd : s.caches[cache]? = some d) :
    s.put thread cache t d = s := by
  obtain ⟨_, rfl⟩ := List.getElem?_eq_some_iff.mp hd
  simp [put_thread ht, setCache]

/-- Closing a cache that is not closed yet. -/
theorem close_of_open (hopen : d.stage ≠ .closed) :
    s.close thread t cache d =
      if isClear d t cache then (.returned true, s.setCache cache d.shut)
      else (.held, s.put thread cache { t with waiting := some cache } d.shut) := by
  unfold Threads.close
  split
  · next hclosed => exact absurd hclosed hopen
  · rfl
  · rfl

/-- A turn that is taken is one of these. -/
theorem step_takes (habout : s.about thread turn = some cache)
    (hstep : s.step thread turn = some (effect, s')) :
    ∃ t d t' d', s.threads[thread]? = some t ∧ s.caches[cache]? = some d ∧
      Takes cache t d turn effect t' d' ∧ s' = s.put thread cache t' d' := by
  unfold step at hstep
  cases ht : s.threads[thread]? with
  | none => simp [ht] at hstep
  | some t =>
    cases hd : s.caches[cache]? with
    | none => cases turn <;> cases hw : t.waiting <;> simp_all [about]
    | some d =>
      suffices h : ∃ t' d', Takes cache t d turn effect t' d' ∧ s' = s.put thread cache t' d' by
        obtain ⟨t', d', h⟩ := h
        exact ⟨t, d, t', d', rfl, rfl, h⟩
      obtain ⟨calls, waiting⟩ := t
      simp only [ht, Option.bind_eq_bind, Option.bind_some, Option.pure_def] at hstep
      -- a thread that waits takes no turn but the last
      cases turn with
      | activate =>
        cases habout
        cases waiting <;> simp only [hd, Option.bind_some, reduceCtorEq] at hstep
        cases hstep
        exact ⟨_, d.activate, .activates rfl, (put_thread ht).symm⟩
      | enter =>
        cases habout
        cases waiting <;> simp only [hd, Option.bind_some, reduceCtorEq] at hstep
        by_cases hclosed : d.stage = .closed
        · simp only [Dispatch.start?, hclosed] at hstep
          cases hstep
          exact ⟨_, d, .turnsAway rfl hclosed, (put_self ht hd).symm⟩
        · simp only [Dispatch.start?_of_open hclosed] at hstep
          cases hstep
          exact ⟨_, _, .enters rfl hclosed, rfl⟩
      | leave =>
        cases habout
        cases waiting <;> simp only [hd, Option.bind_some, reduceCtorEq] at hstep
        split at hstep
        · next hcall =>
          cases hstep
          exact ⟨_, _, .leaves rfl hcall, rfl⟩
        · cases hstep
      | close =>
        cases habout
        cases waiting <;> simp only [hd, Option.bind_some, reduceCtorEq, Option.some.injEq] at hstep
        by_cases hclosed : d.stage = .closed
        · simp only [Threads.close, hclosed] at hstep
          cases hstep
          exact ⟨_, d, .closesAgain rfl hclosed, (put_self ht hd).symm⟩
        · rw [close_of_open hclosed] at hstep
          cases hclear : isClear d ⟨calls, none⟩ cache with
          | true =>
            simp only [hclear, if_true] at hstep
            cases hstep
            exact ⟨_, _, .closesAtOnce rfl hclosed hclear, (put_thread ht).symm⟩
          | false =>
            simp only [hclear, Bool.false_eq_true, if_false] at hstep
            cases hstep
            exact ⟨_, _, .closesLater rfl hclosed hclear, rfl⟩
      | awaken =>
        simp only [about, ht, Option.bind_some] at habout
        simp only [habout, hd, Option.bind_some] at hstep
        split at hstep
        · next hclear =>
          cases hstep
          exact ⟨_, d, .awakens habout hclear, (put_cache hd).symm⟩
        · cases hstep

/-! ### What is seen of a state after a turn -/

variable {other c : Nat}

/-- The thread is in its new state, the others are as they were. -/
theorem getElem?_threads_put (ht : s.threads[thread]? = some t) :
    (s.put thread cache t' d').threads[other]? =
      if other = thread then some t' else s.threads[other]? := by
  obtain ⟨hlt, _⟩ := List.getElem?_eq_some_iff.mp ht
  by_cases ho : other = thread
  · subst ho
    simp [put, setThread, setCache, hlt]
  · simp [put, setThread, setCache, ho, Ne.symm ho]

/-- The cache is in its new state, the others are as they were. -/
theorem getElem?_caches_put (hd : s.caches[cache]? = some d) :
    (s.put thread cache t' d').caches[c]? = if c = cache then some d' else s.caches[c]? := by
  obtain ⟨hlt, _⟩ := List.getElem?_eq_some_iff.mp hd
  by_cases hc : c = cache
  · subst hc
    simp [put, setThread, setCache, hlt]
  · simp [put, setThread, setCache, hc, Ne.symm hc]

theorem callsOn_eq (ht : s.threads[thread]? = some t) : s.callsOn thread c = t.calls.count c := by
  simp [callsOn, ht]

theorem waits_iff (ht : s.threads[thread]? = some t) : s.Waits thread c ↔ t.waiting = some c := by
  simp [Waits, ht]

theorem isClosed_iff (hd : s.caches[cache]? = some d) : s.IsClosed cache ↔ d.stage = .closed := by
  simp [IsClosed, hd]

theorem callsOn_put (ht : s.threads[thread]? = some t) :
    (s.put thread cache t' d').callsOn other c =
      if other = thread then t'.calls.count c else s.callsOn other c := by
  unfold callsOn
  rw [getElem?_threads_put ht]
  split <;> rfl

theorem waits_put (ht : s.threads[thread]? = some t) :
    (s.put thread cache t' d').Waits other c ↔
      if other = thread then t'.waiting = some c else s.Waits other c := by
  unfold Waits
  rw [getElem?_threads_put ht]
  split <;> rfl

theorem isClosed_put (hd : s.caches[cache]? = some d) :
    (s.put thread cache t' d').IsClosed c ↔
      if c = cache then d'.stage = .closed else s.IsClosed c := by
  unfold IsClosed
  rw [getElem?_caches_put hd]
  split <;> simp

/-- The calls of a cache on all threads change with those on the one. -/
theorem callsOf_put (ht : s.threads[thread]? = some t) :
    (s.put thread cache t' d').callsOf c + t.calls.count c = s.callsOf c + t'.calls.count c := by
  have hset (threads : List Thread) (i : Nat) (hi : threads[i]? = some t) :
      ((threads.set i t').flatMap Thread.calls).count c + t.calls.count c =
        (threads.flatMap Thread.calls).count c + t'.calls.count c := by
    induction threads generalizing i with
    | nil => simp at hi
    | cons first rest ih =>
      cases i with
      | zero =>
        simp only [List.getElem?_cons_zero, Option.some.injEq] at hi
        subst hi
        simp only [List.set_cons_zero, List.flatMap_cons, List.count_append]
        omega
      | succ i =>
        have hrest := ih i (by simpa using hi)
        simp only [List.set_cons_succ, List.flatMap_cons, List.count_append]
        omega
  exact hset s.threads thread ht

namespace Takes

variable (h : Takes cache t d turn effect t' d')

include h

/-- A closed cache stays closed. -/
theorem stage_of_closed (hclosed : d.stage = .closed) : d'.stage = .closed := by
  cases h with
  | activates => exact d.stage_activate.mpr hclosed
  | closesAtOnce | closesLater => rfl
  | _ => exact hclosed

/-- Only a close closes a cache, and if it does not return at once, the thread waits. -/
theorem of_closes (hopen : d.stage ≠ .closed) (hclosed : d'.stage = .closed) :
    effect = .returned true ∨ t'.waiting = some cache := by
  cases h with
  | activates => exact absurd (d.stage_activate.mp hclosed) hopen
  | closesAtOnce => exact .inl rfl
  | closesLater => exact .inr rfl
  | _ => exact absurd hclosed hopen

/-- A thread that waits has waited before, unless a close of this turn has to wait. -/
theorem waiting_after (hwaits : t'.waiting = some c) :
    t.waiting = some c ∨ (c = cache ∧ d'.stage = .closed) := by
  cases h with
  | closesLater =>
    cases hwaits
    exact .inr ⟨rfl, rfl⟩
  | awakens => cases hwaits
  | _ => exact .inl hwaits

/-- A thread that has waited still waits, unless its close returns in this turn. -/
theorem waiting_before (hwaits : t.waiting = some c) :
    t'.waiting = some c ∨ (c = cache ∧ effect = .returned true) := by
  cases h with
  | closesLater hfree =>
    rw [hfree] at hwaits
    cases hwaits
  | awakens hwaiting =>
    rw [hwaiting] at hwaits
    cases hwaits
    exact .inr ⟨rfl, rfl⟩
  | _ => exact .inl hwaits

/-- The calls of other caches are not changed. -/
theorem count_of_ne (hne : c ≠ cache) : t'.calls.count c = t.calls.count c := by
  cases h with
  | enters => exact List.count_cons_of_ne (Ne.symm hne)
  | leaves => exact List.count_erase_of_ne hne
  | _ => rfl

/-- No call of a closed cache starts. -/
theorem count_le_of_closed (hclosed : d.stage = .closed) :
    t'.calls.count cache ≤ t.calls.count cache := by
  cases h with
  | enters _ hopen => exact absurd hclosed hopen
  | leaves => exact List.erase_sublist.count_le cache
  | _ => exact Nat.le_refl _

private theorem running_add (hcounted : t.calls.count cache ≤ d.running) :
    d'.running + t.calls.count cache = d.running + t'.calls.count cache := by
  cases h with
  | activates => rw [d.running_activate]
  | enters =>
    simp only [List.count_cons_self]
    omega
  | leaves _ hcall =>
    have hpos := List.count_pos_iff.mpr hcall
    simp only [Dispatch.finish, List.count_erase_self]
    omega
  | _ => rfl

end Takes

/-! ### The count of each cache -/

/-- The calls on one thread are some of all. -/
theorem callsOn_le_callsOf (s : Threads) (thread cache : Nat) :
    s.callsOn thread cache ≤ s.callsOf cache := by
  cases ht : s.threads[thread]? with
  | none => simp [callsOn, ht]
  | some t =>
    have hmem : t.calls ∈ s.threads.map Thread.calls :=
      List.mem_map_of_mem (List.mem_of_getElem? ht)
    rw [callsOn_eq ht, callsOf, List.flatMap_def]
    exact (List.sublist_flatten_of_mem hmem).count_le cache

private theorem clearBeside_of_le (ht : s.threads[thread]? = some t)
    (hle : s.callsOf cache ≤ t.calls.count cache) : s.ClearBeside thread cache := by
  intro other hother
  -- without the thread's own calls there is none left
  have hput : (s.put thread cache ⟨[], none⟩ .fresh).callsOf cache + t.calls.count cache =
      s.callsOf cache + 0 := callsOf_put ht
  have hothers := (s.put thread cache ⟨[], none⟩ .fresh).callsOn_le_callsOf other cache
  rw [callsOn_put ht, if_neg hother] at hothers
  omega

/-- Every cache counts the calls of its listener that run on any thread. -/
def IsTallied (s : Threads) : Prop :=
  ∀ cache d, s.caches[cache]? = some d → d.running = s.callsOf cache

namespace IsTallied

/-- Exactly if a thread runs all calls that the cache counts, the other threads run none. -/
theorem clearBeside (h : s.IsTallied) (ht : s.threads[thread]? = some t)
    (hd : s.caches[cache]? = some d) (hclear : isClear d t cache = true) :
    s.ClearBeside thread cache := by
  unfold isClear at hclear
  rw [h cache d hd] at hclear
  exact clearBeside_of_le ht (of_decide_eq_true hclear)

/-- Every turn keeps the counts. -/
theorem put (h : s.IsTallied) (htakes : Takes cache t d turn effect t' d')
    (ht : s.threads[thread]? = some t) (hd : s.caches[cache]? = some d) :
    (s.put thread cache t' d').IsTallied := by
  intro c e he
  rw [getElem?_caches_put hd] at he
  have hcalls : (s.put thread cache t' d').callsOf c + t.calls.count c =
      s.callsOf c + t'.calls.count c := callsOf_put ht
  by_cases hc : c = cache
  · subst hc
    simp only [if_true, Option.some.injEq] at he
    subst he
    have hcount := h c d hd
    have hcounted := s.callsOn_le_callsOf thread c
    rw [callsOn_eq ht, ← hcount] at hcounted
    have hrunning := htakes.running_add hcounted
    omega
  · rw [if_neg hc] at he
    have hcount := h c e he
    rw [htakes.count_of_ne hc] at hcalls
    omega

end IsTallied

/-! ### Courses of turns -/

/-- A turn that was taken: by which thread, about which cache, and what came of it. -/
structure Act where
  thread : Nat
  cache : Nat
  effect : Effect
  deriving DecidableEq, Repr

/-- The courses that turns can take from a state on, whichever thread takes each of them, with all
that came of them. -/
inductive Course (start : Threads) : List Act → Threads → Prop where
  | start : Course start [] start
  | turn {log : List Act} {s s' : Threads} {thread cache : Nat} {turn : Turn} {effect : Effect}
      (h : Course start log s) (habout : s.about thread turn = some cache)
      (hstep : s.step thread turn = some (effect, s')) :
      Course start (log ++ [⟨thread, cache, effect⟩]) s'

end Threads

end Caching
