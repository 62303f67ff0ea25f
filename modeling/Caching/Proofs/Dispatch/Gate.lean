import Caching.Proofs.Dispatch.Returning

/-!
# The gate in front of a listener

Three things have to stay in step, though different turns change them: the count of each cache, the
calls on each thread, and the stage of the cache with those who wait for its end. Calls may end in
another order than the one in which they started, and calls of several caches may be nested in each
other. However that goes, a cache has one close that closes it, and that is the first.
-/

namespace Caching

/-- The stages that a cache may come to from another one. -/
inductive Stage.LeadsTo : Stage → Stage → Prop where
  | stays (stage : Stage) : LeadsTo stage stage
  | activates : LeadsTo .preparing .active
  | closes (stage : Stage) : LeadsTo stage .closed

/-- Stages come one after the other. -/
theorem Stage.LeadsTo.trans {a b c : Stage} (h : a.LeadsTo b) (h' : b.LeadsTo c) : a.LeadsTo c := by
  cases h with
  | stays => exact h'
  | activates =>
    cases h' with
    | stays => exact .activates
    | closes => exact .closes _
  | closes =>
    cases h' with
    | stays => exact .closes _
    | closes => exact .closes _

/-- The turn was part of a close. -/
def Effect.isOfClose : Effect → Bool
  | .held | .returned _ => true
  | .activated | .entered | .turnedAway | .left => false

namespace Threads

variable {s s' start : Threads} {thread other cache c : Nat} {t t' : Thread} {d d' : Dispatch}
  {turn : Turn} {effect : Effect} {log later : List Act}

/-! ### Stages -/

private theorem Takes.stage (h : Takes cache t d turn effect t' d') : d.stage.LeadsTo d'.stage := by
  cases h with
  | activates =>
    rw [Dispatch.activate]
    cases hstage : d.stage with
    | preparing => exact .activates
    | active | closed => simpa only [hstage] using .stays _
  | closesAtOnce | closesLater => exact .closes _
  | _ => exact .stays _

/-- Whatever turns follow take a cache on, if anywhere. -/
theorem Course.stage (h : s.Course later s') (hd : s.caches[cache]? = some d) :
    ∃ d', s'.caches[cache]? = some d' ∧ d.stage.LeadsTo d'.stage := by
  induction h with
  | start => exact ⟨d, hd, .stays _⟩
  | @turn log s s' i c turn effect _ habout hstep ih =>
    obtain ⟨e, he, hleads⟩ := ih
    obtain ⟨t, d₁, t', d₂, ht, hd₁, htakes, rfl⟩ := step_takes habout hstep
    rw [getElem?_caches_put hd₁]
    by_cases hc : cache = c
    · subst hc
      obtain rfl := Option.some.inj (he.symm.trans hd₁)
      rw [if_pos rfl]
      exact ⟨d₂, rfl, hleads.trans htakes.stage⟩
    · rw [if_neg hc]
      exact ⟨e, he, hleads⟩

/-! ### Calls -/

/-- A call of a cache's listener runs on a thread exactly if the thread counts one. -/
theorem isDispatching_iff : s.isDispatching thread cache = true ↔ 0 < s.callsOn thread cache := by
  rw [isDispatching, callsOn]
  cases s.threads[thread]? with
  | none => simp
  | some t => simp [List.count_pos_iff]

private theorem Takes.count_calls (h : Takes cache t d turn effect t' d') :
    t'.calls.count cache + (if effect = .left then 1 else 0) =
      t.calls.count cache + if effect = .entered then 1 else 0 := by
  cases h with
  | enters => simp
  | leaves _ hcall =>
    have hpos := List.count_pos_iff.mpr hcall
    simp only [List.count_erase_self, if_true, reduceCtorEq, if_false]
    omega
  | _ => rfl

/-- On each thread run the calls that have started there and not ended. -/
theorem callsOn_course (hrest : start.IsAtRest) (h : start.Course log s) (thread cache : Nat) :
    s.callsOn thread cache + log.count ⟨thread, cache, .left⟩ =
      log.count ⟨thread, cache, .entered⟩ := by
  induction h with
  | start =>
    rw [List.count_nil, List.count_nil, callsOn]
    cases ht : start.threads[thread]? with
    | none => rfl
    | some t => simp [hrest.threads t (List.mem_of_getElem? ht)]
  | @turn log s s' i c turn effect _ habout hstep ih =>
    obtain ⟨t, d, t', d', ht, hd, htakes, rfl⟩ := step_takes habout hstep
    rw [callsOn_put ht, List.count_append, List.count_append, List.count_singleton,
      List.count_singleton]
    by_cases hi : thread = i
    · subst hi
      rw [callsOn_eq ht] at ih
      rw [if_pos rfl]
      by_cases hc : cache = c
      · subst hc
        have hcount := htakes.count_calls
        simp only [beq_iff_eq, Act.mk.injEq, true_and]
        omega
      · simpa [htakes.count_of_ne hc, Ne.symm hc] using ih
    · simpa [hi, Ne.symm hi] using ih

/-- Whoever ends a call ends one that its cache counts. -/
theorem running_pos_of_leave (h : s.IsTallied) (hstep : s.step thread (.leave cache) =
    some (effect, s')) : ∃ d, s.caches[cache]? = some d ∧ 0 < d.running := by
  obtain ⟨t, d, t', d', ht, hd, htakes, rfl⟩ := step_takes rfl hstep
  refine ⟨d, hd, ?_⟩
  cases htakes with
  | leaves _ hcall =>
    rw [h cache d hd]
    refine Nat.lt_of_lt_of_le ?_ (s.callsOn_le_callsOf thread cache)
    rw [callsOn_eq ht]
    exact List.count_pos_iff.mpr hcall

private theorem isClear_of_clearBeside (h : s.IsTallied) (ht : s.threads[thread]? = some t)
    (hd : s.caches[cache]? = some d) (hclear : s.ClearBeside thread cache) :
    isClear d t cache = true := by
  have hnone (calls : List Nat)
      (hmem : calls ∈ (s.put thread cache ⟨[], none⟩ d).threads.map Thread.calls) :
      calls.count cache = 0 := by
    obtain ⟨u, hu, rfl⟩ := List.mem_map.mp hmem
    obtain ⟨i, hi⟩ := List.mem_iff_getElem?.mp hu
    have hcalls : (s.put thread cache ⟨[], none⟩ d).callsOn i cache = 0 := by
      rw [callsOn_put ht]
      split
      · rfl
      · next hne => exact hclear i hne
    rwa [callsOn_eq hi] at hcalls
  -- without the thread's own calls there is none left
  have hput : (s.put thread cache ⟨[], none⟩ d).callsOf cache + t.calls.count cache =
      s.callsOf cache + 0 := callsOf_put ht
  have hothers : (s.put thread cache ⟨[], none⟩ d).callsOf cache = 0 := by
    rw [callsOf, List.flatMap_def, List.count_eq_zero, List.mem_flatten]
    rintro ⟨calls, hmem, hcache⟩
    exact List.count_eq_zero.mp (hnone calls hmem) hcache
  rw [isClear, h cache d hd]
  exact decide_eq_true (by omega)

/-- A close that is made while all calls of the cache run on its own thread returns at once. -/
theorem step_close_of_clearBeside (h : s.IsTallied) (ht : s.threads[thread]? = some t)
    (hfree : t.waiting = none) (hd : s.caches[cache]? = some d)
    (hclear : s.ClearBeside thread cache) :
    ∃ first s', s.step thread (.close cache) = some (.returned first, s') := by
  have hat_once := isClear_of_clearBeside h ht hd hclear
  have hstep : s.step thread (.close cache) = some (s.close thread t cache d) := by
    simp [step, ht, hfree, hd]
  rw [hstep]
  by_cases hclosed : d.stage = .closed
  · exact ⟨false, s, by rw [Threads.close, hclosed]⟩
  · exact ⟨true, s.setCache cache d.shut, by rw [close_of_open hclosed, if_pos hat_once]⟩

/-! ### The one close that closes -/

/-- The turns in closes of a cache. -/
def closings (cache : Nat) (log : List Act) : List Act :=
  log.filter fun act ↦ decide (act.cache = cache) && act.effect.isOfClose

/-- How far the closing of a cache has come: nobody has tried, a thread waits in its close, or the
close that closed the cache has returned. -/
inductive Standing where
  | untried
  | pending (thread : Nat)
  | settled
  deriving DecidableEq

/-- The turns that closes of a cache may take, and what they come to. Only the first close does not
find the cache closed. -/
inductive Closes (cache : Nat) : List Act → Standing → Prop where
  | untried : Closes cache [] .untried
  | atOnce {log : List Act} (thread : Nat) (h : Closes cache log .untried) :
    Closes cache (log ++ [⟨thread, cache, .returned true⟩]) .settled
  | waits {log : List Act} (thread : Nat) (h : Closes cache log .untried) :
    Closes cache (log ++ [⟨thread, cache, .held⟩]) (.pending thread)
  | returns {log : List Act} {thread : Nat} (h : Closes cache log (.pending thread)) :
    Closes cache (log ++ [⟨thread, cache, .returned true⟩]) .settled
  | again {log : List Act} {standing : Standing} (thread : Nat) (h : Closes cache log standing)
      (htried : standing ≠ .untried) :
    Closes cache (log ++ [⟨thread, cache, .returned false⟩]) standing

namespace Closes

variable {closes : List Act} {standing : Standing}

private theorem eq_nil (h : Closes cache closes .untried) : closes = [] := by
  cases h with
  | untried => rfl
  | again _ _ htried => exact absurd rfl htried

/-- The number of closes that have closed the cache. -/
theorem countP_returned (h : Closes cache closes standing) :
    closes.countP (fun act ↦ decide (act.effect = .returned true)) =
      if standing = .settled then 1 else 0 := by
  induction h with
  | untried => rfl
  | atOnce | waits | returns => simp_all
  | again => simp_all

/-- The number of closes that had to wait. -/
theorem countP_held (h : Closes cache closes standing) :
    closes.countP (fun act ↦ decide (act.effect = .held)) ≤ 1 := by
  induction h with
  | untried => exact Nat.zero_le 1
  | atOnce _ h | waits _ h => simp [h.eq_nil]
  | returns _ ih | again _ _ _ ih => simpa using ih

/-- The first turn belongs to the close that closes the cache: it still waits, or has returned. -/
theorem head? (h : Closes cache closes standing) :
    (standing = .untried ∧ closes = []) ∨
      ∃ first, closes.head? = some first ∧ first.effect ≠ .returned false ∧
        (∀ thread, standing = .pending thread → first = ⟨thread, cache, .held⟩) ∧
        ∀ act ∈ closes, act.effect = .returned true →
          first = act ∨ first = ⟨act.thread, cache, .held⟩ := by
  induction h with
  | untried => exact .inl ⟨rfl, rfl⟩
  | atOnce thread h =>
    refine .inr ⟨⟨thread, cache, .returned true⟩, ?_⟩
    simp [h.eq_nil]
  | waits thread h =>
    refine .inr ⟨⟨thread, cache, .held⟩, ?_⟩
    simp [h.eq_nil]
  | @returns log thread h ih =>
    obtain ⟨hnone, -⟩ | ⟨first, hfirst, hclosing, hpending, hreturned⟩ := ih
    · cases hnone
    · refine .inr ⟨first, ?_, hclosing, nofun, ?_⟩
      · rw [List.head?_append, hfirst, Option.some_or]
      · intro act hact htrue
        rcases List.mem_append.mp hact with hold | hnew
        · exact hreturned act hold htrue
        · rw [List.mem_singleton.mp hnew]
          exact .inr (hpending thread rfl)
  | @again log standing thread h htried ih =>
    obtain ⟨hnone, -⟩ | ⟨first, hfirst, hclosing, hpending, hreturned⟩ := ih
    · exact absurd hnone htried
    · refine .inr ⟨first, ?_, hclosing, hpending, ?_⟩
      · rw [List.head?_append, hfirst, Option.some_or]
      · intro act hact htrue
        rcases List.mem_append.mp hact with hold | hnew
        · exact hreturned act hold htrue
        · rw [List.mem_singleton.mp hnew] at htrue
          cases htrue

end Closes

/-- The state shows how far the closing of a cache has come. -/
structure Standing.IsShown (standing : Standing) (s : Threads) (cache : Nat) : Prop where
  closed : s.IsClosed cache ↔ standing ≠ .untried
  waits : ∀ thread, s.Waits thread cache ↔ standing = .pending thread

/-- How far the closing of a cache has come is what the turns in its closes have come to. -/
def Closing (log : List Act) (s : Threads) (cache : Nat) : Prop :=
  ∃ standing : Standing, Closes cache (closings cache log) standing ∧ standing.IsShown s cache

private theorem closings_concat_self (heffect : effect.isOfClose = true) :
    closings cache (log ++ [⟨thread, cache, effect⟩]) =
      closings cache log ++ [⟨thread, cache, effect⟩] := by
  simp [closings, heffect]

private theorem closings_concat_of_ne (h : c ≠ cache ∨ effect.isOfClose = false) :
    closings cache (log ++ [⟨thread, c, effect⟩]) = closings cache log := by
  rcases h with hne | heffect
  · simp [closings, hne]
  · simp [closings, heffect]

namespace Closing

private theorem of_same (h : Closing log s c) (hc : cache ≠ c ∨ effect.isOfClose = false)
    (hclosed : s'.IsClosed c ↔ s.IsClosed c) (hwaits : ∀ i, s'.Waits i c ↔ s.Waits i c) :
    Closing (log ++ [⟨thread, cache, effect⟩]) s' c := by
  obtain ⟨standing, hcloses, hshown⟩ := h
  refine ⟨standing, ?_, hclosed.trans hshown.closed, fun i ↦ (hwaits i).trans (hshown.waits i)⟩
  rwa [closings_concat_of_ne hc]

section

variable (ht : s.threads[thread]? = some t) (hd : s.caches[cache]? = some d)

include ht hd

private theorem put_of_ne (h : Closing log s c) (htakes : Takes cache t d turn effect t' d')
    (hc : cache ≠ c) :
    Closing (log ++ [⟨thread, cache, effect⟩]) (s.put thread cache t' d') c := by
  refine h.of_same (.inl hc) ?_ fun i ↦ ?_
  · rw [isClosed_put hd, if_neg (Ne.symm hc)]
  · rw [waits_put ht]
    split
    · next hi =>
      subst hi
      rw [waits_iff ht]
      cases htakes with
      | closesLater hfree => simp [hfree, hc]
      | awakens hwaits => simp [hwaits, hc]
      | _ => rfl
    · rfl

private theorem put_of_frame (h : Closing log s cache) (heffect : effect.isOfClose = false)
    (hstage : d'.stage = .closed ↔ d.stage = .closed) (hwaiting : t'.waiting = t.waiting) :
    Closing (log ++ [⟨thread, cache, effect⟩]) (s.put thread cache t' d') cache := by
  refine h.of_same (.inr heffect) ?_ fun i ↦ ?_
  · rw [isClosed_put hd, if_pos rfl, isClosed_iff hd]
    exact hstage
  · rw [waits_put ht]
    split
    · next hi =>
      subst hi
      rw [waits_iff ht, hwaiting]
    · rfl

private theorem put_self (h : Closing log s cache) (htakes : Takes cache t d turn effect t' d') :
    Closing (log ++ [⟨thread, cache, effect⟩]) (s.put thread cache t' d') cache := by
  have ⟨standing, hcloses, hshown⟩ := h
  have huntried (hopen : d.stage ≠ .closed) : standing = .untried :=
    Decidable.not_not.mp (mt hshown.closed.mpr (mt (isClosed_iff hd).mp hopen))
  -- afterwards the cache is closed, and whoever else had waited still does
  have hafter (standing' : Standing) (hcloses' : Closes cache
      (closings cache log ++ [⟨thread, cache, effect⟩]) standing') (heffect : effect.isOfClose)
      (hclosed : d'.stage = .closed) (htried : standing' ≠ .untried)
      (hwaits : ∀ i, (if i = thread then t'.waiting = some cache else standing = .pending i) ↔
        standing' = .pending i) :
      Closing (log ++ [⟨thread, cache, effect⟩]) (s.put thread cache t' d') cache := by
    refine ⟨standing', (closings_concat_self heffect).symm ▸ hcloses', ⟨?_, fun i ↦ ?_⟩⟩
    · rw [isClosed_put hd, if_pos rfl]
      exact iff_of_true hclosed htried
    · rw [waits_put ht, ← hwaits i, hshown.waits i]
  cases htakes with
  | activates => exact put_of_frame ht hd h rfl d.stage_activate rfl
  | enters | turnsAway | leaves => exact put_of_frame ht hd h rfl Iff.rfl rfl
  | closesAgain hfree hclosed =>
    have htried := hshown.closed.mp ((isClosed_iff hd).mpr hclosed)
    refine hafter standing (.again thread hcloses htried) rfl hclosed htried fun i ↦ ?_
    split
    · next hi => rw [hi, ← hshown.waits thread, waits_iff ht]
    · rfl
  | closesAtOnce hfree hopen =>
    obtain rfl := huntried hopen
    refine hafter .settled (.atOnce thread hcloses) rfl rfl nofun fun i ↦ ?_
    split
    · simp [hfree]
    · simp
  | closesLater hfree hopen =>
    obtain rfl := huntried hopen
    refine hafter (.pending thread) (.waits thread hcloses) rfl rfl nofun fun i ↦ ?_
    split
    · next hi => simp [hi]
    · next hi => simp [Ne.symm hi]
  | awakens hwaiting =>
    obtain rfl := (hshown.waits thread).mp ((waits_iff ht).mpr hwaiting)
    have hclosed : d.stage = .closed := (isClosed_iff hd).mp (hshown.closed.mpr nofun)
    refine hafter .settled (.returns hcloses) rfl hclosed nofun fun i ↦ ?_
    split
    · simp
    · next hi => simp [Ne.symm hi]

end

/-- Every course from a state at rest shows it. -/
theorem course (hrest : start.IsAtRest) (h : start.Course log s) (c : Nat) : Closing log s c := by
  induction h with
  | start =>
    have hkeeps := Keeps.ofIsAtRest hrest
    have hopen : ¬ start.IsClosed c := by
      intro hclosed
      obtain ⟨d, hd, hstage⟩ := Option.map_eq_some_iff.mp hclosed
      exact (hrest.caches d (List.mem_of_getElem? hd)).1 hstage
    refine ⟨.untried, .untried, ⟨by simp [hopen], fun i ↦ iff_of_false ?_ nofun⟩⟩
    exact fun hwaits ↦ hopen (hkeeps.waits i c hwaits)
  | @turn log s s' i cache turn effect _ habout hstep ih =>
    obtain ⟨t, d, t', d', ht, hd, htakes, rfl⟩ := step_takes habout hstep
    by_cases hc : cache = c
    · subst hc
      exact put_self ht hd ih htakes
    · exact put_of_ne ht hd ih htakes hc

end Closing

/-- However many threads activate caches, call their listeners and close them, in whatever order,
from a state at rest on: each cache counts the calls that run on any thread, and on each thread run
those that have started there and not ended, so a call that ends is one that was counted. A cache is
made ready and closed, or closed at once, and after that no call of its listener starts. One close
of a cache returns as the one that closed it, which is the first, and no other close has to wait. A
close does not wait either if all calls of the cache run on its own thread. -/
theorem gate_in_step (hrest : start.IsAtRest) (hcourse : start.Course log s) (cache : Nat) :
    (∀ d, s.caches[cache]? = some d → d.running = s.callsOf cache) ∧
      (∀ thread, s.callsOn thread cache + log.count ⟨thread, cache, .left⟩ =
          log.count ⟨thread, cache, .entered⟩ ∧
        (s.isDispatching thread cache = true ↔ 0 < s.callsOn thread cache)) ∧
      (∀ thread effect s', s.step thread (.leave cache) = some (effect, s') →
        ∃ d, s.caches[cache]? = some d ∧ 0 < d.running) ∧
      (∀ later s', s.Course later s' →
        (∀ d, s.caches[cache]? = some d →
          ∃ d', s'.caches[cache]? = some d' ∧ d.stage.LeadsTo d'.stage) ∧
        (s.IsClosed cache → ∀ thread, ⟨thread, cache, .entered⟩ ∉ later)) ∧
      ((closings cache log).countP (fun act ↦ decide (act.effect = .returned true)) ≤ 1 ∧
        (closings cache log).countP (fun act ↦ decide (act.effect = .held)) ≤ 1 ∧
        ∀ first ∈ (closings cache log).head?, first.effect ≠ .returned false ∧
          (∀ thread, s.Waits thread cache → first = ⟨thread, cache, .held⟩) ∧
          ∀ act ∈ closings cache log, act.effect = .returned true →
            first = act ∨ first = ⟨act.thread, cache, .held⟩) ∧
      (∀ thread other, s.Waits thread cache → s.Waits other cache → thread = other) ∧
      ∀ thread t d, s.threads[thread]? = some t → t.waiting = none → s.caches[cache]? = some d →
        s.ClearBeside thread cache →
        ∃ first s', s.step thread (.close cache) = some (.returned first, s') := by
  have htallied := (Keeps.course hrest hcourse).tallied
  obtain ⟨standing, hcloses, hshown⟩ := Closing.course hrest hcourse cache
  refine ⟨htallied cache, ?_, ?_, ?_, ⟨?_, hcloses.countP_held, ?_⟩, ?_, ?_⟩
  · exact fun thread ↦ ⟨callsOn_course hrest hcourse thread cache, isDispatching_iff⟩
  · exact fun thread effect s' hstep ↦ running_pos_of_leave htallied hstep
  · exact fun later s' hlater ↦ ⟨fun d hd ↦ hlater.stage hd, fun hclosed ↦
      (hlater.of_closed hclosed).2⟩
  · rw [hcloses.countP_returned]
    split <;> omega
  · intro first hfirst
    rcases hcloses.head? with ⟨-, hnil⟩ | ⟨head, hhead, hclosing, hpending, hreturned⟩
    · rw [hnil] at hfirst
      cases hfirst
    · obtain rfl := Option.some.inj (hhead.symm.trans hfirst)
      exact ⟨hclosing, fun thread hwaits ↦ hpending thread ((hshown.waits thread).mp hwaits),
        hreturned⟩
  · intro thread other hthread hother
    rw [hshown.waits] at hthread hother
    exact Standing.pending.inj (hthread.symm.trans hother)
  · exact fun thread t d ht hfree hd hclear ↦ step_close_of_clearBeside htallied ht hfree hd hclear

/-- Calls of two caches are nested on a thread and end in the order in which they started, while
another thread waits for the end of the outer one. A close within the inner one returns at once. -/
theorem gate_in_step_of_nested :
    let log : List Act := [⟨0, 0, .entered⟩, ⟨0, 1, .entered⟩, ⟨1, 0, .held⟩, ⟨0, 0, .left⟩]
    ∃ s, (idle 2 2).Course log s ∧ s.Waits 1 0 ∧ (closings 0 log).head? = some ⟨1, 0, .held⟩ ∧
      s.isDispatching 0 1 = true ∧ s.callsOn 0 1 = 1 ∧
      ∃ first s', s.step 0 (.close 1) = some (.returned first, s') := by
  intro log
  let outer : Threads := ⟨[⟨.active, 1⟩, ⟨.active, 0⟩], [⟨[0], none⟩, ⟨[], none⟩]⟩
  let inner : Threads := ⟨[⟨.active, 1⟩, ⟨.active, 1⟩], [⟨[1, 0], none⟩, ⟨[], none⟩]⟩
  let waiting : Threads := ⟨[⟨.closed, 1⟩, ⟨.active, 1⟩], [⟨[1, 0], none⟩, ⟨[], some 0⟩]⟩
  let ended : Threads := ⟨[⟨.closed, 0⟩, ⟨.active, 1⟩], [⟨[1], none⟩, ⟨[], some 0⟩]⟩
  have houter : (idle 2 2).step 0 (.enter 0) = some (.entered, outer) := rfl
  have hinner : outer.step 0 (.enter 1) = some (.entered, inner) := rfl
  have hclose : inner.step 1 (.close 0) = some (.held, waiting) := rfl
  have hleave : waiting.step 0 (.leave 0) = some (.left, ended) := rfl
  have hcourse : (idle 2 2).Course log ended :=
    .turn (.turn (.turn (.turn .start (by rfl) houter) (by rfl) hinner) (by rfl) hclose) (by rfl)
      hleave
  obtain ⟨-, -, -, -, ⟨-, -, hfirst⟩, -⟩ := gate_in_step (isAtRest_idle 2 2) hcourse 0
  obtain ⟨-, hcalls, -, -, -, -, hat_once⟩ := gate_in_step (isAtRest_idle 2 2) hcourse 1
  have hwaits : ended.Waits 1 0 := rfl
  have hhead : (closings 0 log).head? = some ⟨1, 0, .held⟩ := rfl
  have hone : ended.callsOn 0 1 = 1 := (hcalls 0).1
  have hclear : ended.ClearBeside 0 1 := by
    intro other hother
    match other with
    | 0 => exact absurd rfl hother
    | 1 | _ + 2 => rfl
  refine ⟨ended, hcourse, hwaits, ?_, (hcalls 0).2.mpr (by rw [hone]; exact Nat.one_pos), hone,
    hat_once 0 ⟨[1], none⟩ ⟨.active, 1⟩ rfl rfl rfl hclear⟩
  rw [hhead, (hfirst _ hhead).2.1 1 hwaits]

end Threads

end Caching
