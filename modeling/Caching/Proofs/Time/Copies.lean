import Caching.Proofs.Time.Requests

/-!
# One clock in several places

All copies of a dial are one clock: they show the same at any time, and what is asked through any of
them is answered, and has the effect, as if a single clock had been asked all of it. Nothing that is
done to other clocks matters. So a group of lengths of time that were all added can be added in any
order, and a group of instants can be gone to in any order and repeatedly, through whichever copies.
-/

namespace Caching

namespace Clockwork

variable {w : Clockwork} {i j k : Nat} {c : Clock}

/-- The numbers are those of copies of one dial. -/
def Copies (w : Clockwork) (i j : Nat) : Prop :=
  w.dials[i]?.isSome ∧ w.dials[i]? = w.dials[j]?

instance (w : Clockwork) (i j : Nat) : Decidable (w.Copies i j) :=
  inferInstanceAs (Decidable (_ ∧ _))

/-- A copy of a copy is a copy. -/
theorem Copies.trans (h : w.Copies i j) (h' : w.Copies j k) : w.Copies i k :=
  ⟨h.1, h.2.trans h'.2⟩

/-- Of two copies, each is one of the other. -/
theorem Copies.symm (h : w.Copies i j) : w.Copies j i :=
  ⟨h.2 ▸ h.1, h.2.symm⟩

/-- Copies are dials. -/
theorem Copies.lt (h : w.Copies i j) : j < w.dials.length := by
  obtain ⟨dial, hdial⟩ := Option.isSome_iff_exists.mp h.1
  exact (List.getElem?_eq_some_iff.mp (h.2.symm.trans hdial)).1

private theorem Copies.clock? (h : w.Copies i j) : w.clock? j = w.clock? i := by
  rw [Clockwork.clock?, Clockwork.clock?, h.2]

private theorem clock?_eq_some_iff :
    w.clock? i = some c ↔ ∃ dial, w.dials[i]? = some dial ∧ c.start = dial.start ∧
      w.counters[dial.counter]? = some c.elapsed := by
  rw [clock?, Option.bind_eq_some_iff]
  refine exists_congr fun dial ↦ and_congr_right fun _ ↦ ?_
  rw [Option.map_eq_some_iff]
  constructor
  · rintro ⟨elapsed, helapsed, rfl⟩
    exact ⟨rfl, helapsed⟩
  · rintro ⟨hstart, helapsed⟩
    exact ⟨c.elapsed, helapsed, by rw [← hstart]⟩

/-- Whoever holds a clock has a dial. -/
theorem copies_self (h : w.clock? i = some c) : w.Copies i i := by
  obtain ⟨dial, hdial, -, -⟩ := clock?_eq_some_iff.mp h
  exact ⟨Option.isSome_iff_exists.mpr ⟨dial, hdial⟩, rfl⟩

/-! ### Counters -/

private theorem dials_setElapsed (w : Clockwork) (k : Nat) (elapsed : Duration) :
    (w.setElapsed k elapsed).dials = w.dials := by
  rw [setElapsed]
  split <;> rfl

private theorem setElapsed_self (h : w.clock? i = some c) : w.setElapsed i c.elapsed = w := by
  obtain ⟨dial, hdial, -, helapsed⟩ := clock?_eq_some_iff.mp h
  obtain ⟨hlt, hget⟩ := List.getElem?_eq_some_iff.mp helapsed
  rw [setElapsed, hdial]
  apply Clockwork.ext
  · dsimp only
    rw [← hget, List.set_getElem_self]
  · rfl

private theorem clock?_setElapsed (hcopies : w.Copies k i) (h : w.clock? i = some c)
    (elapsed : Duration) : (w.setElapsed k elapsed).clock? i = some ⟨c.start, elapsed⟩ := by
  obtain ⟨dial, hdial, hstart, helapsed⟩ := clock?_eq_some_iff.mp h
  obtain ⟨hlt, -⟩ := List.getElem?_eq_some_iff.mp helapsed
  refine clock?_eq_some_iff.mpr ⟨dial, ?_, hstart, ?_⟩
  · rw [dials_setElapsed, hdial]
  · rw [setElapsed, hcopies.2.trans hdial]
    exact List.getElem?_set_self hlt

private theorem clock?_setElapsed_of_not (hcopies : ¬ w.Copies k i) (elapsed : Duration) :
    (w.setElapsed k elapsed).clock? i = w.clock? i := by
  rw [clock?, clock?, dials_setElapsed]
  refine Option.bind_congr fun dial hdial ↦ ?_
  rw [setElapsed]
  cases hk : w.dials[k]? with
  | none => rfl
  | some other =>
    have hne : other.counter ≠ dial.counter := by
      intro heq
      have hsame := w.eq_of_counter other (List.mem_of_getElem? hk) dial
        (List.mem_of_getElem? hdial) heq
      apply hcopies
      rw [Copies, hk, hdial, hsame]
      exact ⟨rfl, rfl⟩
    dsimp only
    rw [List.getElem?_set_ne hne]

/-! ### Requests -/

private theorem ask_eq (h : w.clock? i = some c) (request : Clock.Request) :
    w.ask i request =
      ((c.serve request).1, w.setElapsed i (c.serve request).2.elapsed) := by
  rw [ask, h]

private theorem ask_of_stays (h : w.clock? i = some c) {request : Clock.Request}
    {answer : Clock.Answer}
    (hserve : c.serve request = (answer, c)) : w.ask i request = (answer, w) := by
  rw [ask_eq h, hserve, setElapsed_self h]

private theorem clock?_ask (hcopies : w.Copies k i) (h : w.clock? i = some c)
    (request : Clock.Request) :
    (w.ask k request).2.clock? i = some (c.serve request).2 := by
  rw [ask_eq (hcopies.clock?.symm.trans h), clock?_setElapsed hcopies h,
    ← (c.onward_serve request).1]

private theorem clock?_ask_of_not (hcopies : ¬ w.Copies k i) (request : Clock.Request) :
    (w.ask k request).2.clock? i = w.clock? i := by
  rw [ask]
  cases w.clock? k with
  | none => rfl
  | some c => exact clock?_setElapsed_of_not hcopies _

/-! ### Events -/

private theorem exists_dials_step (w : Clockwork) (event : Event) :
    ∃ more, (w.step event).2.dials = w.dials ++ more := by
  cases event with
  | make start => exact ⟨_, rfl⟩
  | copy i => exact ⟨_, rfl⟩
  | ask i request =>
    refine ⟨[], ?_⟩
    rw [List.append_nil, step, ask]
    cases w.clock? i with
    | none => rfl
    | some c => exact dials_setElapsed w i _

private theorem exists_dials_after (w : Clockwork) (history : List Event) :
    ∃ more, (w.after history).dials = w.dials ++ more := by
  induction history generalizing w with
  | nil => exact ⟨[], (List.append_nil _).symm⟩
  | cons event rest ih =>
    obtain ⟨more, hmore⟩ := w.exists_dials_step event
    obtain ⟨others, hothers⟩ := ih (w.step event).2
    refine ⟨more ++ others, ?_⟩
    rw [← List.append_assoc, ← hmore]
    exact hothers

/-- Whether two dials are copies is settled when they are made. -/
theorem copies_after_iff (hi : i < w.dials.length) (hj : j < w.dials.length)
    (history : List Event) : (w.after history).Copies i j ↔ w.Copies i j := by
  obtain ⟨more, hmore⟩ := w.exists_dials_after history
  rw [Copies, Copies, hmore, List.getElem?_append_left hi, List.getElem?_append_left hj]

private theorem Copies.copy (h : w.Copies i j) : (w.copy j).Copies i w.dials.length := by
  obtain ⟨dial, hdial⟩ := Option.isSome_iff_exists.mp h.1
  have hi : i < w.dials.length := h.symm.lt
  have hadded : (w.copy j).dials = w.dials ++ [dial] := by
    change w.dials ++ w.dials[j]?.toList = _
    rw [← h.2, hdial]
    rfl
  rw [Copies, hadded, List.getElem?_append_left hi, hdial, List.getElem?_concat_length]
  exact ⟨rfl, rfl⟩

private theorem not_copies_make (hi : i < w.dials.length) (start : Instant) :
    ¬ (w.make start).Copies i w.dials.length := by
  intro h
  have heq := h.2
  rw [make, List.getElem?_append_left hi, List.getElem?_concat_length] at heq
  have hlt := w.counter_lt _ (List.mem_of_getElem? heq)
  exact Nat.lt_irrefl _ hlt

private theorem clock?_make (h : w.clock? i = some c) (start : Instant) :
    (w.make start).clock? i = some c := by
  obtain ⟨dial, hdial, hstart, helapsed⟩ := clock?_eq_some_iff.mp h
  refine clock?_eq_some_iff.mpr ⟨dial, ?_, hstart, ?_⟩
  · exact List.getElem?_append_left (List.getElem?_eq_some_iff.mp hdial).1 ▸ hdial
  · exact List.getElem?_append_left (List.getElem?_eq_some_iff.mp helapsed).1 ▸ helapsed

private theorem clock?_copy (h : w.clock? i = some c) (j : Nat) : (w.copy j).clock? i = some c := by
  obtain ⟨dial, hdial, hstart, helapsed⟩ := clock?_eq_some_iff.mp h
  refine clock?_eq_some_iff.mpr ⟨dial, ?_, hstart, helapsed⟩
  exact List.getElem?_append_left (List.getElem?_eq_some_iff.mp hdial).1 ▸ hdial

/-! ### Histories -/

/-- What an event asks of a clock, whoever holds it, and the answer. -/
def exchange (w : Clockwork) (i : Nat) : Event → List (Clock.Request × Clock.Answer)
  | .make _ | .copy _ => []
  | .ask j request => if w.Copies j i then [(request, (w.ask j request).1)] else []

/-- What a history asks of a clock, whoever holds it, and the answers. -/
def transcript (w : Clockwork) (i : Nat) : List Event → List (Clock.Request × Clock.Answer)
  | [] => []
  | event :: rest => w.exchange i event ++ (w.step event).2.transcript i rest

private theorem exists_clock_step (h : w.clock? i = some c) (event : Event) :
    ∃ later, (w.step event).2.clock? i = some later ∧
      c.serveAll ((w.exchange i event).map Prod.fst) =
        ((w.exchange i event).map Prod.snd, later) := by
  cases event with
  | make start => exact ⟨c, clock?_make h start, rfl⟩
  | copy j => exact ⟨c, clock?_copy h j, rfl⟩
  | ask j request =>
    rw [exchange]
    split
    · next hcopies =>
      refine ⟨(c.serve request).2, clock?_ask hcopies h request, ?_⟩
      rw [ask_eq (hcopies.clock?.symm.trans h)]
      rfl
    · next hcopies => exact ⟨c, (clock?_ask_of_not hcopies request).trans h, rfl⟩

/-- A history does to a clock what it asks of it, and nothing else. -/
theorem exists_clock_after (h : w.clock? i = some c) (history : List Event) :
    ∃ later, (w.after history).clock? i = some later ∧
      c.serveAll ((w.transcript i history).map Prod.fst) =
        ((w.transcript i history).map Prod.snd, later) := by
  induction history generalizing w c with
  | nil => exact ⟨c, h, rfl⟩
  | cons event rest ih =>
    obtain ⟨middle, hmiddle, hfirst⟩ := exists_clock_step h event
    obtain ⟨later, hlater, hrest⟩ := ih hmiddle
    refine ⟨later, hlater, ?_⟩
    rw [transcript, List.map_append, Clock.serveAll_append, hfirst, hrest, List.map_append]

/-! ### Copies of one dial -/

/-- Through all copies of a dial, one clock is seen and moved. -/
structure ActsAs (w : Clockwork) (i : Nat) (c : Clock) : Prop where
  shows : ∀ j, w.Copies i j → w.clock? j = some c
  /-- Whoever copies a dial holds the same clock. -/
  copies : ∀ j, w.Copies i j → (w.step (.copy j)).2.Copies i w.dials.length
  /-- Whoever makes a clock holds another one. -/
  makes : ∀ start, ¬ (w.step (.make start)).2.Copies i w.dials.length
  elapsed : ∀ j, w.Copies i j → w.step (.ask j .elapsed) = (.elapsed c.elapsed, w)
  /-- A length of time is added exactly. -/
  advance : ∀ j d, w.Copies i j →
    c.elapsed.seconds + d.seconds + c.elapsed.carry d < UInt64.size →
    ∃ sum later, Duration.IsSum c.elapsed d sum ∧
      w.step (.ask j (.advance d)) = (.done, later) ∧
      ∀ k, w.Copies i k → later.clock? k = some ⟨c.start, sum⟩
  /-- A sum that is too long changes nothing. -/
  advance_beyond : ∀ j d, w.Copies i j →
    UInt64.size ≤ c.elapsed.seconds + d.seconds + c.elapsed.carry d →
    w.step (.ask j (.advance d)) = (.aborted .durationRange, w)
  /-- The clock is moved on to an instant unless it shows a later one. -/
  advanceTo : ∀ j instant, w.Copies i j →
    ∃ (elapsed : Duration) (later : Clockwork),
      elapsed.nanos = max (c.elapsed.nanos : Int) (instant.nanos - c.start.nanos) ∧
      w.step (.ask j (.advanceTo instant)) = (.done, later) ∧
      ∀ k, w.Copies i k → later.clock? k = some ⟨c.start, elapsed⟩
  /-- An instant that lies not behind the start changes nothing. -/
  advanceTo_before : ∀ j instant, w.Copies i j → instant ≤ c.start →
    w.step (.ask j (.advanceTo instant)) = (.done, w)
  now : ∀ j instant, w.Copies i j → instant.nanos = c.start.nanos + c.elapsed.nanos →
    w.step (.ask j .now) = (.now instant, w)
  /-- A clock that shows no instant cannot be read. -/
  now_beyond : ∀ j, w.Copies i j →
    (∀ instant : Instant, instant.nanos ≠ c.start.nanos + c.elapsed.nanos) →
    w.step (.ask j .now) = (.aborted .instantRange, w)

/-- Any clock that somebody holds is what all its holders hold. -/
theorem actsAs (h : w.clock? i = some c) : w.ActsAs i c where
  shows j hj := hj.clock?.trans h
  copies j hj := hj.copy
  makes start := not_copies_make (copies_self h).lt start
  elapsed j hj := ask_of_stays (hj.clock?.trans h) rfl
  advance j d hj hlt := by
    obtain ⟨sum, hsum, hserve⟩ := Clock.serve_advance_of_lt hlt
    refine ⟨sum, w.setElapsed j sum, hsum, ?_, ?_⟩
    · rw [step, ask_eq (hj.clock?.trans h), hserve]
    · intro k hk
      exact clock?_setElapsed (hj.symm.trans hk) (hk.clock?.trans h) sum
  advance_beyond j d hj hle := ask_of_stays (hj.clock?.trans h)
    (Clock.serve_advance_of_none (Duration.add?_eq_none_iff_seconds.mpr hle))
  advanceTo j instant hj := by
    refine ⟨(c.advanceTo instant).elapsed, w.setElapsed j (c.advanceTo instant).elapsed, ?_, ?_, ?_⟩
    · have hshown := c.shown_advanceTo instant
      simp only [Clock.shown, Clock.start_advanceTo] at hshown
      omega
    · rw [step, ask_eq (hj.clock?.trans h)]
      rfl
    · intro k hk
      exact clock?_setElapsed (hj.symm.trans hk) (hk.clock?.trans h) _
  advanceTo_before j instant hj hle := by
    apply ask_of_stays (hj.clock?.trans h)
    rw [Instant.le_iff] at hle
    have hshown : instant.nanos ≤ c.shown := by
      rw [Clock.shown]
      omega
    rw [Clock.serve, Clock.advanceTo_of_le_shown hshown]
  now j instant hj hinstant := ask_of_stays (hj.clock?.trans h) (Clock.serve_now hinstant)
  now_beyond j hj hne := ask_of_stays (hj.clock?.trans h) (Clock.serve_now_of_ne hne)

/-- Lengths of time that were all added can be added in another order, and between the same
requests. -/
theorem clock?_of_advances_perm (h : w.clock? i = some c) {history history' : List Event}
    {before after : List (Clock.Request × Clock.Answer)} {ds ds' : List Duration}
    (hperm : ds.Perm ds')
    (hall : w.transcript i history = before ++ ds.map (fun d ↦ (.advance d, .done)) ++ after)
    (hall' : (w.transcript i history').map Prod.fst =
      before.map Prod.fst ++ ds'.map .advance ++ after.map Prod.fst) :
    (w.after history').clock? i = (w.after history).clock? i := by
  obtain ⟨later, hlater, hserved⟩ := exists_clock_after h history
  obtain ⟨later', hlater', hserved'⟩ := exists_clock_after h history'
  simp only [hall, List.map_append, List.map_map, Function.comp_def] at hserved
  rw [hall'] at hserved'
  have hdone := Clock.answers_between hserved (by simp) (by simp)
  have hgroup := congrArg Prod.snd (Clock.serveAll_advances_perm hperm hdone)
  have hsame := Clock.serveAll_between hgroup.symm (after.map Prod.fst)
  rw [hserved, hserved'] at hsame
  rw [hlater, hlater']
  exact congrArg some hsame.symm

/-- Instants that a clock is moved on to can come in another order and number, between the same
requests. -/
theorem clock?_of_advanceTo_congr (h : w.clock? i = some c) {history history' : List Event}
    {before after : List Clock.Request} {ts ts' : List Instant} (hsame : ∀ t, t ∈ ts ↔ t ∈ ts')
    (hall : (w.transcript i history).map Prod.fst = before ++ ts.map .advanceTo ++ after)
    (hall' : (w.transcript i history').map Prod.fst = before ++ ts'.map .advanceTo ++ after) :
    (w.after history').clock? i = (w.after history).clock? i := by
  obtain ⟨later, hlater, hserved⟩ := exists_clock_after h history
  obtain ⟨later', hlater', hserved'⟩ := exists_clock_after h history'
  rw [hall] at hserved
  rw [hall'] at hserved'
  have hends := Clock.serveAll_between
    (Clock.serveAll_advanceTo_congr (c := (c.serveAll before).2) hsame) after
  rw [hserved, hserved'] at hends
  rw [hlater, hlater']
  exact congrArg some hends.symm

/-- All copies of a dial are one clock. After any history, whichever copies were asked, they show
what a single clock shows that was asked the same, and have answered as it would, and the clock has
its start and has not been moved back; each request to come is answered as `ActsAs` says. So lengths
of time that were all added have the same effect in any order, and instants that the clock was moved
on to have the same effect in any order and number. -/
theorem copies_are_one_clock (w : Clockwork) (i : Nat) (c : Clock) (h : w.clock? i = some c) :
    (∀ history, ∃ later : Clock,
      c.serveAll ((w.transcript i history).map Prod.fst) =
        ((w.transcript i history).map Prod.snd, later) ∧
      later.start = c.start ∧ c.elapsed.nanos ≤ later.elapsed.nanos ∧
      (w.after history).ActsAs i later ∧
      ∀ j < w.dials.length, (w.after history).Copies i j ↔ w.Copies i j) ∧
    (∀ (history history' : List Event) (before after : List (Clock.Request × Clock.Answer))
        (ds ds' : List Duration), ds.Perm ds' →
      w.transcript i history = before ++ ds.map (fun d ↦ (.advance d, .done)) ++ after →
      (w.transcript i history').map Prod.fst =
        before.map Prod.fst ++ ds'.map .advance ++ after.map Prod.fst →
      (w.after history').clock? i = (w.after history).clock? i) ∧
    ∀ (history history' : List Event) (before after : List Clock.Request)
        (ts ts' : List Instant), (∀ t, t ∈ ts ↔ t ∈ ts') →
      (w.transcript i history).map Prod.fst = before ++ ts.map .advanceTo ++ after →
      (w.transcript i history').map Prod.fst = before ++ ts'.map .advanceTo ++ after →
      (w.after history').clock? i = (w.after history).clock? i := by
  refine ⟨?_, ?_, ?_⟩
  · intro history
    obtain ⟨later, hlater, hserved⟩ := exists_clock_after h history
    obtain ⟨hstart, hle⟩ := c.onward_serveAll ((w.transcript i history).map Prod.fst)
    rw [hserved] at hstart hle
    exact ⟨later, hserved, hstart, hle, actsAs hlater,
      fun j hj ↦ copies_after_iff (copies_self h).lt hj history⟩
  · intro history history' before after ds ds' hperm
    exact clock?_of_advances_perm h hperm
  · intro history history' before after ts ts' hsame
    exact clock?_of_advanceTo_congr h hsame

/-- A second is put together from two parts, in either order and beside another clock; an instant
before the start is of no account, nor is it when it comes again. -/
theorem copies_are_one_clock_of_two :
    let origin : Instant := ⟨0, by decide, by decide⟩
    let early : Instant := ⟨-3, by decide, by decide⟩
    let late : Instant := ⟨7, by decide, by decide⟩
    let tick : Duration := ⟨1, by decide⟩
    let rest : Duration := ⟨999999999, by decide⟩
    let w := (empty.make origin).copy 0
    let added : List Event := [.ask 0 (.advance rest), .ask 1 (.advance tick)]
    let exchanged : List Event := [.copy 1, .make origin, .ask 2 (.advance tick),
      .ask 3 (.advance rest), .ask 0 (.advance rest)]
    let moved : List Event := [.ask 0 (.advanceTo late), .ask 1 (.advanceTo early)]
    let repeated : List Event := [.ask 1 (.advanceTo early), .ask 1 (.advanceTo late),
      .ask 0 (.advanceTo early)]
    w.clock? 0 = some (Clock.ofStart origin) ∧
      (w.after exchanged).ActsAs 0 ⟨origin, ⟨nanosPerSecond, by decide⟩⟩ ∧
      (w.after exchanged).clock? 0 = (w.after added).clock? 0 ∧
      (w.after repeated).clock? 0 = (w.after moved).clock? 0 := by
  intro origin early late tick rest w added exchanged moved repeated
  have hclock : w.clock? 0 = some (Clock.ofStart origin) := by decide
  have ⟨hacts, hadvances, hinstants⟩ := copies_are_one_clock w 0 _ hclock
  refine ⟨hclock, ?_, ?_, ?_⟩
  · obtain ⟨later, -, -, -, hlater, -⟩ := hacts exchanged
    have hsecond : (w.after exchanged).clock? 0 = some ⟨origin, ⟨nanosPerSecond, by decide⟩⟩ := by
      decide
    have hshown := hlater.shows 0 (by decide)
    rw [← Option.some.inj (hshown.symm.trans hsecond)]
    exact hlater
  · exact hadvances added exchanged [] [] [rest, tick] [tick, rest] (List.Perm.swap tick rest [])
      (by decide) (by decide)
  · refine hinstants moved repeated [] [] [late, early] [early, late, early] ?_ (by decide)
      (by decide)
    intro t
    simp only [List.mem_cons, List.not_mem_nil, or_false]
    grind

end Clockwork

end Caching
