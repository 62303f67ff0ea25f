import Caching.Proofs.Closing.Happenings

/-!
# What happens is the whole of it

Everything that an operation, a call of the listener or an advance brings about is told by what has
happened in it. In the course of a plan, whatever a report leaves is what the rest of the plan
starts from; so if the report has closed the cache, the rest of it is silent.
-/

namespace Caching.Running

variable {σ K V : Type} [Engine σ K V] [DecidableEq V] [PlannedEngine σ K V]

/-- What happens at an operation of an open cache. -/
theorem operating_of_active (report : Report σ K V)
    (inside : Removal K V → Running σ K V → List (Happening K V)) {w : Running σ K V}
    (hactive : w.phase = .active) {operation : Operation K V} (hclose : operation ≠ .close) :
    operating report inside operation w = [.served operation] ++
      match Engine.reading w with
      | .ok now => (PlannedEngine.serve now operation w).events report inside
      | .error _ => [] := by
  cases operation with
  | close => exact absurd rfl hclose
  | _ => rw [operating.eq_def, hactive]; rfl

namespace Recounts

variable {own : Bool} {w w₁ w₂ w' : Running σ K V} {hs hs' : List (Happening K V)}

/-- Something else has happened that changed nothing: neither was the listener called, nor the
cache closed. -/
theorem single (h : PlannedEngine.IsTended own w) (x : Happening K V)
    (hremoval : x.removal? = none) (hclosed : x ≠ .closed) (hopen : w.phase = .active ∨ x.IsLate) :
    Recounts own w [x] w := by
  refine ⟨?_, ?_, ?_, List.pairwise_singleton _ x, rfl, fun _ ↦ rfl, h⟩
  · rw [List.filterMap_cons_none hremoval, List.filterMap_nil, List.append_nil]
  · rw [List.mem_singleton]
    exact ⟨.inl, fun h ↦ h.elim id fun h ↦ absurd h.symm hclosed⟩
  · intro hphase y hy
    rw [List.mem_singleton.mp hy]
    rcases hopen with hactive | hlate
    · rw [hactive] at hphase
      cases hphase
    · exact hlate

private theorem of_passes (h : PlannedEngine.IsTended own w)
    (hpasses : w.Passes (PlannedEngine.IsTended own) w') : Recounts own w [] w' := by
  obtain ⟨⟨store, agenda, log, rfl⟩, hstopped, htended⟩ := hpasses
  refine ⟨?_, ?_, ?_, .nil, rfl, hstopped, htended h⟩
  · rw [List.filterMap_nil, List.append_nil]
    rfl
  · simp only [List.not_mem_nil, or_false]
  · intro _ h hmem
    cases hmem

/-- Others have done something with the agenda and the host, and the records were kept. -/
theorem of_yields (h : PlannedEngine.IsTended own w) {agenda : Agenda (Duty K V)}
    (hyields : w.agenda.Yields agenda)
    (hstopped : w.supplied = true → agenda.stopped = w.agenda.stopped) {heard : List (Heard K V)}
    (htold : heard.map Heard.removal = w.told) (dispatching : Nat)
    (listener : Option (Listener K V)) (host : Clock) (log : List LogEntry) :
    Recounts own w [] { w with dispatching, listener, heard, agenda, host, log } := by
  refine ⟨?_, ?_, ?_, .nil, rfl, hstopped, PlannedEngine.aside h hyields _ _ _ _ _⟩
  · rw [List.filterMap_nil, List.append_nil]
    exact htold
  · simp only [List.not_mem_nil, or_false]
  · intro _ h hmem
    cases hmem

/-- Others have done something with the agenda. -/
theorem withAgenda (h : PlannedEngine.IsTended own w) {agenda : Agenda (Duty K V)}
    (hyields : w.agenda.Yields agenda) (hstopped : agenda.stopped = w.agenda.stopped) :
    Recounts own w [] (withAgenda w agenda) :=
  of_yields h hyields (fun _ ↦ hstopped) rfl w.dispatching w.listener w.host w.log

private theorem called (h : PlannedEngine.IsTended own w) (hactive : w.phase = .active)
    (removal : Removal K V) (listener : Option (Listener K V)) :
    Recounts own w [.called removal] { w.beginCall removal with listener } := by
  refine ⟨?_, ?_, ?_, List.pairwise_singleton _ _, rfl, fun _ ↦ rfl,
    PlannedEngine.aside h (.refl _) _ _ _ _ _⟩
  · simp [Running.told, beginCall, Happening.removal?]
  · simp only [List.mem_singleton, reduceCtorEq, or_false, beginCall]
  · intro hclosed
    rw [hactive] at hclosed
    cases hclosed

private theorem endCall (h : PlannedEngine.IsTended own w) (removal : Removal K V)
    (panic : Option Payload) : Recounts own w [] (w.endCall removal panic) := by
  obtain ⟨log, hlog⟩ := w.endCall_eq removal panic
  rw [hlog]
  exact of_yields h (.refl w.agenda) (fun _ ↦ rfl) rfl _ w.listener w.host log

private theorem finishCall (h : Recounts own w hs w₁) (place : Nat) (replies : List (Reply V))
    (removal : Removal K V) (panic : Option Payload) :
    Recounts own w hs ((w₁.keepReplies place replies).endCall removal panic) := by
  have hkept : Recounts own w₁ [] (w₁.keepReplies place replies) :=
    of_yields h.tended (.refl w₁.agenda) (fun _ ↦ rfl) (w₁.told_keepReplies place replies) _ _ _ _
  have hall := h.trans (hkept.trans (endCall hkept.tended removal panic))
  rwa [List.append_nil, List.append_nil] at hall

private theorem ended (h : PlannedEngine.IsTended own w) (hactive : w.phase = .active)
    (log : List LogEntry) :
    Recounts own w [.closed] { Engine.teardown { w with phase := .closed } with log } := by
  have htended := PlannedEngine.teardown_tended h
  have hstopped := PlannedEngine.teardown_stopped { w with phase := .closed }
  obtain ⟨store, agenda, log', hends⟩ := PlannedEngine.teardown_frames { w with phase := .closed }
  rw [hends] at htended hstopped ⊢
  refine ⟨?_, ?_, ?_, List.pairwise_singleton _ _, rfl, hstopped,
    PlannedEngine.aside htended (.refl _) _ _ _ _ _⟩
  · exact (List.append_nil _).symm
  · simp only [List.mem_singleton, or_true]
  · intro hclosed
    rw [hactive] at hclosed
    cases hclosed

/-- The last who used the cache has let go of it. -/
theorem release (h : PlannedEngine.IsTended own w) :
    Recounts own w (releasing w) w.release := by
  rw [releasing, Running.release]
  cases hphase : w.phase with
  | closed => exact .refl h
  | active => exact ended h hphase _

private theorem plan {report : Report σ K V}
    {inside : Removal K V → Running σ K V → List (Happening K V)}
    (hreport : ∀ removal w, PlannedEngine.IsTended own w →
      Recounts own w (inside removal w) (report removal w))
    {p : Plan σ K V} (h : PlannedEngine.IsTended own w)
    (hmoves : p.Moves (PlannedEngine.IsTended own) w) :
    Recounts own w (p.events report inside) (p.run report) := by
  induction p generalizing w with
  | done w' => exact .of_passes h hmoves
  | tell removal w' next ih =>
    have hpassed := of_passes h hmoves.1
    have htold := hpassed.trans (hreport removal w' hpassed.tended)
    exact htold.trans (ih (report removal w') htold.tended (hmoves.2 _))

/-- An operation was performed. -/
theorem performWith {report : Report σ K V}
    {inside : Removal K V → Running σ K V → List (Happening K V)}
    (hreport : ∀ removal w, PlannedEngine.IsTended own w →
      Recounts own w (inside removal w) (report removal w))
    (h : PlannedEngine.IsTended own w) (operation : Operation K V) :
    Recounts own w (operating report inside operation w)
      (Running.performWith report operation w).2 := by
  cases hphase : w.phase with
  | closed =>
    rw [performWith_of_closed report hphase, operating.eq_def, hphase]
    exact single h _ rfl (by simp) (.inr ⟨operation, rfl⟩)
  | active =>
    have hserved : Recounts own w [.served operation] w := single h _ rfl (by simp) (.inl hphase)
    by_cases hclose : operation = .close
    · rw [hclose] at hserved ⊢
      rw [operating.eq_def, hphase, Running.performWith, Running.close, hphase]
      exact hserved.trans (ended h hphase _)
    · rw [operating_of_active report inside hphase hclose]
      refine hserved.trans ?_
      cases hnow : Engine.reading w with
      | error abort =>
        rw [performWith_of_abort report hphase hnow hclose]
        exact .refl h
      | ok now =>
        rw [PlannedEngine.serve_eq report hclose hphase hnow]
        exact plan hreport h (PlannedEngine.serve_moves own now operation hphase)

/-- A script was run. -/
theorem run {A R α : Type} {act : A → Running σ K V → R × Running σ K V}
    {inside : A → Running σ K V → List (Happening K V)}
    (hact : ∀ action w, PlannedEngine.IsTended own w →
      Recounts own w (inside action w) (act action w).2)
    (script : Script A R α) (h : PlannedEngine.IsTended own w) :
    Recounts own w (script.chronicle act inside w) (script.run act w).2 := by
  induction script generalizing w with
  | done result => exact .refl h
  | call action next ih =>
    have hfirst := hact action w h
    exact hfirst.trans (ih (act action w).1 hfirst.tended)

private theorem calledOnly (h : PlannedEngine.IsTended own w) (hactive : w.phase = .active)
    (removal : Removal K V) (panic : Option Payload) :
    Recounts own w [.called removal] ((w.beginCall removal).endCall removal panic) := by
  have hcalled := called h hactive removal w.listener
  exact hcalled.trans (endCall hcalled.tended removal panic)

private theorem reportAt (bound : Nat) (removal : Removal K V) (h : PlannedEngine.IsTended own w) :
    Recounts own w (reporting bound removal w) (Running.reportAt bound removal w) := by
  induction bound generalizing removal w with
  | zero =>
    rw [reporting.eq_def, Running.reportAt.eq_def]
    dsimp only
    cases w.listener with
    | none => exact .refl h
    | some listener =>
      cases hphase : w.phase with
      | closed => exact .refl h
      | active => exact calledOnly h hphase removal (listener.lasting removal)
  | succ bound ih =>
    rw [reporting.eq_def, Running.reportAt.eq_def]
    dsimp only
    cases w.listener with
    | none => exact .refl h
    | some listener =>
      cases hphase : w.phase with
      | closed => exact .refl h
      | active =>
        dsimp only
        cases listener.reactions with
        | nil => exact calledOnly h hphase removal (listener.lasting removal)
        | cons reaction rest =>
          have hcalled := called h hphase removal (some ⟨rest, listener.lasting⟩)
          have hrun := run
            (fun operation w h ↦ performWith (fun removal w h ↦ ih removal h) h operation)
            (reaction removal) hcalled.tended
          exact hcalled.trans (hrun.finishCall w.heard.length _ removal _)

/-- A script of operations was run. -/
theorem follow {α : Type} (script : Script (Operation K V) (Reply V) α)
    (h : PlannedEngine.IsTended own w) :
    Recounts own w (following script w) (w.follow script).2 :=
  run (fun operation w h ↦ performWith (fun removal _ h ↦ reportAt w.depth removal h) h operation)
    script h

private theorem take (h : PlannedEngine.IsTended own w) {target : Option Instant} {live : Bool}
    {e : Entry (Duty K V)} {a : Agenda (Duty K V)}
    (htake : (agenda w).take? target = some (live, e, a)) :
    Recounts own w [] (Caching.withAgenda w a) := by
  obtain ⟨_, _, _, _, journal, ha⟩ := Agenda.take?_eq_some htake
  refine withAgenda h (Agenda.yields_take htake) ?_
  rw [ha]

/-- A duty was attended to whose turn had come. No duty of an entry has its turn once the cache is
closed, as all of them were cancelled then. -/
theorem attend (h : PlannedEngine.IsTended own w) {target : Option Instant} {e : Entry (Duty K V)}
    {a : Agenda (Duty K V)} (htake : (agenda w).take? target = some (true, e, a)) {run : Nat}
    {again : Bool}
    (hattend : Running.attend e.job.body run (Caching.withAgenda w a) = some (again, w')) :
    Recounts own (Caching.withAgenda w a) (attending e.job.body (Caching.withAgenda w a)) w' := by
  have htended := (take h htake).tended
  cases hbody : e.job.body with
  | lapse key stamp =>
    rw [hbody] at hattend
    cases hattend
    have hactive : w.phase = .active := by
      cases hphase : w.phase with
      | active => rfl
      | closed => exact absurd hbody (PlannedEngine.ne_lapse_of_take? h hphase htake key stamp)
    have hlapsed := single htended (.lapsed key stamp) rfl (by simp) (.inl hactive)
    refine hlapsed.trans ?_
    rw [PlannedEngine.lapse_eq]
    exact plan (fun removal _ h ↦ reportAt _ removal h) htended
      (PlannedEngine.lapse_moves h htake hbody)
  | upkeep =>
    rw [hbody] at hattend
    cases hphase : (Caching.withAgenda w a).phase with
    | closed =>
      simp only [Running.attend, hphase, Option.some.injEq, Prod.mk.injEq] at hattend
      obtain ⟨_, rfl⟩ := hattend
      rw [attending.eq_def, hphase]
      exact .refl htended
    | active =>
      simp only [Running.attend, hphase, Option.some.injEq, Prod.mk.injEq] at hattend
      obtain ⟨_, rfl⟩ := hattend
      rw [attending.eq_def, hphase, PlannedEngine.upkeep_eq]
      refine (single htended .upkept rfl (by simp) (.inl hphase)).trans ?_
      exact plan (fun removal _ h ↦ reportAt _ removal h) htended
        (PlannedEngine.upkeep_moves own _)
  | errand script =>
    rw [hbody] at hattend
    cases hattend
    exact follow script htended

private theorem job (h : PlannedEngine.IsTended own w) {target : Option Instant}
    {e : Entry (Duty K V)}
    {a : Agenda (Duty K V)} (htake : (agenda w).take? target = some (true, e, a))
    {r : Except Abort Unit}
    (hperform : e.job.perform Running.attend (Caching.withAgenda w a) = some (r, w')) :
    Recounts own (Caching.withAgenda w a)
      (e.job.chronicle teller Running.attend (Caching.withAgenda w a)) w' := by
  have htold : Recounts own (Caching.withAgenda w a)
      ([] ++ e.job.chronicle teller Running.attend (Caching.withAgenda w a)) w' := by
    refine Job.perform_told teller (fun history s ↦ Recounts own (Caching.withAgenda w a) history s)
      (fun _ history s ↦ Recounts own (Caching.withAgenda w a) history s) ?_ ?_ (fun _ _ h ↦ h)
      (.refl (take h htake).tended) hperform
    · intro run again s hattend
      exact attend h htake hattend
    · intro history chain period run s _ hattend hs
      have hduty (key : K) (stamp : Nat) : e.job.body ≠ .lapse key stamp := by
        intro hbody
        rw [hbody] at hattend
        cases hattend
      cases harm : (agenda s).arm chain period (run + 1) e.job.body with
      | error abort => simpa [teller] using hs
      | ok a' =>
        exact hs.trans (withAgenda hs.tended (Agenda.yields_arm hduty harm)
          (Agenda.stopped_arm harm))
  exact htold

/-- Time has passed on the agenda. -/
theorem advance (h : PlannedEngine.IsTended own w) {fuel : Nat} {d : Duration}
    {r : Except Abort Nat} (hadvance : w.advance fuel d = some (r, w')) :
    Recounts own w (advancing fuel d w) w' := by
  have htold : Recounts own w ([] ++ advancing fuel d w) w' := by
    refine advance_told teller (fun _ history s ↦ Recounts own w history s) ?_ ?_ ?_ hadvance
    · intro abort _
      exact .refl h
    · intro now w₁ r _ hdrain
      have hdrained := drain_told teller
        (fun _ history s ↦ Recounts own w history s) ?_ ?_ (n := 0) (.refl h) hdrain
      · exact hdrained
      · intro n history s e a hs htake
        exact hs.trans (take hs.tended htake)
      · intro n history s e a r s' hs htake hperform
        exact (hs.trans (take hs.tended htake)).trans (job hs.tended htake hperform)
    · intro r history s instant hs
      have hreadied : s.agenda.Yields (s.agenda.readied instant) := ⟨.refl _, fun _ h ↦ h, id⟩
      have hmoved := hs.trans (withAgenda hs.tended hreadied rfl)
      rwa [List.append_nil] at hmoved
  exact htold

end Recounts

end Caching.Running
