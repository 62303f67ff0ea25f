import Caching.Proofs.Listener.Unnoticed

/-!
# Onlookers

An onlooker is a listener that never calls back, whatever it is told; it may panic on any of its
calls. An engine is impartial if it treats caches alike whose listeners are onlookers, or that have
none. Every engine whose operations are deeds is, and so is the deferred engine: what maintenance
does after a report hangs on the entries alone.
-/

namespace Caching

variable {σ K V : Type}

/-- The listener never calls back: each of its calls ends at once, maybe in a panic. -/
def Listener.LooksOn (listener : Listener K V) : Prop :=
  ∀ reaction ∈ listener.reactions, ∀ removal, ∃ verdict, reaction removal = .done verdict

/-- The listener that panics on chosen calls, by their number and by what it is told, as far as it
counts its calls; then it goes on as at the last one. -/
def Listener.panicking (panics : Nat → Removal K V → Option Payload) (calls : Nat) :
    Listener K V :=
  ⟨(List.range calls).map fun n removal ↦ .done ⟨[], panics n removal⟩, panics calls⟩

/-- A listener that only panics is an onlooker. -/
theorem Listener.looksOn_panicking (panics : Nat → Removal K V → Option Payload) (calls : Nat) :
    (panicking panics calls).LooksOn := by
  intro reaction hreaction removal
  obtain ⟨n, _, rfl⟩ := List.mem_map.mp hreaction
  exact ⟨_, rfl⟩

namespace Running

section

variable (w : Running σ K V)

/-- The listener, if there is one, is an onlooker. -/
def IsLookedOn : Prop :=
  ∀ listener ∈ w.listener, listener.LooksOn

private theorem called_eq (removal : Removal K V) (listener : Option (Listener K V))
    (replies : List (Reply V)) (panic : Option Payload) : ∃ heard log,
    (keepReplies { w.beginCall removal with listener } w.heard.length replies).endCall removal
        panic = { w with listener, heard, log } ∧
      heard.map Heard.removal = w.told ++ [removal] := by
  obtain ⟨log, hend⟩ := endCall_eq
    (keepReplies { w.beginCall removal with listener } w.heard.length replies) removal panic
  refine ⟨_, log, hend, ?_⟩
  have hkept := told_keepReplies { w.beginCall removal with listener } w.heard.length replies
  exact hkept.trans List.map_append

variable {w} [Engine σ K V] [DecidableEq V]

/-- What an onlooker is told changes the record of calls and the listener itself and, at most, the
log. -/
theorem reportAt_of_lookedOn (h : w.IsLookedOn) (bound : Nat) (removal : Removal K V) :
    ∃ listener heard log, reportAt bound removal w = { w with listener, heard, log } ∧
      (∀ l ∈ listener, Listener.LooksOn l) ∧ listener.isSome = w.listener.isSome ∧
      heard.map Heard.removal = if w.isHeeded then w.told ++ [removal] else w.told := by
  by_cases hreacts : ∃ listener reaction rest, w.listener = some listener ∧ w.phase = .active ∧
      listener.reactions = reaction :: rest ∧ 0 < bound
  · obtain ⟨listener, reaction, rest, hl, hp, hr, hbound⟩ := hreacts
    obtain ⟨bound, rfl⟩ := Nat.exists_eq_add_of_lt hbound
    have hlooks : listener.LooksOn := h listener hl
    obtain ⟨verdict, hverdict⟩ := hlooks reaction (hr ▸ List.mem_cons_self) removal
    obtain ⟨heard, log, hcalled, htold⟩ := w.called_eq removal
      (some { listener with reactions := rest }) verdict.replies verdict.panic
    refine ⟨some { listener with reactions := rest }, heard, log, ?_, ?_, ?_, ?_⟩
    · rw [← hcalled, reportAt]
      simp only [hl, hp, hr, hverdict, Script.run]
    · intro l hmem
      cases hmem
      exact fun other hother ↦ hlooks other (hr ▸ List.mem_cons_of_mem reaction hother)
    · rw [hl]
      rfl
    · rw [htold, isHeeded, hl, hp]
      rfl
  · -- no reaction is left, so the call is answered as that of a quiet listener
    have hsame : reportAt bound removal w = w.noted removal := by
      unfold reportAt noted
      cases hl : w.listener with
      | none => rfl
      | some listener =>
        cases hp : w.phase with
        | closed => rfl
        | active =>
          cases bound with
          | zero => rfl
          | succ bound =>
            cases hr : listener.reactions with
            | nil => simp only [hr]
            | cons reaction rest =>
              exact absurd ⟨listener, reaction, rest, hl, hp, hr, Nat.succ_pos bound⟩ hreacts
    obtain ⟨log, hlog⟩ := w.noted_eq removal
    have htold := w.told_noted removal
    rw [hlog] at htold hsame
    exact ⟨w.listener, _, log, hsame, h, rfl, htold⟩

end

/-- The caches differ at most in onlookers, in the record of their calls and in the log. If both are
heard, the same was told. -/
structure Twins (heard : Prop) (w w' : Running σ K V) : Prop where
  alike : w.Alike w'
  dispatching : w'.dispatching = w.dispatching
  left : w.IsLookedOn
  right : w'.IsLookedOn
  heeded : heard → w.listener.isSome = true ∧ w'.listener.isSome = true
  told : heard → w'.told = w.told

namespace Twins

variable {heard : Prop} {w w' : Running σ K V}

/-- What the engine does keeps them so. -/
theorem onward {v v' : Running σ K V} (h : w.Twins heard w') (hunheard : w.Unheard v)
    (hunheard' : w'.Unheard v') (halike : v.Alike v') : v.Twins heard v' where
  alike := halike
  dispatching := by rw [hunheard.dispatching, hunheard'.dispatching, h.dispatching]
  left := by
    rw [IsLookedOn, hunheard.listener]
    exact h.left
  right := by
    rw [IsLookedOn, hunheard'.listener]
    exact h.right
  heeded := by
    rw [hunheard.listener, hunheard'.listener]
    exact h.heeded
  told hheard := by
    rw [Running.told, Running.told, hunheard.heard, hunheard'.heard]
    exact h.told hheard

variable [Engine σ K V] [DecidableEq V]

private theorem report (h : w.Twins heard w') (bound bound' : Nat) (removal : Removal K V) :
    (reportAt bound removal w).Twins heard (reportAt bound' removal w') := by
  obtain ⟨listener, calls, log, hreport, hlooks, hsome, htold⟩ :=
    reportAt_of_lookedOn h.left bound removal
  obtain ⟨listener', calls', log', hreport', hlooks', hsome', htold'⟩ :=
    reportAt_of_lookedOn h.right bound' removal
  rw [hreport, hreport']
  refine ⟨?_, h.dispatching, hlooks, hlooks', ?_, ?_⟩
  · exact (Alike.aside _ _ _ _ _).symm.trans (h.alike.trans (.aside _ _ _ _ _))
  · rw [hsome, hsome']
    exact h.heeded
  · intro hheard
    obtain ⟨hleft, hright⟩ := h.heeded hheard
    have hheeded : w'.isHeeded = w.isHeeded := by
      rw [isHeeded, isHeeded, hleft, hright, h.alike.phase]
    refine htold'.trans (Eq.trans ?_ htold.symm)
    rw [hheeded, h.told hheard]

/-- So they stand by, whatever is reported to them. -/
theorem bystanding (heard : Prop) (bound bound' : Nat) :
    Bystanding (Twins (σ := σ) (K := K) (V := V) heard) (reportAt bound) (reportAt bound') where
  alike h := h.alike
  onward h hunheard hunheard' halike := h.onward hunheard hunheard' halike
  report h removal := h.report bound bound' removal

end Twins

end Running

open Running

/-- An engine that treats caches alike whose listeners make nothing of what they are told, as far as
the cache is concerned. -/
class ImpartialEngine (σ K V : Type) [Engine σ K V] [DecidableEq V] : Prop
    extends DiscreetEngine σ K V where
  performWith : ∀ {related : Running σ K V → Running σ K V → Prop} {report report' : Report σ K V},
    Bystanding related report report' →
    (∀ {w w'}, related w w' → w'.dispatching = w.dispatching) → ∀ {w w'}, related w w' →
    ∀ operation, Agree related (performWith report operation w) (performWith report' operation w')
  lapse : ∀ {related : Running σ K V → Running σ K V → Prop} {report report' : Report σ K V},
    Bystanding related report report' → ∀ {w w'}, related w w' → ∀ key stamp,
    related (Engine.lapse report key stamp w) (Engine.lapse report' key stamp w')
  upkeep : ∀ {related : Running σ K V → Running σ K V → Prop} {report report' : Report σ K V},
    Bystanding related report report' → ∀ {w w'}, related w w' →
    related (Engine.upkeep report w) (Engine.upkeep report' w')

/-- An engine whose operations are deeds is impartial. -/
instance [Engine σ K V] [LawfulEngine σ K V] [UnawareEngine σ K V] [DecidableEq V] :
    ImpartialEngine σ K V where
  performWith hrel _ _ _ h operation := hrel.performWith h operation
  lapse hrel _ _ h key stamp := hrel.lapse h key stamp
  upkeep hrel _ _ h := by
    rw [LawfulEngine.upkeep_eq, LawfulEngine.upkeep_eq]
    exact h

namespace Deferred

/-- The end of a cache is a matter of the store and the agenda. -/
instance [DecidableEq K] : DiscreetEngine (Deferred K V) K V where
  unheard w := by
    simp only [Engine.teardown]
    cases w.store.chain <;> exact ⟨rfl, rfl, rfl⟩
  alike {w w'} h := by
    simp only [Engine.teardown, h.store]
    obtain ⟨_, _, _, _, rfl⟩ := h
    cases w.store.chain <;> exact .aside _ _ _ _ _

variable [DecidableEq K] {related : Running (Deferred K V) K V → Running (Deferred K V) K V → Prop}
  {report report' : Report (Deferred K V) K V} (hrel : Bystanding related report report')
  {w w' : Running (Deferred K V) K V} (h : related w w') (now : Instant) (key : K)
include hrel h

omit [DecidableEq K] in
private theorem related_withStore (s : Deferred K V) :
    related { w with store := s } { w' with store := s } :=
  hrel.onward h ⟨rfl, rfl, rfl⟩ ⟨rfl, rfl, rfl⟩ ((hrel.alike h).mapStore fun _ ↦ s)

private theorem related_store (value : V) :
    related (store report now key value w) (store report' now key value w') := by
  rw [store, store, (hrel.alike h).store]
  cases w.store.find? key with
  | none => exact related_withStore hrel h _
  | some old => exact hrel.report (related_withStore hrel h _) _

private theorem agree_drop (otherwise : RemovalCause) :
    Agree related (drop report now key otherwise w) (drop report' now key otherwise w') := by
  rw [drop, drop, (hrel.alike h).store]
  cases w.store.find? key with
  | none => exact ⟨rfl, h⟩
  | some e => exact ⟨rfl, hrel.report (related_withStore hrel h _) _⟩

private theorem related_expire : related (expire report now key w) (expire report' now key w') := by
  rw [expire, expire, (hrel.alike h).store]
  cases w.store.find? key with
  | none => exact h
  | some e =>
    by_cases hlapsed : w.store.isLapsed now e = true
    · simp only [if_pos hlapsed]
      exact (agree_drop hrel h now key .expired).2
    · simp only [if_neg hlapsed]
      exact h

private theorem related_evict : related (evict report now w) (evict report' now w') := by
  rw [evict, evict, (hrel.alike h).store]
  split
  · exact (agree_drop hrel h now _ .size).2
  · exact h

omit [DecidableEq K] in
private theorem related_bury : related (bury report now w) (bury report' now w') := by
  rw [bury, bury, (hrel.alike h).store]
  have htold := hrel.tell (related_withStore hrel h { w.store with doomed := [] })
    (w.store.doomed.map fun e ↦ ⟨e.1, e.2.value, w.store.cause now e.2 .explicit⟩)
  rw [Running.tell, Running.tell, List.foldl_map, List.foldl_map] at htold
  exact htold

private theorem related_maintain : related (maintain report now w) (maintain report' now w') := by
  rw [maintain, maintain]
  dsimp only
  have hburied := related_bury hrel h now
  generalize bury report now w = v, bury report' now w' = v' at hburied
  have hexpired := List.foldl_rel (l := v.store.entries.map Prod.fst) hburied
    fun key _ _ _ h ↦ related_expire hrel h now key
  rw [(hrel.alike hburied).store]
  generalize List.foldl _ v _ = u, List.foldl _ v' _ = u' at hexpired
  have hroom := List.foldl_rel (l := List.range u.store.entries.length) hexpired
    fun _ _ _ _ h ↦ related_evict hrel h now
  rw [(hrel.alike hexpired).store, (hrel.alike hroom).store]
  exact related_withStore hrel hroom _

private theorem related_maintainOutside (hdispatching : w'.dispatching = w.dispatching) :
    related (maintainOutside report now w) (maintainOutside report' now w') := by
  rw [maintainOutside, maintainOutside, hdispatching]
  by_cases houtside : w.dispatching = 0
  · rw [if_pos houtside, if_pos houtside]
    exact related_maintain hrel h now
  · rw [if_neg houtside, if_neg houtside]
    exact h

private theorem agree_alter (decide : Option V → Except Abort (Change V)) :
    Agree related (Engine.alter report now key decide w)
      (Engine.alter report' now key decide w') := by
  simp only [Engine.alter, (hrel.alike h).store]
  have htouched := related_withStore hrel h (w.store.touch now key)
  rcases decide ((w.store.live? now key).map Stamped.value) with abort | (_ | value | _)
  · exact ⟨rfl, htouched⟩
  · exact ⟨rfl, htouched⟩
  · exact ⟨rfl, related_store hrel htouched now key value⟩
  · cases w.store.live? now key with
    | none => exact ⟨rfl, htouched⟩
    | some e => exact ⟨rfl, (agree_drop hrel htouched now key .explicit).2⟩

private theorem agree_altered (shown : Option V → List (Option V))
    (decide : Option V → Except Abort (Change V)) :
    Agree related (altered shown (Engine.alter report now key decide w))
      (altered shown (Engine.alter report' now key decide w')) := by
  obtain ⟨hresult, hstate⟩ := agree_alter hrel h now key decide
  rw [altered, altered, ← hresult]
  split
  · exact ⟨rfl, hstate⟩
  · exact ⟨rfl, hstate⟩

private theorem agree_putIfAbsent (value : V) :
    Agree related (Engine.putIfAbsent report now key value w)
      (Engine.putIfAbsent report' now key value w') := by
  simp only [Engine.putIfAbsent, (hrel.alike h).store]
  cases w.store.live? now key with
  | none => exact ⟨rfl, related_store hrel h now key value⟩
  | some e => exact ⟨rfl, related_withStore hrel h _⟩

private theorem agree_replace (value : V) :
    Agree related (Engine.replace report now key value w)
      (Engine.replace report' now key value w') := by
  simp only [Engine.replace, (hrel.alike h).store]
  cases w.store.live? now key with
  | none => exact ⟨rfl, h⟩
  | some e => exact ⟨rfl, related_store hrel h now key value⟩

private theorem agree_size (hdispatching : w'.dispatching = w.dispatching) :
    Agree related (Engine.size (K := K) (V := V) report now w) (Engine.size report' now w') := by
  have hmaintained := related_maintainOutside hrel h now hdispatching
  simp only [Engine.size, (hrel.alike hmaintained).store]
  exact ⟨rfl, hmaintained⟩

private theorem related_clear (hdispatching : w'.dispatching = w.dispatching) :
    related (Engine.clear report now w) (Engine.clear report' now w') := by
  simp only [Engine.clear, (hrel.alike h).store]
  exact related_maintainOutside hrel (related_withStore hrel h _) now hdispatching

private theorem agree_performWith [DecidableEq V] (hdispatching : w'.dispatching = w.dispatching)
    (operation : Operation K V) :
    Agree related (performWith report operation w) (performWith report' operation w') := by
  have hreading : Engine.reading (K := K) (V := V) w' = Engine.reading w := by
    obtain ⟨_, _, _, _, rfl⟩ := hrel.alike h
    rfl
  have hvalued {r r' : Option V × Running (Deferred K V) K V} (hr : Agree related r r') :
      Agree related (valued r) (valued r') :=
    ⟨congrArg (fun v ↦ Reply.ok (.value v)) hr.1, hr.2⟩
  rw [performWith.eq_def, performWith.eq_def]
  cases operation with
  | get key =>
    refine hrel.guarded h hreading fun now ↦ hvalued ?_
    simp only [Engine.get, (hrel.alike h).store]
    exact ⟨rfl, related_withStore hrel h _⟩
  | put key value =>
    refine hrel.guarded h hreading fun now ↦ hvalued ?_
    simp only [Engine.put, (hrel.alike h).store]
    exact ⟨rfl, related_store hrel h now key value⟩
  | putIfAbsent key value =>
    exact hrel.guarded h hreading fun now ↦ hvalued (agree_putIfAbsent hrel h now key value)
  | replace key value =>
    exact hrel.guarded h hreading fun now ↦ hvalued (agree_replace hrel h now key value)
  | replaceIf key expected value =>
    refine hrel.guarded h hreading fun now ↦ ?_
    have hagree := agree_alter hrel h now key fun v ↦ .ok (replaceExpected expected value v)
    generalize Engine.alter report now key _ w = r, Engine.alter report' now key _ w' = r'
      at hagree ⊢
    obtain ⟨outcome, v⟩ := r
    obtain ⟨outcome', v'⟩ := r'
    obtain ⟨rfl, hstate⟩ : outcome = outcome' ∧ related v v' := hagree
    cases outcome with
    | ok change => exact ⟨rfl, hstate⟩
    | error abort => exact ⟨rfl, hstate⟩
  | compute key remap =>
    exact hrel.guarded h hreading fun now ↦ agree_altered hrel h now key _ _
  | computeIfPresent key remap =>
    exact hrel.guarded h hreading fun now ↦ agree_altered hrel h now key _ _
  | merge key value combine =>
    exact hrel.guarded h hreading fun now ↦ agree_altered hrel h now key _ _
  | remove key =>
    exact hrel.guarded h hreading fun now ↦ hvalued (agree_drop hrel h now key .explicit)
  | containsKey key =>
    refine hrel.guarded h hreading fun now ↦ ?_
    simp only [Engine.containsKey, (hrel.alike h).store]
    exact ⟨rfl, h⟩
  | size =>
    refine hrel.guarded h hreading fun now ↦ ?_
    obtain ⟨hcount, hstate⟩ := agree_size hrel h now hdispatching
    exact ⟨congrArg (fun n ↦ Reply.ok (.count n)) hcount, hstate⟩
  | clear =>
    exact hrel.guarded h hreading fun now ↦ ⟨rfl, related_clear hrel h now hdispatching⟩
  | close => exact ⟨rfl, hrel.close h⟩
  | state =>
    dsimp only
    rw [(hrel.alike h).phase]
    exact ⟨rfl, h⟩
  | provider =>
    dsimp only
    rw [(hrel.alike h).provider]
    exact ⟨rfl, h⟩

omit h hrel in
instance [DecidableEq V] : ImpartialEngine (Deferred K V) K V where
  performWith hrel hdispatching _ _ h operation :=
    agree_performWith hrel h (hdispatching h) operation
  lapse _ _ _ h _ _ := h
  upkeep hrel w w' h := by
    have hhost : w'.host = w.host := by
      obtain ⟨_, _, _, _, rfl⟩ := hrel.alike h
      rfl
    simp only [Engine.upkeep, hhost]
    cases w.host.now with
    | error abort => exact h
    | ok now => exact related_maintain hrel h now

end Deferred

end Caching
