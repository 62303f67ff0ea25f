import Caching.Proofs.Engine.Course
import Caching.Proofs.Ledger.Candid
import Caching.Proofs.Ledger.Custody

/-!
# Accounts

Every entry that was stored is held, was told of, is about to be told of, or was dropped because the
cache was closed. A call of the listener settles the one removal that it is about, whatever the
listener does in it; the entries that it stores meanwhile are accounted for by its own replies.
-/

namespace Caching

open Custodian (held space)

namespace Running

variable {σ K V : Type} [Engine σ K V] [LawfulEngine σ K V] [Custodian σ K V]

/-- No key is held twice. -/
def HoldsDistinct (w : Running σ K V) : Prop :=
  Holding.Distinct (held w.store : List (Holding K V))

/-- A change that the engine makes at an instant, and that is a transfer of what it holds. -/
def Exchanges (now : Instant) (asked : Bool) (w : Running σ K V) (stored : List (K × V))
    (removals : List (Removal K V)) (w₁ : Running σ K V) : Prop :=
  Dealt now w stored removals w₁ ∧
    Transfer (space K V w.store) now asked (held w.store) stored removals (held w₁.store)

/-- The accounts of a cache with a candid listener. `stored` are the entries that were stored, but
for those that calls have stored which have ended; `pending` are the removals to be told. -/
structure Accounts (behaviours : List (Behaviour K V)) (lasting : Removal K V → Option Payload)
    (stored : List (K × V)) (pending : List (Removal K V)) (w : Running σ K V) : Prop where
  listener : w.listener = some (.candid (behaviours.drop w.heard.length) lasting)
  distinct : w.HoldsDistinct
  balance : ∃ dropped : List (K × V), (stored ++ storedInCalls behaviours w.heard).Perm
      ((held w.store).map Holding.pair ++ w.told.map Removal.pair ++
        pending.map Removal.pair ++ dropped) ∧
    (dropped ≠ [] → w.phase = .closed)

variable {behaviours : List (Behaviour K V)} {lasting : Removal K V → Option Payload}
  {stored : List (K × V)} {pending : List (Removal K V)} {w : Running σ K V}

private theorem modify_append {A : Type} (xs : List A) (a : A) (ys : List A) (f : A → A) :
    (xs ++ a :: ys).modify xs.length f = xs ++ f a :: ys := by
  induction xs with
  | nil => rfl
  | cons x xs ih => rw [List.cons_append, List.length_cons, List.modify_succ_cons, ih]; rfl

namespace Accounts

private theorem congr (h : Accounts behaviours lasting stored pending w) (dispatching : Nat)
    (log : List LogEntry) :
    Accounts behaviours lasting stored pending { w with dispatching, log } :=
  ⟨h.listener, h.distinct, h.balance⟩

private theorem drop {removal : Removal K V}
    (h : Accounts behaviours lasting stored (removal :: pending) w) (hclosed : w.phase = .closed) :
    Accounts behaviours lasting stored pending w := by
  obtain ⟨dropped, hperm, _⟩ := h.balance
  refine ⟨h.listener, h.distinct, removal.pair :: dropped, hperm.trans ?_, fun _ ↦ hclosed⟩
  simp only [List.map_cons, List.append_assoc, List.cons_append]
  exact (List.perm_middle.symm.append_left _).append_left _

variable [DecidableEq K] [DecidableEq V]

private theorem exchange {now : Instant} {asked : Bool} {new : List (K × V)}
    {removals : List (Removal K V)} {w₁ : Running σ K V}
    (h : Accounts behaviours lasting stored pending w)
    (hexchanges : Exchanges now asked w new removals w₁) (hframes : w.Frames w₁) :
    Accounts behaviours lasting (stored ++ new) (removals ++ pending) w₁ := by
  obtain ⟨dropped, hperm, hdropped⟩ := h.balance
  obtain ⟨_, htransfer⟩ := hexchanges
  have hbalance := htransfer.balance
  obtain ⟨store, agenda, log, rfl⟩ := hframes
  refine ⟨h.listener, htransfer.distinct h.distinct, dropped, ?_, hdropped⟩
  rw [List.perm_iff_count] at hperm hbalance ⊢
  intro e
  have hbefore := hperm e
  have hchange := hbalance e
  simp only [List.count_append, List.map_append] at hbefore hchange ⊢
  simp only [told] at hbefore ⊢
  omega

private theorem beginCall {removal : Removal K V}
    (h : Accounts behaviours lasting stored (removal :: pending) w) :
    Accounts behaviours lasting stored pending { w.beginCall removal with
      listener := some (.candid (behaviours.drop (w.heard.length + 1)) lasting) } := by
  obtain ⟨dropped, hperm, hdropped⟩ := h.balance
  refine ⟨by simp [Running.beginCall], h.distinct, dropped, ?_, hdropped⟩
  rw [List.perm_iff_count] at hperm ⊢
  intro e
  have hbefore := hperm e
  simp only [told, Running.beginCall, storedInCalls_append_open, List.count_append, List.map_append,
    List.map_cons, List.map_nil, List.count_cons, List.count_nil] at hbefore ⊢
  omega

private theorem keepReplies {removal : Removal K V} {behaviour : Behaviour K V}
    {rest : List (Behaviour K V)} {heard later : List (Heard K V)} {replies : List (Reply V)}
    (h : Accounts behaviours lasting
      (stored ++ acceptedIn ((behaviour removal).dialogue replies)) pending w)
    (hbehaviour : behaviours.drop heard.length = behaviour :: rest)
    (hheard : w.heard = heard ++ ⟨removal, none⟩ :: later) :
    Accounts behaviours lasting stored pending (w.keepReplies heard.length replies) := by
  obtain ⟨dropped, hperm, hdropped⟩ := h.balance
  have hkept : (w.keepReplies heard.length replies).heard =
      heard ++ ⟨removal, some replies⟩ :: later := by
    rw [Running.keepReplies, hheard, modify_append]
  have hstored := storedInCalls_keep hbehaviour removal replies later
  refine ⟨?_, h.distinct, dropped, ?_, hdropped⟩
  · rw [hkept]
    simpa [hheard, Running.keepReplies] using h.listener
  · rw [← hheard] at hstored
    rw [List.perm_iff_count] at hperm hstored ⊢
    intro e
    have hbefore := hperm e
    have hcall := hstored e
    simp only [told, hkept] at hbefore ⊢
    simp only [hheard, List.count_append, List.map_append, List.map_cons] at hbefore hcall ⊢
    simp only [Running.keepReplies]
    omega

end Accounts

/-- A way to report that settles the removal that it tells of, and leaves the calls of before in the
record, while the listener has no more behaviours left than the bound. -/
def Settles (behaviours : List (Behaviour K V)) (lasting : Removal K V → Option Payload)
    (bound : Nat) (report : Report σ K V) : Prop :=
  ∀ stored removal pending w, Accounts behaviours lasting stored (removal :: pending) w →
    behaviours.length ≤ w.heard.length + bound →
    Accounts behaviours lasting stored pending (report removal w) ∧
      w.heard <+: (report removal w).heard

section

variable {bound : Nat} {report : Report σ K V}

private theorem Settles.tell (hreport : Settles behaviours lasting bound report)
    (removals : List (Removal K V))
    (h : Accounts behaviours lasting stored (removals ++ pending) w)
    (hbound : behaviours.length ≤ w.heard.length + bound) :
    Accounts behaviours lasting stored pending (tell report removals w) ∧
      w.heard <+: (tell report removals w).heard := by
  induction removals generalizing w with
  | nil => exact ⟨h, List.prefix_refl _⟩
  | cons removal rest ih =>
    obtain ⟨hfirst, hprefix⟩ := hreport stored removal (rest ++ pending) w h hbound
    have hlength := hprefix.length_le
    obtain ⟨hrest, hlater⟩ := ih hfirst (by omega)
    exact ⟨hrest, hprefix.trans hlater⟩

variable [DecidableEq V]

/-- A course of transfers keeps the accounts. -/
theorem Settles.course [DecidableEq K] (hreport : Settles behaviours lasting bound report)
    {now : Instant} {asked : Bool} {new : List (K × V)} {w' : Running σ K V}
    (hcourse : Course (Exchanges now asked) report w new w')
    (h : Accounts behaviours lasting stored pending w)
    (hbound : behaviours.length ≤ w.heard.length + bound) :
    Accounts behaviours lasting (stored ++ new) pending w' ∧ w.heard <+: w'.heard := by
  induction hcourse generalizing stored with
  | done w =>
    rw [List.append_nil]
    exact ⟨h, List.prefix_refl _⟩
  | step first hframes _ ih =>
    have hexchanged := h.exchange first hframes
    obtain ⟨store, agenda, log, rfl⟩ := hframes
    obtain ⟨htold, hprefix⟩ := hreport.tell _ hexchanged hbound
    obtain ⟨hrest, hlater⟩ :=
      ih htold (Nat.le_trans hbound (Nat.add_le_add_right hprefix.length_le bound))
    rw [← List.append_assoc]
    exact ⟨hrest, hprefix.trans hlater⟩

private theorem holdsDistinct_performWith
    (hreport : ∀ removal (w : Running σ K V), w.HoldsDistinct → (report removal w).HoldsDistinct)
    (operation : Operation K V) (w : Running σ K V) (h : w.HoldsDistinct) :
    (performWith report operation w).2.HoldsDistinct := by
  have hcarry (now : Instant) (key : K) (deed : Deed V) (w : Running σ K V) (h : w.HoldsDistinct) :
      (settle report (LawfulEngine.carry now key deed w)).HoldsDistinct :=
    tell_kept hreport _ <|
      (Custodian.transfer_carry now true key deed w (fun _ ↦ rfl) h).distinct h
  have hsweep (w : Running σ K V) (h : w.HoldsDistinct) :
      (settle report (LawfulEngine.sweep w)).HoldsDistinct :=
    tell_kept hreport _ <| (Custodian.transfer_sweep Clock.fresh.start w).distinct h
  have hclose (h : w.HoldsDistinct) : w.close.HoldsDistinct := by
    cases hp : w.phase with
    | closed => simpa only [close, hp] using h
    | active =>
      simp only [close, hp, HoldsDistinct, Custodian.held_teardown]
      exact List.nodup_nil
  exact performWith_kept (fun now _ ↦ hcarry now) hsweep hclose h operation

/-- No key comes to be held twice in a call of the listener. -/
theorem holdsDistinct_reportAt (bound : Nat) (removal : Removal K V) (w : Running σ K V)
    (h : w.HoldsDistinct) : (reportAt bound removal w).HoldsDistinct :=
  reportAt_kept (fun _ hreport ↦ holdsDistinct_performWith hreport) (fun _ _ _ _ _ h ↦ h)
    bound removal h

/-- An operation of an open cache takes a course of transfers. -/
theorem performWith_exchanges
    (hreport : ∀ removal (w : Running σ K V), w.HoldsDistinct → (report removal w).HoldsDistinct)
    {operation : Operation K V} (hclose : operation ≠ .close) (hd : w.HoldsDistinct)
    (hactive : w.phase = .active) {now : Instant} (hnow : Engine.reading w = .ok now) :
    Course (Exchanges now (operation.dismissed (performWith report operation w).1)) report w
      (operation.accepted (performWith report operation w).1).toList
      (performWith report operation w).2 := by
  have hallowed : DoesOnly now
      (fun deed ↦ deed = .remove → operation.dismissed (performWith report operation w).1 = true)
      operation w := by
    refine ⟨?_, ?_, ?_⟩
    · intro key hkey hremove
      rw [performWith_of_key report hkey hactive hnow]
      exact Operation.dismissed_answer hremove
    · rintro rfl hremove
      cases hremove
    · rintro rfl _
      rw [performWith, guarded_of_reading hactive hnow]
      rfl
  refine performWith_course ?_ ?_ ?_ ?_ hclose hd hallowed hactive hnow
  · intro key deed v hdeed hv
    exact ⟨.carry key deed v, Custodian.transfer_carry now _ key deed v hdeed hv⟩
  · intro v hremove hv
    rw [hremove rfl]
    exact ⟨.sweep v, Custodian.transfer_sweep now v⟩
  · intro key deed v hv
    exact tell_kept hreport _ <|
      (Custodian.transfer_carry now true key deed v (fun _ ↦ rfl) hv).distinct hv
  · intro v hv
    exact tell_kept hreport _ <| (Custodian.transfer_sweep now v).distinct hv

variable [DecidableEq K]

private theorem Accounts.teardown (h : Accounts behaviours lasting stored pending w) :
    Accounts behaviours lasting stored pending (Engine.teardown { w with phase := .closed }) ∧
      w.heard <+: (Engine.teardown { w with phase := .closed }).heard := by
  obtain ⟨dropped, hperm, _⟩ := h.balance
  have hempty := Custodian.held_teardown { w with phase := .closed }
  obtain ⟨store, agenda, log, hframe⟩ := LawfulEngine.teardown_frames { w with phase := .closed }
  rw [hframe] at hempty ⊢
  refine ⟨⟨h.listener, ?_, (held w.store).map Holding.pair ++ dropped, ?_, fun _ ↦ rfl⟩,
    List.prefix_refl _⟩
  · rw [HoldsDistinct, hempty]
    exact List.nodup_nil
  · rw [List.perm_iff_count] at hperm ⊢
    intro e
    have hbefore := hperm e
    simp only [told, hempty, List.count_append, List.map_nil, List.count_nil] at hbefore ⊢
    omega

private theorem Accounts.close (h : Accounts behaviours lasting stored pending w) :
    Accounts behaviours lasting stored pending w.close ∧ w.heard <+: w.close.heard := by
  cases hp : w.phase with
  | closed =>
    rw [Running.close, hp]
    exact ⟨h, List.prefix_refl _⟩
  | active =>
    obtain ⟨hdown, hprefix⟩ := h.teardown
    rw [Running.close, hp]
    exact ⟨hdown.congr _ _, hprefix⟩

/-- Letting go of a cache drops what is held. -/
theorem Accounts.release (h : Accounts behaviours lasting stored pending w) :
    Accounts behaviours lasting stored pending w.release := by
  cases hp : w.phase with
  | closed =>
    rw [Running.release, hp]
    exact h
  | active =>
    rw [Running.release, hp]
    exact h.teardown.1

/-- An operation keeps the accounts: its reply tells what it has stored. -/
theorem Accounts.performWith (hreport : Settles behaviours lasting bound report)
    (hdistinct : ∀ removal (w : Running σ K V), w.HoldsDistinct → (report removal w).HoldsDistinct)
    (h : Accounts behaviours lasting stored pending w)
    (hbound : behaviours.length ≤ w.heard.length + bound) (operation : Operation K V) :
    Accounts behaviours lasting
        (stored ++ (operation.accepted (Running.performWith report operation w).1).toList) pending
        (Running.performWith report operation w).2 ∧
      w.heard <+: (Running.performWith report operation w).2.heard := by
  have hnothing {reply : Reply V} (hreply : operation.accepted reply = none) :
      Accounts behaviours lasting (stored ++ (operation.accepted reply).toList) pending w ∧
        w.heard <+: w.heard := by
    rw [hreply, Option.toList_none, List.append_nil]
    exact ⟨h, List.prefix_refl _⟩
  by_cases hclose : operation = .close
  · subst hclose
    have haccepted : (stored ++ ((Operation.close : Operation K V).accepted (.ok .done)).toList) =
        stored := List.append_nil stored
    rw [Running.performWith, haccepted]
    exact h.close
  · cases hp : w.phase with
    | closed =>
      rw [performWith_of_closed report hp]
      exact hnothing (by cases operation <;> rfl)
    | active =>
      cases hnow : Engine.reading w with
      | ok now =>
        exact hreport.course (performWith_exchanges hdistinct hclose h.distinct hp hnow) h hbound
      | error abort =>
        cases operation with
        | state | provider => exact hnothing rfl
        | close => exact absurd rfl hclose
        | _ =>
          rw [Running.performWith, guarded_of_abort hp hnow]
          exact hnothing rfl

/-- The script of a candid listener gives account of all that it has stored. -/
theorem Accounts.run (hreport : Settles behaviours lasting bound report)
    (hdistinct : ∀ removal (w : Running σ K V), w.HoldsDistinct → (report removal w).HoldsDistinct)
    (script : Script (Operation K V) (Reply V) (Option Payload)) (before : List (Reply V))
    (h : Accounts behaviours lasting stored pending w)
    (hbound : behaviours.length ≤ w.heard.length + bound) :
    ∃ replies, ((keepingAll before script).run (Running.performWith report) w).1.replies =
        before ++ replies ∧
      Accounts behaviours lasting (stored ++ acceptedIn (script.dialogue replies)) pending
        ((keepingAll before script).run (Running.performWith report) w).2 ∧
      w.heard <+: ((keepingAll before script).run (Running.performWith report) w).2.heard := by
  induction script generalizing before stored w with
  | done panic =>
    refine ⟨[], (List.append_nil before).symm, ?_, List.prefix_refl _⟩
    rw [Script.dialogue_nil, acceptedIn, List.filterMap_nil, List.append_nil]
    exact h
  | call operation next ih =>
    obtain ⟨hafter, hprefix⟩ := h.performWith hreport hdistinct hbound operation
    have hlength := hprefix.length_le
    obtain ⟨replies, hreplies, hrest, hlater⟩ :=
      ih (Running.performWith report operation w).1
        (before ++ [(Running.performWith report operation w).1]) hafter (by omega)
    refine ⟨(Running.performWith report operation w).1 :: replies, ?_, ?_, hprefix.trans hlater⟩
    · rw [keepingAll, Script.run, hreplies, List.append_assoc, List.singleton_append]
    · rw [Script.dialogue, acceptedIn_cons, ← List.append_assoc]
      exact hrest

end

variable [DecidableEq K] [DecidableEq V]

omit [Engine σ K V] [LawfulEngine σ K V] [Custodian σ K V] [DecidableEq K] [DecidableEq V] in
private theorem heard_endCall (w : Running σ K V) (removal : Removal K V) (panic : Option Payload) :
    (w.endCall removal panic).heard = w.heard := by
  obtain ⟨log, hlog⟩ := w.endCall_eq removal panic
  rw [hlog]

omit [DecidableEq K] [DecidableEq V] in
private theorem Accounts.endCall (h : Accounts behaviours lasting stored pending w)
    (removal : Removal K V) (panic : Option Payload) :
    Accounts behaviours lasting stored pending (w.endCall removal panic) := by
  obtain ⟨log, hlog⟩ := w.endCall_eq removal panic
  rw [hlog]
  exact h.congr _ _

omit [LawfulEngine σ K V] in
private theorem Accounts.note [LawfulEngine σ K V] [Custodian σ K V] {removal : Removal K V}
    (h : Accounts behaviours lasting stored (removal :: pending) w) (hactive : w.phase = .active)
    (hnone : behaviours.drop w.heard.length = []) (bound : Nat) :
    Accounts behaviours lasting stored pending (reportAt bound removal w) ∧
      w.heard <+: (reportAt bound removal w).heard := by
  have hlistener := h.listener
  rw [hnone] at hlistener
  have hquiet : w.IsQuiet := by
    intro listener hl
    rw [hlistener] at hl
    rw [← Option.some.inj hl]
    rfl
  have hnext : behaviours.drop (w.heard.length + 1) = [] := by
    rw [← List.drop_drop, hnone, List.drop_nil]
  have hbegun := h.beginCall
  rw [hnext, ← hlistener] at hbegun
  rw [reportAt_of_quiet hquiet, noted, hlistener, hactive]
  refine ⟨hbegun.endCall removal _, ?_⟩
  rw [heard_endCall]
  exact List.prefix_append _ _

/-- Every call of a candid listener settles the removal that it is about, however deep it calls
back. -/
theorem settles_reportAt (behaviours : List (Behaviour K V))
    (lasting : Removal K V → Option Payload) (bound : Nat) :
    Settles behaviours lasting bound (reportAt bound : Report σ K V) := by
  induction bound with
  | zero =>
    intro stored removal pending w h hbound
    cases hp : w.phase with
    | closed =>
      rw [reportAt_of_closed hp]
      exact ⟨h.drop hp, List.prefix_refl _⟩
    | active => exact h.note hp (List.drop_eq_nil_of_le hbound) 0
  | succ bound ih =>
    intro stored removal pending w h hbound
    cases hp : w.phase with
    | closed =>
      rw [reportAt_of_closed hp]
      exact ⟨h.drop hp, List.prefix_refl _⟩
    | active =>
      cases hleft : behaviours.drop w.heard.length with
      | nil => exact h.note hp hleft (bound + 1)
      | cons behaviour rest =>
        have hlistener := h.listener
        rw [hleft] at hlistener
        have hdrop : behaviours.drop (w.heard.length + 1) = rest := by
          rw [← List.drop_drop, hleft, List.drop_one, List.tail_cons]
        have hbegun := h.beginCall
        rw [hdrop] at hbegun
        generalize hw₁ : ({ w.beginCall removal with listener := some (.candid rest lasting) } :
          Running σ K V) = w₁ at hbegun
        have hheard : w₁.heard = w.heard ++ [⟨removal, none⟩] := by rw [← hw₁]; rfl
        have hlength : w₁.heard.length = w.heard.length + 1 := by
          rw [hheard, List.length_append]
          rfl
        obtain ⟨replies, hreplies, hafter, later, hlater⟩ :=
          hbegun.run ih (holdsDistinct_reportAt bound) (behaviour removal) [] (by omega)
        have hreport : reportAt (bound + 1) removal w =
            (((keepingAll [] (behaviour removal)).run
                (performWith (reportAt bound)) w₁).2.keepReplies w.heard.length
                ((keepingAll [] (behaviour removal)).run
                  (performWith (reportAt bound)) w₁).1.replies).endCall removal
              ((keepingAll [] (behaviour removal)).run
                (performWith (reportAt bound)) w₁).1.panic := by
          rw [reportAt, hlistener, hp, ← hw₁]
          rfl
        rw [hheard, List.append_assoc, List.singleton_append] at hlater
        rw [hreport, hreplies, List.nil_append]
        have hkept := hafter.keepReplies hleft hlater.symm
        refine ⟨hkept.endCall removal _, ?_⟩
        rw [heard_endCall, keepReplies, ← hlater, modify_append]
        exact List.prefix_append _ _

end Running

end Caching
