import Caching.Proofs.Agenda.Lockstep
import Caching.Proofs.Engine.Unaware

/-!
# Listeners that go unnoticed

No engine looks at the listener, the record of its calls or the log. So whatever two caches have in
common in these respects, they keep it while they serve the same operations, as long as the reports
keep it. A quiet listener leaves nothing behind but the record of its calls and the log; so two
caches that differ in such listeners only answer every operation alike.
-/

namespace Caching.Running

variable {σ K V : Type} {w w' v v' : Running σ K V}

/-- The listener, the calls of it and their record are the same. -/
structure Unheard (w v : Running σ K V) : Prop where
  dispatching : v.dispatching = w.dispatching
  listener : v.listener = w.listener
  heard : v.heard = w.heard

private theorem Frames.unheard (h : w.Frames v) : w.Unheard v := by
  obtain ⟨_, _, _, rfl⟩ := h
  exact ⟨rfl, rfl, rfl⟩

end Running

open Running

/-- An engine that lets go of its entries without a call of the listener, and in the same way
whoever listens. -/
class DiscreetEngine (σ K V : Type) [Engine σ K V] : Prop where
  unheard : ∀ w : Running σ K V, w.Unheard (Engine.teardown w)
  alike : ∀ {w w' : Running σ K V}, w.Alike w' → (Engine.teardown w).Alike (Engine.teardown w')

instance {σ K V : Type} [Engine σ K V] [LawfulEngine σ K V] [UnawareEngine σ K V] :
    DiscreetEngine σ K V where
  unheard w := (LawfulEngine.teardown_frames w).unheard
  alike := UnawareEngine.teardown

namespace Running

variable {σ K V : Type} {w w' v v' : Running σ K V}

section

variable [Engine σ K V] [DiscreetEngine σ K V]

private theorem unheard_release (w : Running σ K V) : w.Unheard w.release := by
  rw [release]
  cases w.phase with
  | closed => exact ⟨rfl, rfl, rfl⟩
  | active =>
    have hdown := DiscreetEngine.unheard { w with phase := .closed }
    exact ⟨hdown.dispatching, hdown.listener, hdown.heard⟩

private theorem Alike.release (h : w.Alike w') : w.release.Alike w'.release := by
  rw [Running.release, Running.release, h.phase]
  cases w.phase with
  | closed => exact h
  | active =>
    have hshut : Alike { w with phase := .closed } { w' with phase := .closed } := by
      obtain ⟨_, _, _, _, rfl⟩ := h
      exact .aside _ _ _ _ _
    exact DiscreetEngine.alike hshut

omit [DiscreetEngine σ K V] in
private theorem close_eq_release (w : Running σ K V) : ∃ log, w.close = { w.release with log } := by
  rw [close, release]
  cases w.phase with
  | closed => exact ⟨w.log, rfl⟩
  | active => exact ⟨_, rfl⟩

end

/-- A relation between caches that are alike, which hangs on nothing but the listeners, the calls of
them and their record. The reports keep it. -/
structure Bystanding (related : Running σ K V → Running σ K V → Prop)
    (report report' : Report σ K V) : Prop where
  alike : ∀ {w w'}, related w w' → w.Alike w'
  onward : ∀ {w w' v v'}, related w w' → w.Unheard v → w'.Unheard v' → v.Alike v' → related v v'
  report : ∀ {w w'}, related w w' → ∀ removal, related (report removal w) (report' removal w')

namespace Bystanding

variable {related : Running σ K V → Running σ K V → Prop} {report report' : Report σ K V}
  (hrel : Bystanding related report report')
include hrel

/-- Several reports keep the relation. -/
theorem tell (h : related w w') (removals : List (Removal K V)) :
    related (tell report removals w) (tell report' removals w') :=
  List.foldl_rel h fun removal _ _ _ h ↦ hrel.report h removal

private theorem settle (h : related w w') {r r' : List (Removal K V) × Running σ K V}
    (hchange : ChangesAlike r r') (hunheard : w.Unheard r.2) (hunheard' : w'.Unheard r'.2) :
    related (settle report r) (settle report' r') := by
  rw [Running.settle, Running.settle, hchange.1]
  exact hrel.tell (hrel.onward h hunheard hunheard' hchange.2) r.1

variable [Engine σ K V]

/-- Both caches are served at the same instant, or neither is. -/
theorem guarded (h : related w w')
    (hreading : Engine.reading (K := K) (V := V) w' = Engine.reading w)
    {serve serve' : Instant → Reply V × Running σ K V}
    (hserve : ∀ now, Agree related (serve now) (serve' now)) :
    Agree related (w.guarded serve) (w'.guarded serve') := by
  rw [Running.guarded, Running.guarded, (hrel.alike h).phase, (hrel.alike h).provider, hreading]
  cases w.phase with
  | closed => exact ⟨rfl, h⟩
  | active =>
    cases Engine.reading w with
    | error abort => exact ⟨rfl, h⟩
    | ok now => exact hserve now

section

variable [DiscreetEngine σ K V]

/-- So does letting go. -/
theorem release (h : related w w') : related w.release w'.release :=
  hrel.onward h w.unheard_release w'.unheard_release (hrel.alike h).release

/-- So does closing. -/
theorem close (h : related w w') : related w.close w'.close := by
  obtain ⟨log, hclose⟩ := w.close_eq_release
  obtain ⟨log', hclose'⟩ := w'.close_eq_release
  have hreleased := hrel.release h
  rw [hclose, hclose']
  refine hrel.onward hreleased ⟨rfl, rfl, rfl⟩ ⟨rfl, rfl, rfl⟩ ?_
  exact (Alike.aside _ _ _ _ _).symm.trans ((hrel.alike hreleased).trans (.aside _ _ _ _ _))

end

variable [LawfulEngine σ K V] [UnawareEngine σ K V]

open LawfulEngine

/-- So does the duty of an entry. -/
theorem lapse (h : related w w') (key : K) (stamp : Nat) :
    related (Engine.lapse report key stamp w) (Engine.lapse report' key stamp w') := by
  rw [lapse_eq, lapse_eq]
  exact hrel.settle h (UnawareEngine.lapsed (hrel.alike h) key stamp)
    (lapsed_frames key stamp w).unheard (lapsed_frames key stamp w').unheard

private theorem carry (h : related w w') (now : Instant) (key : K) (deed : Deed V) :
    related (Running.settle report (LawfulEngine.carry now key deed w))
      (Running.settle report' (LawfulEngine.carry now key deed w')) :=
  hrel.settle h (UnawareEngine.carry (hrel.alike h) now key deed)
    (carry_frames now key deed w).unheard (carry_frames now key deed w').unheard

private theorem foldl_carry (h : related w w') (now : Instant) (deed : Deed V) (keys : List K) :
    related (keys.foldl (fun w key ↦ Running.settle report (LawfulEngine.carry now key deed w)) w)
      (keys.foldl (fun w key ↦ Running.settle report' (LawfulEngine.carry now key deed w)) w') :=
  List.foldl_rel h fun key _ _ _ h ↦ hrel.carry h now key deed

/-- So does every operation, and it has the same reply. -/
theorem performWith [DecidableEq V] (h : related w w') (operation : Operation K V) :
    Agree related (performWith report operation w) (performWith report' operation w') := by
  have halike := hrel.alike h
  have hphase := halike.phase
  have hprovider := halike.provider
  cases hp : w.phase with
  | closed =>
    rw [performWith_of_closed _ hp, performWith_of_closed _ (hphase.trans hp), hprovider]
    exact ⟨rfl, h⟩
  | active =>
    have hp' := hphase.trans hp
    by_cases hserved : operation = .close ∨ operation = .state ∨ operation = .provider
    · rcases hserved with rfl | rfl | rfl
      · exact ⟨rfl, hrel.close h⟩
      · simp only [Running.performWith, hphase]
        exact ⟨rfl, h⟩
      · simp only [Running.performWith, hprovider]
        exact ⟨rfl, h⟩
    · have hreading := UnawareEngine.reading (K := K) (V := V) halike
      cases hnow : Engine.reading w with
      | error abort =>
        rw [performWith_of_unread _ hp hnow hserved,
          performWith_of_unread _ hp' (hreading.trans hnow) hserved]
        exact ⟨rfl, h⟩
      | ok now =>
        have hnow' := hreading.trans hnow
        cases hkey : operation.key? with
        | some key =>
          rw [performWith_of_key _ hkey hp hnow, performWith_of_key _ hkey hp' hnow',
            UnawareEngine.current? halike]
          exact ⟨rfl, hrel.carry h now key _⟩
        | none =>
          cases operation with
          | size =>
            simp only [Running.performWith]
            rw [guarded_of_reading hp hnow, guarded_of_reading hp' hnow', size_eq, size_eq,
              UnawareEngine.stale halike]
            have hcounted := hrel.foldl_carry h now .keep (stale now w)
            dsimp only
            rw [UnawareEngine.count (hrel.alike hcounted)]
            exact ⟨rfl, hcounted⟩
          | clear =>
            simp only [Running.performWith]
            rw [guarded_of_reading hp hnow, guarded_of_reading hp' hnow', clear_eq, clear_eq,
              UnawareEngine.remaining halike]
            have hswept := hrel.settle h (UnawareEngine.sweep halike) (sweep_frames w).unheard
              (sweep_frames w').unheard
            exact ⟨rfl, hrel.foldl_carry hswept now .remove (remaining w)⟩
          | close | state | provider => simp at hserved
          | _ => simp [Operation.key?] at hkey

end Bystanding

/-- The caches are alike, and the listener of neither calls back. -/
structure AlikeInQuiet (w w' : Running σ K V) : Prop where
  alike : w.Alike w'
  left : w.IsQuiet
  right : w'.IsQuiet

namespace AlikeInQuiet

variable [Engine σ K V] [DecidableEq V]

private theorem bystanding (bound bound' : Nat) :
    Bystanding (AlikeInQuiet (σ := σ) (K := K) (V := V)) (reportAt bound) (reportAt bound') where
  alike h := h.alike
  onward h hunheard hunheard' halike := by
    refine ⟨halike, ?_, ?_⟩
    · rw [IsQuiet, hunheard.listener]
      exact h.left
    · rw [IsQuiet, hunheard'.listener]
      exact h.right
  report {w w'} h removal := by
    rw [reportAt_of_quiet h.left, reportAt_of_quiet h.right]
    obtain ⟨log, hnoted⟩ := w.noted_eq removal
    obtain ⟨log', hnoted'⟩ := w'.noted_eq removal
    rw [hnoted, hnoted']
    exact ⟨(Alike.aside _ _ _ _ _).symm.trans (h.alike.trans (.aside _ _ _ _ _)), h.left, h.right⟩

variable [LawfulEngine σ K V] [UnawareEngine σ K V]

/-- Alike caches answer alike and stay so, however many reactions their listeners might have used.
-/
theorem performWith (h : w.AlikeInQuiet w') (operation : Operation K V) (bound bound' : Nat) :
    (performWith (reportAt bound) operation w).1 = (performWith (reportAt bound') operation w').1 ∧
      (performWith (reportAt bound) operation w).2.AlikeInQuiet
        (performWith (reportAt bound') operation w').2 :=
  (bystanding bound bound').performWith h operation

end AlikeInQuiet

end Caching.Running
