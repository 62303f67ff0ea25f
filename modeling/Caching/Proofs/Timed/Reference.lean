import Caching.Proofs.Agenda.Laws
import Caching.Proofs.Contract.Deed
import Caching.Proofs.Engine.Keyed
import Caching.Proofs.Script.Simulation
import Caching.Vocabulary.ExpiryType

/-!
# Timed maps

The contract of a cache with expiry, without a schedule: a map that gives every key a value and the
instant from which the value is absent. An absent value is as good as none, whether or not somebody
has cleared it away.
-/

namespace Caching

/-- A value with the instant from which it is absent. Without one it stays. -/
structure Lease (V : Type) where
  value : V
  deadline : Option Instant
  deriving DecidableEq, Repr

namespace Lease

variable {K V : Type}

/-- The value is there at the instant. -/
def lasts (lease : Lease V) (now : Instant) : Bool :=
  match lease.deadline with
  | some deadline => decide (now < deadline)
  | none => true

/-- The leases of which the value is there at the instant. -/
def present (now : Instant) (leases : List (K × Lease V)) : List (K × Lease V) :=
  leases.filter fun e ↦ e.2.lasts now

private theorem lasts_of_le {lease : Lease V} {now later : Instant} (hle : now ≤ later)
    (h : lease.lasts later = true) : lease.lasts now = true := by
  cases hd : lease.deadline with
  | none => rw [lasts, hd]
  | some deadline =>
    simp only [lasts, hd, decide_eq_true_eq, Instant.lt_iff, Instant.le_iff] at h hle ⊢
    omega

/-- What is there later is chosen among what is there before. -/
theorem present_of_le {now later : Instant} (hle : now ≤ later) (leases : List (K × Lease V)) :
    present later leases = present later (present now leases) := by
  rw [present, present, present, List.filter_filter]
  apply List.filter_congr
  intro e _
  cases h : e.2.lasts later with
  | false => rfl
  | true => rw [lasts_of_le hle h, Bool.and_self]

end Lease

/-- A map with deadlines, at an instant. Every store gives its value `expiry.time` from then on. -/
structure TimedMap (K V : Type) where
  expiry : Expiry
  provider : Provider
  phase : Phase
  now : Instant
  leases : List (K × Lease V)
  distinct : Keyed.Distinct leases

namespace TimedMap

variable {K V : Type}

/-- A map without values. -/
def empty (expiry : Expiry) (provider : Provider) (now : Instant) : TimedMap K V :=
  ⟨expiry, provider, .active, now, [], Keyed.distinct_nil⟩

/-- What is there now. -/
def present (m : TimedMap K V) : List (K × Lease V) :=
  Lease.present m.now m.leases

/-- Time passes. -/
def pass (d : Duration) (m : TimedMap K V) : TimedMap K V :=
  { m with now := (m.now.add? d).getD m.now }

/-- As long as it is in range, time passes. -/
theorem now_pass {m : TimedMap K V} {d : Duration} {later : Instant}
    (h : m.now.add? d = some later) : (m.pass d).now = later := by
  rw [pass, h]
  rfl

/-- Time that is left can pass, and leaves the rest of it. -/
theorem exists_pass {m : TimedMap K V} {d : Duration} {rest : Nat}
    (hrange : m.now.nanos + (d.nanos + rest : Nat) < instantBound) :
    ∃ later, m.now.add? d = some later ∧ (m.pass d).now.nanos + rest < instantBound := by
  have hfits : m.now.nanos + d.nanos < instantBound := by omega
  obtain ⟨later, hlater⟩ := Instant.exists_add? hfits
  have hsum := Instant.add?_eq_some_iff.mp hlater
  refine ⟨later, hlater, ?_⟩
  rw [now_pass hlater]
  omega

/-- Empties the map. -/
def cleared (m : TimedMap K V) : TimedMap K V :=
  { m with leases := [], distinct := Keyed.distinct_nil }

variable [DecidableEq K]

/-- The value of a key, if it is there. -/
def current (m : TimedMap K V) (key : K) : Option V :=
  (Keyed.find? key m.present).map Lease.value

/-- Gives a key a value, whose time starts now. -/
def put (key : K) (value : V) (m : TimedMap K V) : TimedMap K V :=
  { m with
    leases := Keyed.insert key ⟨value, m.now.add? m.expiry.time⟩ m.leases
    distinct := m.distinct.insert key _ }

/-- Takes a key out. -/
def take (key : K) (m : TimedMap K V) : TimedMap K V :=
  { m with leases := Keyed.erase key m.leases, distinct := m.distinct.erase key }

/-- What a deed does. Only a store, and a read if reads count, starts the time of a value. -/
def carry (key : K) (deed : Deed V) (m : TimedMap K V) : TimedMap K V :=
  match deed, m.current key with
  | .store value, _ => m.put key value
  | .remove, _ => m.take key
  | .read, some value => if m.expiry.resetsOnRead then m.put key value else m
  | .read, none | .keep, _ | .ignore, _ | .abandon, _ => m

/-- A deed changes nothing but the leases. -/
theorem carry_eq (m : TimedMap K V) (key : K) (deed : Deed V) :
    ∃ leases distinct, m.carry key deed = { m with leases, distinct } := by
  unfold carry
  split
  · exact ⟨_, (put key _ m).distinct, rfl⟩
  · exact ⟨_, (take key m).distinct, rfl⟩
  · split
    · exact ⟨_, (put key _ m).distinct, rfl⟩
    · exact ⟨_, m.distinct, rfl⟩
  · exact ⟨_, m.distinct, rfl⟩
  · exact ⟨_, m.distinct, rfl⟩
  · exact ⟨_, m.distinct, rfl⟩
  · exact ⟨_, m.distinct, rfl⟩

variable [DecidableEq V]

/-- What an operation does to an open map. -/
def serve (operation : Operation K V) (m : TimedMap K V) : TimedMap K V :=
  match operation.key?, operation with
  | some key, operation => m.carry key (operation.deed (m.current key))
  | none, .clear => m.cleared
  | none, .close => { m.cleared with phase := .closed }
  | none, _ => m

/-- Performs an operation. -/
def perform (operation : Operation K V) (m : TimedMap K V) : Reply V × TimedMap K V :=
  match m.phase with
  | .closed => (operation.closedReply m.provider, m)
  | .active => (operation.openReply m.provider m.current m.present.length, m.serve operation)

/-- Operations take no time. -/
theorem now_perform (m : TimedMap K V) (operation : Operation K V) :
    (m.perform operation).2.now = m.now := by
  rw [perform]
  split
  · rfl
  · cases hkey : operation.key? with
    | some key =>
      obtain ⟨leases, distinct, hcarry⟩ := m.carry_eq key (operation.deed (m.current key))
      simp only [serve, hkey, hcarry]
    | none => cases operation <;> first | rfl | cases hkey

/-- Scripts take no time. -/
theorem now_run {α : Type} (m : TimedMap K V) (script : Script (Operation K V) (Reply V) α) :
    (script.run perform m).2.now = m.now := by
  have hact (operation : Operation K V) (m' : TimedMap K V) (hm' : m'.now = m.now) :
      (m'.perform operation).2.now = m.now :=
    (m'.now_perform operation).trans hm'
  exact Script.run_invariant hact script rfl

end TimedMap

/-- What happens to a cache with expiry between two looks at it. -/
inductive Move (K V : Type) where
  /-- Somebody uses the cache, by an operation or by several of them. -/
  | use (script : Script (Operation K V) (Reply V) (Reply V))
  /-- Time passes on the executor, which attends to what comes due. -/
  | advance (d : Duration)
  /-- Time passes, and nobody attends to what comes due. -/
  | moveClock (d : Duration)
  /-- The executor is shut down. -/
  | shutdown

namespace Move

variable {K V : Type}

/-- The nanoseconds that a move takes. -/
def nanos : Move K V → Nat
  | use _ | shutdown => 0
  | advance d | moveClock d => d.nanos

/-- The move, with nobody attending to what comes due. -/
def unattended : Move K V → Move K V
  | advance d => moveClock d
  | move => move

/-- Attending takes no time. -/
theorem map_nanos_unattended (moves : List (Move K V)) :
    (moves.map unattended).map nanos = moves.map nanos := by
  rw [List.map_map]
  apply List.map_congr_left
  intro move _
  cases move <;> rfl

end Move

namespace TimedMap

variable {K V : Type} [DecidableEq K] [DecidableEq V]

/-- The replies of a map, to which time does nothing but pass. -/
def replies : List (Move K V) → TimedMap K V → List (Reply V)
  | [], _ => []
  | .use script :: rest, m =>
    let (reply, m) := script.run perform m
    reply :: replies rest m
  | .advance d :: rest, m | .moveClock d :: rest, m => replies rest (m.pass d)
  | .shutdown :: rest, m => replies rest m

/-- A map cannot tell whether anybody attends to what comes due. -/
theorem replies_unattended (moves : List (Move K V)) (m : TimedMap K V) :
    replies (moves.map Move.unattended) m = replies moves m := by
  induction moves generalizing m with
  | nil => rfl
  | cons move rest ih =>
    cases move with
    | use script =>
      rw [List.map_cons, Move.unattended, replies, replies]
      · exact congrArg _ (ih _)
      · exact nofun
    | advance d => exact ih (m.pass d)
    | moveClock d => exact ih (m.pass d)
    | shutdown => exact ih m

end TimedMap

end Caching
