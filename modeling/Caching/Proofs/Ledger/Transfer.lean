import Caching.Proofs.Engine.Keyed
import Caching.Time.Instant
import Caching.Contract.Operation

/-!
# Transfers

A change of what a cache holds, with the entries that it stores and the removals that it leaves to
be told. Each way to leave has its cause: an entry that is taken out after its deadline has expired;
any other one was replaced by a store, taken out on request, or had no space. No way loses an entry
or tells of one twice.
-/

namespace Caching

/-- An entry that a cache holds, with the instant from which it has lapsed, if there is one. -/
structure Holding (K V : Type) where
  key : K
  value : V
  deadline : Option Instant
  deriving DecidableEq, Repr

namespace Holding

variable {K V : Type}

/-- The entry itself. -/
def pair (h : Holding K V) : K × V :=
  (h.key, h.value)

/-- The deadline has passed at the instant. -/
def hasLapsed (h : Holding K V) (now : Instant) : Bool :=
  h.deadline.any fun deadline ↦ decide (deadline ≤ now)

/-- What is told of an entry that leaves for the cause, unless it leaves because it has expired. -/
def leaves (h : Holding K V) (now : Instant) (cause : RemovalCause) : Removal K V :=
  ⟨h.key, h.value, if h.hasLapsed now then .expired else cause⟩

/-- No key is held twice. -/
def Distinct (holdings : List (Holding K V)) : Prop :=
  (holdings.map Holding.key).Nodup

/-- There is no space for another entry. -/
def IsFull (bound : Option Nat) (holdings : List (Holding K V)) : Prop :=
  ∃ n ∈ bound, n ≤ holdings.length

end Holding

namespace Removal

variable {K V : Type}

/-- The entry that left. -/
def pair (r : Removal K V) : K × V :=
  (r.key, r.value)

end Removal

/-- The changes of what is held at an instant, where there is space for no more entries than the
bound. Only where it is `asked` may an entry be taken out that has not lapsed. -/
inductive Transfer {K V : Type} (bound : Option Nat) (now : Instant) (asked : Bool) :
    List (Holding K V) → List (K × V) → List (Removal K V) → List (Holding K V) → Prop where
  /-- Everything is held as before, but for its deadline. -/
  | kept {before after : List (Holding K V)}
      (h : (before.map Holding.pair).Perm (after.map Holding.pair)) :
      Transfer bound now asked before [] [] after
  /-- A new key is stored. -/
  | added {before after : List (Holding K V)} (new : Holding K V)
      (hnew : new.key ∉ before.map Holding.key) (hafter : after.Perm (new :: before)) :
      Transfer bound now asked before [new.pair] [] after
  /-- A store takes the place of an entry with the same key. -/
  | replaced {before rest after : List (Holding K V)} (old new : Holding K V)
      (hkey : new.key = old.key) (hbefore : before.Perm (old :: rest))
      (hafter : after.Perm (new :: rest)) :
      Transfer bound now asked before [new.pair] [old.leaves now .replaced] after
  /-- A store of a new key takes the place of another entry, for want of space. -/
  | displaced {before rest after : List (Holding K V)} (old new : Holding K V)
      (hfull : Holding.IsFull bound before) (hnew : new.key ∉ before.map Holding.key)
      (hbefore : before.Perm (old :: rest)) (hafter : after.Perm (new :: rest)) :
      Transfer bound now asked before [new.pair] [⟨old.key, old.value, .size⟩] after
  /-- A store is turned away, where there never is space. -/
  | refused {before : List (Holding K V)} (new : K × V) (hnever : bound = some 0) :
      Transfer bound now asked before [new] [⟨new.1, new.2, .size⟩] before
  /-- An entry is taken out, because it has lapsed or on request. -/
  | taken {before after : List (Holding K V)} (old : Holding K V)
      (hreason : old.hasLapsed now = true ∨ asked = true) (hbefore : before.Perm (old :: after)) :
      Transfer bound now asked before [] [old.leaves now .explicit] after
  /-- Everything is taken out on request. -/
  | swept {before : List (Holding K V)} (hreason : asked = true) :
      Transfer bound now asked before [] (before.map fun h ↦ h.leaves now .explicit) []

namespace Transfer

variable {K V : Type} {bound : Option Nat} {now : Instant} {asked : Bool}
  {before after : List (Holding K V)} {stored : List (K × V)} {removals : List (Removal K V)}

private theorem exchange_perm (old new : K × V) (rest : List (K × V)) :
    ((old :: rest) ++ [new]).Perm ((new :: rest) ++ [old]) := by
  calc ((old :: rest) ++ [new]).Perm (new :: old :: rest) := List.perm_append_singleton new _
    _ |>.Perm (old :: new :: rest) := List.Perm.swap old new rest
    _ |>.Perm ((new :: rest) ++ [old]) := (List.perm_append_singleton old _).symm

/-- What was held and what is stored is what is held then and what is told of. -/
theorem balance (h : Transfer bound now asked before stored removals after) :
    (before.map Holding.pair ++ stored).Perm
      (after.map Holding.pair ++ removals.map Removal.pair) := by
  cases h with
  | kept h => simpa using h
  | added _ _ hafter =>
    have hpairs := hafter.map Holding.pair
    rw [List.map_nil, List.append_nil]
    exact List.perm_append_comm.trans hpairs.symm
  | replaced _ _ _ hbefore hafter | displaced _ _ _ _ hbefore hafter =>
    have hb := hbefore.map Holding.pair
    have ha := hafter.map Holding.pair
    exact (hb.append_right _).trans ((exchange_perm _ _ _).trans (ha.append_right _).symm)
  | refused _ _ => exact List.Perm.refl _
  | taken _ _ hbefore =>
    have hb := hbefore.map Holding.pair
    rw [List.append_nil]
    exact hb.trans (List.perm_append_singleton _ _).symm
  | swept _ =>
    simp only [List.append_nil, List.map_nil, List.nil_append, List.map_map]
    exact List.Perm.refl _

/-- No key comes to be held twice. -/
theorem distinct (h : Transfer bound now asked before stored removals after)
    (hd : Holding.Distinct before) : Holding.Distinct after := by
  have hkeys (xs : List (Holding K V)) :
      xs.map Holding.key = (xs.map Holding.pair).map Prod.fst := by
    rw [List.map_map]
    rfl
  rw [Holding.Distinct] at hd ⊢
  cases h with
  | kept h =>
    have hperm := h.map Prod.fst
    rw [← hkeys, ← hkeys] at hperm
    exact hperm.nodup_iff.mp hd
  | added _ hnew hafter => exact ((hafter.map _).nodup_iff).mpr (List.nodup_cons.mpr ⟨hnew, hd⟩)
  | replaced _ _ hkey hbefore hafter =>
    have hb := ((hbefore.map _).nodup_iff).mp hd
    refine ((hafter.map _).nodup_iff).mpr ?_
    rw [List.map_cons, hkey]
    exact hb
  | displaced _ _ _ hnew hbefore hafter =>
    have hb := ((hbefore.map _).nodup_iff).mp hd
    refine ((hafter.map _).nodup_iff).mpr (List.nodup_cons.mpr ⟨?_, (List.nodup_cons.mp hb).2⟩)
    intro hm
    exact hnew (((hbefore.map _).mem_iff).mpr (List.mem_cons_of_mem _ hm))
  | refused _ _ => exact hd
  | taken _ _ hbefore => exact (List.nodup_cons.mp (((hbefore.map _).nodup_iff).mp hd)).2
  | swept _ => exact List.nodup_nil

end Transfer

end Caching
