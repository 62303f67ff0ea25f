import Caching.Proofs.Contract.Deed
import Caching.Running.Basic

/-!
# Candid listeners

What a listener keeps of the replies to its own operations has no effect on the cache. A candid
listener keeps all of them: then the record of its calls tells which entries it has stored, as the
way that it behaves tells which operation each reply belongs to.
-/

namespace Caching

namespace Script

variable {A R α : Type}

/-- The actions of a script with their replies, as far as the replies go. -/
def dialogue : Script A R α → List R → List (A × R)
  | .call action next, reply :: replies => (action, reply) :: (next reply).dialogue replies
  | _, _ => []

/-- Without replies nothing was done. -/
@[simp]
theorem dialogue_nil (script : Script A R α) : script.dialogue [] = [] := by
  cases script <;> rfl

end Script

variable {K V : Type}

/-- How a listener behaves in a call: the operations that it performs on the same cache, and what it
panics with in the end, if it does. -/
abbrev Behaviour (K V : Type) :=
  Removal K V → Script (Operation K V) (Reply V) (Option Payload)

/-- Keeps all replies, in addition to those of before. -/
def keepingAll (replies : List (Reply V)) :
    Script (Operation K V) (Reply V) (Option Payload) →
      Script (Operation K V) (Reply V) (Verdict V)
  | .done panic => .done ⟨replies, panic⟩
  | .call operation next =>
    .call operation fun reply ↦ keepingAll (replies ++ [reply]) (next reply)

/-- The listener that behaves in the given ways, one call after the other, and keeps all replies.
All further calls may panic. -/
def Listener.candid (behaviours : List (Behaviour K V)) (lasting : Removal K V → Option Payload) :
    Listener K V :=
  ⟨behaviours.map fun behaviour removal ↦ keepingAll [] (behaviour removal), lasting⟩

/-- The entries that the operations of a dialogue have stored. -/
def acceptedIn (dialogue : List (Operation K V × Reply V)) : List (K × V) :=
  dialogue.filterMap fun e ↦ e.1.accepted e.2

/-- One more operation stores what its reply tells. -/
theorem acceptedIn_append (dialogue : List (Operation K V × Reply V)) (operation : Operation K V)
    (reply : Reply V) : acceptedIn (dialogue ++ [(operation, reply)]) =
      acceptedIn dialogue ++ (operation.accepted reply).toList := by
  rw [acceptedIn, List.filterMap_append, acceptedIn]
  cases h : operation.accepted reply <;> simp [h]

/-- One more operation stores what its reply tells, before the others. -/
theorem acceptedIn_cons (dialogue : List (Operation K V × Reply V)) (operation : Operation K V)
    (reply : Reply V) : acceptedIn ((operation, reply) :: dialogue) =
      (operation.accepted reply).toList ++ acceptedIn dialogue := by
  rw [acceptedIn, List.filterMap_cons, acceptedIn]
  cases h : operation.accepted reply <;> simp

/-- The entries that a call has stored, once it has ended. -/
def storedIn (behaviour : Behaviour K V) (call : Heard K V) : List (K × V) :=
  acceptedIn ((behaviour call.removal).dialogue (call.replies.getD []))

/-- The entries that the calls have stored. Calls without a behaviour of their own store nothing. -/
def storedInCalls (behaviours : List (Behaviour K V)) (heard : List (Heard K V)) : List (K × V) :=
  (List.zipWith storedIn behaviours heard).flatten

/-- A call has stored nothing of which it could tell before it ends. -/
theorem storedInCalls_append_open (behaviours : List (Behaviour K V)) (heard : List (Heard K V))
    (removal : Removal K V) :
    storedInCalls behaviours (heard ++ [⟨removal, none⟩]) = storedInCalls behaviours heard := by
  induction heard generalizing behaviours with
  | nil =>
    cases behaviours with
    | nil => rfl
    | cons behaviour rest => simp [storedInCalls, storedIn, acceptedIn]
  | cons call heard ih =>
    cases behaviours with
    | nil => rfl
    | cons behaviour rest =>
      have hrest := ih rest
      simp only [storedInCalls, List.cons_append, List.zipWith_cons_cons, List.flatten_cons]
        at hrest ⊢
      rw [hrest]

/-- Once a call has ended, it tells what it has stored. -/
theorem storedInCalls_keep {behaviours rest : List (Behaviour K V)} {behaviour : Behaviour K V}
    {heard : List (Heard K V)} (h : behaviours.drop heard.length = behaviour :: rest)
    (removal : Removal K V) (replies : List (Reply V)) (later : List (Heard K V)) :
    (storedInCalls behaviours (heard ++ ⟨removal, some replies⟩ :: later)).Perm
      (acceptedIn ((behaviour removal).dialogue replies) ++
        storedInCalls behaviours (heard ++ ⟨removal, none⟩ :: later)) := by
  induction heard generalizing behaviours with
  | nil =>
    obtain rfl : behaviours = behaviour :: rest := h
    simp [storedInCalls, storedIn, acceptedIn]
  | cons call heard ih =>
    cases behaviours with
    | nil => cases h
    | cons first others =>
      have hothers := ih h
      simp only [storedInCalls, List.cons_append, List.zipWith_cons_cons, List.flatten_cons]
        at hothers ⊢
      exact (hothers.append_left _).trans (List.perm_append_comm_assoc _ _ _)

end Caching
