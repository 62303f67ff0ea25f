import Caching.Contract.Operation
import Caching.Script

/-!
# Derived operations

Operations that take several steps of the contract. Nothing holds the cache between the steps, so a
script in another place may come between.
-/

namespace Caching

variable {K V A : Type}

/-- The value of a key, or another one in its place; `SPEC_FULL.md`, section 12. -/
def getOrDefault (key : K) (default : V) : Script (Operation K V) (Reply V) (Reply V) :=
  .call (.get key) fun reply ↦
    match reply.outcome with
    | .ok (.value none) => .done (.ok (.value (some default)))
    | _ => .done reply

/-- Stores all entries, up to the first that fails; `SPEC_FULL.md`, section 6. -/
def putAll : List (K × V) → Script (Operation K V) (Reply V) (Reply V)
  | [] => .done (.ok .done)
  | (key, value) :: rest =>
    .call (.put key value) fun reply ↦
      match reply.outcome with
      | .ok _ => putAll rest
      | .error failure => .done (.failed failure)

/-- The value of a key, computed and stored if there is none. The computation is a script of its own
in the language `A`, into which `lift` takes the operations. A value that the computation has left
for the key wins over the one it gives. -/
def computeIfAbsentBy (lift : Operation K V → A) (key : K)
    (computation : Script A (Reply V) (Except Abort V)) : Script A (Reply V) (Reply V) :=
  .call (lift (.get key)) fun reply ↦
    match reply.outcome with
    | .ok (.value none) =>
      computation.andThen fun
        | .error abort => .done (.failed (.abort abort))
        | .ok value =>
          .call (lift (.putIfAbsent key value)) fun reply ↦
            match reply.outcome with
            | .ok (.value none) => .done ⟨.ok (.value (some value)), [none]⟩
            | outcome => .done ⟨outcome, [none]⟩
    | _ => .done reply

/-- The value of a key, computed and stored if there is none; `SPEC_FULL.md`, section 12. -/
def computeIfAbsent (key : K) (value : Except Abort V) :
    Script (Operation K V) (Reply V) (Reply V) :=
  computeIfAbsentBy id key (.done value)

end Caching
