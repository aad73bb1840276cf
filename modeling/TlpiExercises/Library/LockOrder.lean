import Mathlib.Order.Basic

/-!
# Locks in an order

Parties that wait for mutexes, each for one that ranks below those it has, cannot wait for each other in a
circle.
-/

namespace Tlpi.LockOrder

variable {ι M : Type*} {waits : ι → M → Prop} {owner : M → Option ι}

/-- Somebody waits for a mutex whose owner, if it has one, waits for none. -/
theorem waits_end (rank : M → Nat)
    (falls : ∀ i m j n, waits i m → owner m = some j → waits j n → rank n < rank m) {i : ι} {m : M} (wait : waits i m) :
    ∃ j n, waits j n ∧ ∀ k, owner n = some k → ∀ n', ¬ waits k n' := by
  induction bound : rank m using Nat.strongRecOn generalizing i m with
  | ind r ih =>
    by_cases on : ∃ k n, owner m = some k ∧ waits k n
    · obtain ⟨k, n, owned, waits⟩ := on
      exact ih (rank n) (bound ▸ falls i m k n wait owned waits) waits rfl
    · refine ⟨i, m, wait, fun k owned n waits => on ⟨k, n, owned, waits⟩⟩

end Tlpi.LockOrder
