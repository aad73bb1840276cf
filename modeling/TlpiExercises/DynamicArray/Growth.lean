import TlpiExercises.DynamicArray.Representation

/-!
# Growth

A push that finds memory, and what a row of calls costs.
-/

namespace Tlpi.DynamicArray

variable {dataSize : Nat}

/-- The memory that a push asks for when the array is full. -/
theorem makeRoom_granted {arr : DynArray} {xs : List (Element dataSize)} (rep : Represents arr xs)
    (pos : 0 < dataSize) (allocation : Allocation)
    (possible : max 1 (2 * xs.length) * dataSize ≤ PTRDIFF_MAX) :
    makeRoom (some allocation) arr ≠ none := by
  have fits := rep.allocated.fits
  have size := rep.size
  have small : dataSize < 2 ^ 64 := by
    have one : 1 * dataSize ≤ max 1 (2 * xs.length) * dataSize :=
      Nat.mul_le_mul_right _ (Nat.le_max_left _ _)
    unfold PTRDIFF_MAX at possible
    omega
  obtain ⟨_, exact⟩ := grown_capacity rep.allocated pos small
  intro refused
  unfold makeRoom at refused
  split at refused
  · rename_i full
    have asked : (if arr.capacity = 0 then 1 else sizeT (arr.capacity * 2)) ≤ max 1 (2 * xs.length) := by
      split
      · exact Nat.le_max_left _ _
      · have cut : sizeT (arr.capacity * 2) ≤ arr.capacity * 2 := Nat.mod_le _ _
        exact (cut.trans (by omega)).trans (Nat.le_max_right _ _)
    have bytes := (Nat.mul_le_mul_right dataSize asked).trans possible
    dsimp only at refused exact
    rw [exact, realloc, if_pos bytes] at refused
    cases refused
  · cases refused

theorem push_granted {arr : DynArray} {xs : List (Element dataSize)} (rep : Represents arr xs)
    (pos : 0 < dataSize) (allocation : Allocation) (value : Element dataSize)
    (possible : max 1 (2 * xs.length) * dataSize ≤ PTRDIFF_MAX) :
    ∃ pointer arr', pointer ≠ NULL ∧
      (Op.push value (some allocation)).call arr = .ok (.pointer pointer, arr') ∧
      Represents arr' (xs ++ [value]) := by
  have small : dataSize < 2 ^ 64 := by
    have one : 1 * dataSize ≤ max 1 (2 * xs.length) * dataSize :=
      Nat.mul_le_mul_right _ (Nat.le_max_left _ _)
    unfold PTRDIFF_MAX at possible
    omega
  rcases daPush_slot (some allocation) rep pos small with ⟨refused, _⟩ | ⟨grown, call, notNull, al, size, slots⟩
  · exact absurd refused (makeRoom_granted rep pos allocation possible)
  · obtain ⟨arr', store, rep'⟩ := represents_stored al pos size slots value
    refine ⟨_, arr', notNull, ?_, rep'⟩
    unfold Op.call
    simp only [call, if_neg notNull, store, ok_bind, pure_eq_ok]

theorem represents_init (pos : 0 < dataSize) (outcome : Option Allocation) (uninitialised : DynArray) :
    Represents (daInit outcome uninitialised 0 dataSize).2 ([] : List (Element dataSize)) := by
  rw [daInit, if_neg (by omega)]
  apply represents_empty outcome rfl rfl rfl
  show malloc outcome (sizeT (0 * dataSize)) = malloc outcome 0
  rw [Nat.zero_mul, sizeT_small (by omega)]

/-! ### What `realloc` moves -/

/-- The elements that a call moves to another block. -/
def Op.moves (arr : DynArray) : Op dataSize → Nat
  | .push _ outcome => if arr.size ≥ arr.capacity ∧ (makeRoom outcome arr).isSome then arr.size else 0
  | _ => 0

def moves (arr : DynArray) : List (Op dataSize) → Nat
  | [] => 0
  | op :: ops =>
    match op.call arr with
    | .error _ => 0
    | .ok (_, arr') => op.moves arr + moves arr' ops

/-- The pushes that have succeeded. -/
def pushes : List (Op dataSize × Returned) → Nat
  | [] => 0
  | (.push _ _, returned) :: calls => (if returned.succeeded then 1 else 0) + pushes calls
  | _ :: calls => pushes calls

/-- What the elements beyond the first half of the block have paid for. -/
def DynArray.credit (arr : DynArray) : Nat := 2 * arr.size - arr.capacity

theorem makeRoom_capacity {arr grown : DynArray} {outcome : Option Allocation}
    (al : Allocated dataSize arr) (pos : 0 < dataSize) (h : makeRoom outcome arr = some grown) :
    grown.size = arr.size ∧
      grown.capacity = if arr.size ≥ arr.capacity then max 1 (2 * arr.size) else arr.capacity := by
  have fits := al.fits
  have room := al.room
  have bound := al.bound
  have capacity : arr.capacity ≤ arr.capacity * dataSize := Nat.le_mul_of_pos_right _ pos
  unfold PTRDIFF_MAX at bound
  unfold makeRoom at h
  split at h
  · rename_i full
    dsimp only at h
    split at h
    · cases h
    · obtain rfl := Option.some.inj h
      refine ⟨rfl, ?_⟩
      have same : arr.capacity = arr.size := by omega
      rw [if_pos full, ← same]
      by_cases empty : arr.capacity = 0
      · simp [empty]
      · simp only [if_neg empty]
        rw [sizeT_small (by omega)]
        omega
  · rename_i notFull
    obtain rfl := Option.some.inj h
    simp [notFull]

/-- A push pays for two moves: one of its own element, one of an element of the first half. -/
theorem push_credit {arr : DynArray} {xs : List (Element dataSize)} (outcome : Option Allocation)
    (value : Element dataSize) (rep : Represents arr xs) (pos : 0 < dataSize)
    (small : dataSize < 2 ^ 64) {returned : Returned} {arr' : DynArray}
    (call : (Op.push value outcome).call arr = .ok (returned, arr')) :
    (Op.push value outcome).moves arr + arr'.credit ≤
      arr.credit + 2 * if returned.succeeded then 1 else 0 := by
  unfold Op.call at call
  unfold Op.moves
  obtain ⟨refused, stays⟩ | ⟨grown, push, notNull, al, size, slots⟩ := daPush_slot outcome rep pos small
  · simp only [stays, if_true, pure_eq_ok, Except.ok.injEq, Prod.mk.injEq] at call
    obtain ⟨rfl, rfl⟩ := call
    simp [refused]
  · obtain ⟨written, stored, rep'⟩ := represents_stored al pos size slots value
    simp only [push, if_neg notNull, stored, ok_bind, pure_eq_ok, Except.ok.injEq,
      Prod.mk.injEq] at call
    obtain ⟨rfl, rfl⟩ := call
    obtain ⟨keeps, _⟩ := store_keeps stored
    have longer : written.size = arr.size + 1 := by simp [rep'.size, rep.size]
    unfold daPush at push
    cases room : makeRoom outcome arr with
    | none =>
      rw [room] at push
      exact absurd (congrArg Prod.fst push).symm notNull
    | some room' =>
      obtain ⟨_, capacity⟩ := makeRoom_capacity rep.allocated pos room
      rw [room] at push
      have same : room'.capacity = grown.capacity := congrArg (fun result => result.2.capacity) push
      rw [same, ← keeps] at capacity
      have fits := rep.allocated.fits
      have succeeded : (Returned.pointer (daGet grown xs.length)).succeeded = true := by
        simp [Returned.succeeded, notNull]
      simp only [succeeded, if_true, DynArray.credit, longer, capacity]
      by_cases full : arr.size ≥ arr.capacity
      · simp only [full, room, Option.isSome_some, and_self, if_true]
        omega
      · simp only [full, false_and, if_false]
        omega

theorem call_credit {arr : DynArray} {xs : List (Element dataSize)} (op : Op dataSize)
    (rep : Represents arr xs) (pos : 0 < dataSize) (small : dataSize < 2 ^ 64) {returned : Returned}
    {arr' : DynArray} (call : op.call arr = .ok (returned, arr')) :
    op.moves arr + arr'.credit ≤ arr.credit + 2 * pushes [(op, returned)] := by
  cases op with
  | push value outcome => exact push_credit outcome value rep pos small call
  | pop =>
    have result : (daPop arr).2 = arr' := congrArg Prod.snd (Except.ok.inj call)
    rw [← result, daPop]
    simp only [Op.moves, DynArray.credit, pushes]
    split <;> dsimp only <;> omega
  | clear outcome =>
    obtain ⟨rfl, rfl⟩ := Prod.mk.inj (Except.ok.inj call)
    simp [Op.moves, DynArray.credit]
  | get index write =>
    simp only [Op.call] at call
    have same : arr'.size = arr.size ∧ arr'.capacity = arr.capacity := by
      split at call
      · rename_i value
        split at call
        · rename_i inside
          obtain ⟨written, stored, al', size, _⟩ :=
            store_slot rep.allocated pos (Nat.lt_of_lt_of_le inside rep.allocated.fits) value
          rw [stored] at call
          obtain ⟨rfl, rfl⟩ := Prod.mk.inj (Except.ok.inj call)
          exact ⟨size, (store_keeps stored).1⟩
        · obtain ⟨rfl, rfl⟩ := Prod.mk.inj (Except.ok.inj call)
          exact ⟨rfl, rfl⟩
      · obtain ⟨rfl, rfl⟩ := Prod.mk.inj (Except.ok.inj call)
        exact ⟨rfl, rfl⟩
    simp [Op.moves, DynArray.credit, pushes, same]

theorem run_credit {arr : DynArray} {xs : List (Element dataSize)} (ops : List (Op dataSize))
    (rep : Represents arr xs) (pos : 0 < dataSize) (small : dataSize < 2 ^ 64)
    {returned : List Returned} {arr' : DynArray} (calls : run arr ops = .ok (returned, arr')) :
    moves arr ops + arr'.credit ≤ arr.credit + 2 * pushes (ops.zip returned) := by
  induction ops generalizing arr xs returned with
  | nil =>
    obtain ⟨rfl, rfl⟩ := Prod.mk.inj (Except.ok.inj calls)
    simp [moves, pushes]
  | cons op ops ih =>
    obtain ⟨first, next, call, rep', _⟩ := call_represents op rep pos small
    obtain ⟨rest, last, tail, _⟩ := run_represents ops rep' pos small
    simp only [run, call, ok_bind, tail, pure_eq_ok] at calls
    obtain ⟨rfl, rfl⟩ := Prod.mk.inj (Except.ok.inj calls)
    have here := call_credit op rep pos small call
    have after := ih rep' tail
    have both : pushes ((op :: ops).zip (first :: rest)) =
        pushes [(op, first)] + pushes (ops.zip rest) := by
      cases op <;> simp [pushes]
    simp only [moves, call, both]
    omega

/-- However `malloc` and `realloc` do, and whatever the calls are, at most two elements are moved for
each push that has succeeded. -/
theorem moves_amortized (pos : 0 < dataSize) (small : dataSize < 2 ^ 64) (outcome : Option Allocation)
    (uninitialised : DynArray) (ops : List (Op dataSize)) :
    ∃ returned arr, run (daInit outcome uninitialised 0 dataSize).2 ops = .ok (returned, arr) ∧
      moves (daInit outcome uninitialised 0 dataSize).2 ops + (2 * arr.size - arr.capacity) ≤
        2 * pushes (ops.zip returned) := by
  have start := represents_init pos outcome uninitialised
  obtain ⟨returned, arr, calls, _⟩ := run_represents ops start pos small
  have total := run_credit ops start pos small calls
  have none : (daInit outcome uninitialised 0 dataSize).2.credit = 0 := by
    rw [daInit, if_neg (by omega)]
    rfl
  rw [none, Nat.zero_add] at total
  exact ⟨returned, arr, calls, total⟩

theorem moves_amortized_sample : moves (daInit none ⟨none, 0, 0, 0⟩ 0 2).2 sampleOps ≤ 4 := by
  obtain ⟨returned, arr, calls, total⟩ := moves_amortized
    (show 0 < 2 by decide) (by decide) none ⟨none, 0, 0, 0⟩ sampleOps
  have returns : returned = [.pointer 64, .pointer NULL, .pointer 130, .pointer 128] := by
    have computed := congrArg (Except.map Prod.fst) calls
    exact (Except.ok.inj computed).symm
  have twice : pushes (sampleOps.zip returned) = 2 := by
    rw [returns]
    rfl
  omega

end Tlpi.DynamicArray
