import TlpiExercises.C.Numbers
import TlpiExercises.DynamicArray.Representation
import TlpiExercises.Library.Loop

/-!
# `da_reverse`

The index runs down to zero and below, which the loop sees after a conversion to `int`. An index
of 2^31 or more is taken for negative, too.
-/

namespace Tlpi.DynamicArray

open Loop

variable {dataSize : Nat}

/-- A round of the loop, with `i`, `y` and the bytes of `newData`. -/
def copyElement (arr : DynArray) (s : Nat × Nat × List UInt8) :
    Except (Except Fault (List UInt8)) (Nat × Nat × List UInt8) :=
  let (i, y, newData) := s
  if toInt i ≥ 0 then
    match arr.load (daGet arr i) arr.dataSize with
    | .error fault => .error (.error fault)
    | .ok element =>
      match Buffer.write newData (sizeT (y * arr.dataSize)) element with
      | none => .error (.error .outOfBounds)
      | some newData => .ok (sizeT (i + (2 ^ 64 - 1)), sizeT (y + 1), newData)
  else .error (.ok newData)

/-- `none` stands for a loop that is still running. -/
def daReverse (outcome : Option Allocation) (fuel : Nat) (arr : DynArray) :
    Option (Except Fault (Int × DynArray)) :=
  if arr.size ≤ 0 then some (.ok (-1, arr))
  else
    match malloc outcome (sizeT (arr.capacity * arr.dataSize)) with
    | none => some (.ok (-1, arr))
    | some newData =>
      match loop (copyElement arr) fuel (arr.size - 1, 0, newData.bytes) with
      | none => none
      | some (.error fault) => some (.error fault)
      | some (.ok bytes) => some (.ok (1, { arr with data := some { newData with bytes } }))

/-- With memory for the copy the elements are turned round, and without it nothing changes. -/
structure Reverses (arr : DynArray) (xs : List (Element dataSize)) : Prop where
  reversed : ∀ allocation, ∃ fuel arr', daReverse (some allocation) fuel arr = some (.ok (1, arr')) ∧
    Represents arr' xs.reverse ∧ arr'.size = arr.size ∧ arr'.capacity = arr.capacity
  twice : ∀ first second, ∃ fuel arr' fuel' arr'', daReverse (some first) fuel arr = some (.ok (1, arr')) ∧
    daReverse (some second) fuel' arr' = some (.ok (1, arr'')) ∧ Represents arr'' xs
  failed : ∀ outcome fuel arr', daReverse outcome fuel arr = some (.ok (-1, arr')) → arr' = arr

/-! ### The index -/

theorem toInt_low {i : Nat} (low : i < 2 ^ 31) : 0 ≤ toInt i := by
  have high : (i : Int) ≤ INT_MAX := by
    unfold INT_MAX
    omega
  rw [toInt_of_nonneg (Int.natCast_nonneg i) high]
  exact Int.natCast_nonneg i

/-- The index after the last element. -/
theorem toInt_last : ¬ toInt (sizeT (0 + (2 ^ 64 - 1)) : Nat) ≥ 0 := by decide

/-- From 2^31 on the loop stops, at the latest, before the index falls below it. -/
theorem index_high {i : Nat} (high : 2 ^ 31 ≤ i) (goes_on : toInt i ≥ 0) : 2 ^ 31 ≤ i - 1 := by
  by_contra below
  have here : i = 2 ^ 31 := by omega
  subst here
  revert goes_on
  decide

/-! ### A round -/

section

variable {arr : DynArray} {xs : List (Element dataSize)}

theorem index_bound (rep : Represents arr xs) (pos : 0 < dataSize) : xs.length < 2 ^ 63 := by
  have room := rep.allocated.room
  have bound := rep.allocated.bound
  have fits := rep.allocated.fits
  have capacity : arr.capacity ≤ arr.capacity * dataSize := Nat.le_mul_of_pos_right _ pos
  rw [rep.size] at fits
  unfold PTRDIFF_MAX at bound
  omega

theorem copy_step (rep : Represents arr xs) (pos : 0 < dataSize) {i y : Nat} {newData : List UInt8}
    (length : newData.length = arr.capacity * dataSize) (low : i < xs.length) (inside : y < xs.length)
    (goes_on : toInt i ≥ 0) :
    ∃ copied, Buffer.write newData (y * dataSize) xs[i].1 = some copied ∧
      copyElement arr (i, y, newData) = .ok (sizeT (i + (2 ^ 64 - 1)), y + 1, copied) := by
  have al := rep.allocated
  have fits := al.fits
  rw [rep.size] at fits
  have slot := slot_room dataSize (Nat.lt_of_lt_of_le inside fits)
  have bound := index_bound rep pos
  have space : y * dataSize + xs[i].1.length ≤ newData.length := by
    rw [xs[i].2, length]
    exact slot
  obtain ⟨copied, write⟩ := Buffer.write_fits space
  have loaded := load_slot al pos (Nat.lt_of_lt_of_le low fits) (rep.slots i low)
  refine ⟨copied, write, ?_⟩
  unfold copyElement
  dsimp only
  rw [if_pos goes_on, al.element, loaded]
  have offset := al.offset (Nat.lt_of_lt_of_le inside fits)
  rw [al.element] at offset
  dsimp only
  rw [offset, write]
  dsimp only
  rw [sizeT_small (show y + 1 < 2 ^ 64 by omega)]

/-- The first `y` slots hold the last elements. -/
def Copied (xs : List (Element dataSize)) (y : Nat) (newData : List UInt8) : Prop :=
  ∀ k (_ : k < y) (h : k < xs.length),
    Buffer.read newData (k * dataSize) dataSize = some (xs[xs.length - 1 - k]).1

theorem copied_succ {i y : Nat} {newData copied : List UInt8} (before : Copied xs y newData)
    (low : i < xs.length) (sum : i + y = xs.length - 1)
    (write : Buffer.write newData (y * dataSize) xs[i].1 = some copied) : Copied xs (y + 1) copied := by
  intro k under inside
  by_cases last : k = y
  · subst last
    have same := Buffer.read_write_same write
    have index : xs.length - 1 - k = i := by omega
    rw [xs[i].2] at same
    simp only [index]
    exact same
  · rw [Buffer.read_write_other write]
    · exact before k (by omega) inside
    · rw [xs[i].2]
      exact slot_apart last

/-- Up to 2^31 elements, by induction on the index. -/
theorem copy_all (rep : Represents arr xs) (pos : 0 < dataSize) (few : xs.length ≤ 2 ^ 31) {i y : Nat}
    {newData : List UInt8} (length : newData.length = arr.capacity * dataSize) (low : i < xs.length)
    (sum : i + y = xs.length - 1) (before : Copied xs y newData) :
    ∃ bytes, loop (copyElement arr) (i + 2) (i, y, newData) = some (.ok bytes) ∧
      bytes.length = arr.capacity * dataSize ∧ Copied xs xs.length bytes := by
  induction i generalizing y newData with
  | zero =>
    obtain ⟨copied, write, step⟩ := copy_step (y := y) rep pos length low (by omega) (toInt_low (by omega))
    have all := copied_succ before low sum write
    rw [show y + 1 = xs.length by omega] at all
    refine ⟨copied, ?_, (Buffer.write_length write).trans length, all⟩
    refine loop_ok step (loop_error ?_)
    unfold copyElement
    exact if_neg toInt_last
  | succ i ih =>
    obtain ⟨copied, write, step⟩ := copy_step (y := y) rep pos length low (by omega) (toInt_low (by omega))
    have next : sizeT (i + 1 + (2 ^ 64 - 1)) = i := by
      unfold sizeT
      omega
    rw [next] at step
    obtain ⟨bytes, ran, length, all⟩ := ih ((Buffer.write_length write).trans length) (by omega)
      (by omega) (copied_succ before low sum write)
    exact ⟨bytes, loop_ok step ran, length, all⟩

/-! ### The call -/

theorem capacity_bytes (al : Allocated dataSize arr) :
    sizeT (arr.capacity * arr.dataSize) = arr.capacity * dataSize ∧
      arr.capacity * dataSize ≤ PTRDIFF_MAX := by
  have small := al.room.trans al.bound
  refine ⟨?_, small⟩
  unfold PTRDIFF_MAX at small
  rw [al.element, sizeT_small]
  omega

/-- What the block for the copy holds at first. -/
def freshBytes (allocation : Allocation) (n : Nat) : List UInt8 := (List.range n).map allocation.junk

theorem freshBytes_length (allocation : Allocation) (n : Nat) : (freshBytes allocation n).length = n := by
  rw [freshBytes, List.length_map, List.length_range]

theorem daReverse_loop (rep : Represents arr xs) (some_element : xs ≠ []) (allocation : Allocation)
    (fuel : Nat) :
    daReverse (some allocation) fuel arr =
      match loop (copyElement arr) fuel
        (xs.length - 1, 0, freshBytes allocation (arr.capacity * dataSize)) with
      | none => none
      | some (.error fault) => some (.error fault)
      | some (.ok bytes) => some (.ok (1, { arr with data := some ⟨allocation.addr, bytes⟩ })) := by
  have length := List.length_pos_iff.mpr some_element
  obtain ⟨bytes, small⟩ := capacity_bytes rep.allocated
  unfold daReverse
  rw [if_neg (by rw [rep.size]; omega), bytes, malloc_some allocation small, rep.size]
  rfl

/-- Such a copy is an array again. -/
theorem represents_copied (rep : Represents arr xs) (allocation : Allocation) {bytes : List UInt8}
    (length : bytes.length = arr.capacity * dataSize) (all : Copied xs xs.length bytes) :
    Represents { arr with data := some ⟨allocation.addr, bytes⟩ } xs.reverse := by
  have al := rep.allocated
  refine ⟨⟨al.element, al.fits, Nat.le_of_eq length.symm, ?_, ?_⟩, ?_, fun i inside => ?_⟩
  · exact length.trans_le (capacity_bytes al).2
  · intro block same
    obtain rfl := Option.some.inj same
    exact allocation.notNull
  · rw [List.length_reverse]
    exact rep.size
  · rw [List.length_reverse] at inside
    rw [List.getElem_reverse]
    exact all i inside inside

theorem daReverse_few (rep : Represents arr xs) (pos : 0 < dataSize) (some_element : xs ≠ [])
    (few : xs.length ≤ 2 ^ 31) (allocation : Allocation) :
    ∃ fuel arr', daReverse (some allocation) fuel arr = some (.ok (1, arr')) ∧
      Represents arr' xs.reverse ∧ arr'.size = arr.size ∧ arr'.capacity = arr.capacity := by
  have length := List.length_pos_iff.mpr some_element
  obtain ⟨bytes, ran, long, all⟩ := copy_all rep pos few
    (freshBytes_length allocation (arr.capacity * dataSize)) (show xs.length - 1 < xs.length by omega)
    (Nat.add_zero _) (fun k under _ => absurd under (Nat.not_lt_zero k))
  refine ⟨xs.length - 1 + 2, _, ?_, represents_copied rep allocation long all, rfl, rfl⟩
  rw [daReverse_loop rep some_element, ran]

theorem daReverse_failed (arr : DynArray) (outcome : Option Allocation) (fuel : Nat) {arr' : DynArray}
    (failed : daReverse outcome fuel arr = some (.ok (-1, arr'))) : arr' = arr := by
  unfold daReverse at failed
  split at failed
  · cases failed
    rfl
  · split at failed
    · cases failed
      rfl
    · split at failed <;> cases failed

/-! ### Arrays that are too long for an int -/

/-- The last slot of the copy is never written. -/
def Untouched (arr : DynArray) (xs : List (Element dataSize)) (fresh : List UInt8)
    (s : Nat × Nat × List UInt8) : Prop :=
  2 ^ 31 ≤ s.1 ∧ s.1 < xs.length ∧ s.1 + s.2.1 = xs.length - 1 ∧
    s.2.2.length = arr.capacity * dataSize ∧
    Buffer.read s.2.2 ((xs.length - 1) * dataSize) dataSize =
      Buffer.read fresh ((xs.length - 1) * dataSize) dataSize

theorem untouched_step (rep : Represents arr xs) (pos : 0 < dataSize) {fresh : List UInt8}
    (s t : Nat × Nat × List UInt8) (before : Untouched arr xs fresh s)
    (step : copyElement arr s = .ok t) : Untouched arr xs fresh t := by
  obtain ⟨i, y, newData⟩ := s
  obtain ⟨high, low, sum, length, same⟩ := before
  dsimp only at high low sum length same
  have goes_on : toInt i ≥ 0 := by
    by_contra stops
    unfold copyElement at step
    dsimp only at step
    rw [if_neg stops] at step
    cases step
  obtain ⟨copied, write, step'⟩ := copy_step (y := y) rep pos length low (by omega) goes_on
  obtain rfl := Except.ok.inj (step'.symm.trans step)
  have bound := index_bound rep pos
  have next : sizeT (i + (2 ^ 64 - 1)) = i - 1 := by
    unfold sizeT
    omega
  refine ⟨?_, ?_, ?_, (Buffer.write_length write).trans length, ?_⟩
  · dsimp only
    rw [next]
    exact index_high high goes_on
  · dsimp only
    omega
  · dsimp only
    omega
  · dsimp only
    rw [← same]
    apply Buffer.read_write_other write
    rw [xs[i].2]
    exact slot_apart (by omega)

theorem copyElement_stop {s : Nat × Nat × List UInt8} {bytes : List UInt8}
    (stop : copyElement arr s = .error (.ok bytes)) : bytes = s.2.2 := by
  unfold copyElement at stop
  dsimp only at stop
  split at stop
  · split at stop
    · cases stop
    · split at stop <;> cases stop
  · cases stop
    rfl

/-- The first element is not copied. -/
theorem daReverse_many (rep : Represents arr xs) (pos : 0 < dataSize) (many : 2 ^ 31 < xs.length)
    (allocation : Allocation) {fuel : Nat} {arr' : DynArray}
    (ran : daReverse (some allocation) fuel arr = some (.ok (1, arr'))) :
    Buffer.read arr'.bytes ((xs.length - 1) * dataSize) dataSize =
      Buffer.read (freshBytes allocation (arr.capacity * dataSize)) ((xs.length - 1) * dataSize)
        dataSize := by
  have some_element : xs ≠ [] := List.ne_nil_of_length_pos (by omega)
  rw [daReverse_loop rep some_element] at ran
  cases ended : loop (copyElement arr) fuel
      (xs.length - 1, 0, freshBytes allocation (arr.capacity * dataSize)) with
  | none =>
    rw [ended] at ran
    cases ran
  | some result =>
    rw [ended] at ran
    cases result with
    | error fault => cases ran
    | ok bytes =>
      cases ran
      obtain ⟨t, untouched, stop⟩ := loop_invariant (untouched_step rep pos)
        ⟨by dsimp only; omega, by dsimp only; omega, Nat.add_zero _,
          freshBytes_length allocation (arr.capacity * dataSize), rfl⟩ ended
      have same := untouched.2.2.2.2
      rw [← copyElement_stop stop] at same
      exact same

theorem not_reverses (rep : Represents arr xs) (pos : 0 < dataSize) (many : 2 ^ 31 < xs.length) :
    ¬ Reverses arr xs := by
  intro reverses
  have first : 0 < xs[0].1.length := by
    rw [xs[0].2]
    exact pos
  obtain ⟨junk, other⟩ : ∃ junk, junk ≠ xs[0].1[0] := by
    by_cases zero : xs[0].1[0] = 0
    · exact ⟨1, zero ▸ by decide⟩
    · exact ⟨0, Ne.symm zero⟩
  obtain ⟨fuel, arr', ran, rep', _⟩ := reverses.reversed ⟨1, by decide, fun _ => junk⟩
  have last : xs.length - 1 < xs.reverse.length := by
    rw [List.length_reverse]
    omega
  have slot := rep'.slots (xs.length - 1) last
  rw [daReverse_many rep pos many _ ran, List.getElem_reverse] at slot
  simp only [Nat.sub_self] at slot
  have fresh := Buffer.mem_of_read slot (List.getElem_mem first)
  obtain ⟨_, _, same⟩ := List.mem_map.mp fresh
  exact other same

/-- An index of 2^31 is below zero as an int. -/
theorem reverses_iff (rep : Represents arr xs) (pos : 0 < dataSize) (some_element : xs ≠ []) :
    Reverses arr xs ↔ xs.length ≤ 2 ^ 31 := by
  refine ⟨fun reverses => Nat.not_lt.mp fun many => not_reverses rep pos many reverses, fun few => ?_⟩
  refine ⟨daReverse_few rep pos some_element few, fun first second => ?_,
    fun outcome fuel arr' => daReverse_failed arr outcome fuel⟩
  obtain ⟨fuel, arr', once, rep', _⟩ := daReverse_few rep pos some_element few first
  obtain ⟨fuel', arr'', again, rep'', _⟩ := daReverse_few rep' pos
    (mt List.reverse_eq_nil_iff.mp some_element) (List.length_reverse.trans_le few) second
  rw [List.reverse_reverse] at rep''
  exact ⟨fuel, arr', fuel', arr'', once, again, rep''⟩

end

/-- An array of single bytes that is full. -/
def packed (bytes : List UInt8) : DynArray := ⟨some ⟨1, bytes⟩, bytes.length, bytes.length, 1⟩

theorem packed_represents (bytes : List UInt8) (small : bytes.length ≤ PTRDIFF_MAX) :
    Represents (packed bytes) (bytes.map fun c => (⟨[c], rfl⟩ : Element 1)) := by
  refine ⟨⟨rfl, Nat.le_refl _, Nat.le_of_eq (Nat.mul_one _), small, ?_⟩, List.length_map _ |>.symm,
    fun i inside => ?_⟩
  · intro block same
    obtain rfl := Option.some.inj same
    exact Nat.one_ne_zero
  · rw [List.length_map] at inside
    have room : i * 1 + 1 ≤ bytes.length := by omega
    have cells : (packed bytes).bytes = bytes := rfl
    unfold Buffer.read
    rw [cells, if_pos room, List.getElem_map, Nat.mul_one, List.drop_eq_getElem_cons inside]
    rfl

theorem reverses_three : Reverses (packed [1, 2, 3]) [(⟨[1], rfl⟩ : Element 1), ⟨[2], rfl⟩, ⟨[3], rfl⟩] :=
  (reverses_iff (packed_represents [1, 2, 3] (by decide)) Nat.one_pos (List.cons_ne_nil _ _)).mpr
    (by decide)

/-- The copy of an array of 2^31 + 1 elements does not get the first one. -/
theorem long_array_not_reversed : ¬ ∀ (dataSize : Nat) (arr : DynArray) (xs : List (Element dataSize)),
    0 < dataSize → Represents arr xs → xs ≠ [] → Reverses arr xs := by
  intro all
  have length : (List.replicate (2 ^ 31 + 1) (0 : UInt8)).length = 2 ^ 31 + 1 := List.length_replicate
  have rep := packed_represents _ (length.trans_le (by decide))
  have many : 2 ^ 31 < ((List.replicate (2 ^ 31 + 1) (0 : UInt8)).map
      fun c => (⟨[c], rfl⟩ : Element 1)).length := by
    rw [List.length_map, length]
    exact Nat.lt_succ_self _
  exact not_reverses rep Nat.one_pos many
    (all 1 _ _ Nat.one_pos rep (List.ne_nil_of_length_pos (Nat.zero_lt_of_lt many)))

end Tlpi.DynamicArray
