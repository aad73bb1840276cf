import TlpiExercises.DynamicArray.Model

/-!
# The array as a list

`Represents arr xs` ties an array to the list of elements that its calls have left. The allocator
bound keeps every product of `size_t` below 2^64, so that a slot below the capacity really lies
in the block.
-/

namespace Tlpi.DynamicArray

variable {dataSize : Nat}

/-- The block has the bytes that the fields promise. -/
structure Allocated (dataSize : Nat) (arr : DynArray) : Prop where
  element : arr.dataSize = dataSize
  fits : arr.size ≤ arr.capacity
  room : arr.capacity * dataSize ≤ arr.bytes.length
  bound : arr.bytes.length ≤ PTRDIFF_MAX
  notNull : ∀ block, arr.data = some block → block.addr ≠ NULL

structure Represents (arr : DynArray) (xs : List (Element dataSize)) : Prop where
  allocated : Allocated dataSize arr
  size : arr.size = xs.length
  slots : ∀ i (h : i < xs.length), Buffer.read arr.bytes (i * dataSize) dataSize = some xs[i].1

theorem sizeT_small {n : Nat} (h : n < 2 ^ 64) : sizeT n = n := Nat.mod_eq_of_lt h

/-! ### Slots -/

theorem slot_room (dataSize : Nat) {i capacity : Nat} (h : i < capacity) :
    i * dataSize + dataSize ≤ capacity * dataSize := by
  rw [← Nat.succ_mul]
  exact Nat.mul_le_mul_right _ h

theorem slot_apart {i j : Nat} (different : i ≠ j) :
    i * dataSize + dataSize ≤ j * dataSize ∨ j * dataSize + dataSize ≤ i * dataSize := by
  rcases Nat.lt_or_gt_of_ne different with less | greater
  · exact Or.inl (slot_room dataSize less)
  · exact Or.inr (slot_room dataSize greater)

theorem Allocated.offset {arr : DynArray} (al : Allocated dataSize arr) {i : Nat}
    (h : i < arr.capacity) : sizeT (i * arr.dataSize) = i * dataSize := by
  have slot := slot_room dataSize h
  have room := al.room
  have bound := al.bound
  unfold PTRDIFF_MAX at bound
  rw [al.element, sizeT_small]
  omega

theorem Allocated.block {arr : DynArray} (al : Allocated dataSize arr) (pos : 0 < dataSize) {i : Nat}
    (h : i < arr.capacity) : ∃ block, arr.data = some block := by
  cases data : arr.data with
  | some block => exact ⟨block, rfl⟩
  | none =>
    have slot := slot_room dataSize h
    have room := al.room
    rw [DynArray.bytes, data, List.length_nil] at room
    omega

theorem daGet_block {arr : DynArray} {block : Block} (al : Allocated dataSize arr)
    (data : arr.data = some block) {i : Nat} (h : i < arr.capacity) :
    daGet arr i = block.addr + i * dataSize := by
  rw [daGet, DynArray.address, data, al.offset h]

theorem load_slot {arr : DynArray} (al : Allocated dataSize arr) (pos : 0 < dataSize) {i : Nat}
    (h : i < arr.capacity) {value : List UInt8}
    (stored : Buffer.read arr.bytes (i * dataSize) dataSize = some value) :
    arr.load (daGet arr i) dataSize = .ok value := by
  obtain ⟨block, data⟩ := al.block pos h
  rw [DynArray.bytes, data] at stored
  unfold DynArray.load
  rw [daGet_block al data h, data]
  simp only [if_neg (Nat.not_lt.mpr (Nat.le_add_right _ _)),
    Nat.add_sub_cancel_left, stored]

/-- A write changes the bytes of the block alone. -/
theorem store_keeps {arr next : DynArray} {pointer : Pointer} {value : List UInt8}
    (stored : arr.store pointer value = .ok next) :
    next.capacity = arr.capacity ∧ next.dataSize = arr.dataSize ∧ next.address = arr.address := by
  unfold DynArray.store at stored
  cases data : arr.data with
  | none =>
    rw [data] at stored
    cases stored
  | some block =>
    rw [data] at stored
    dsimp only at stored
    by_cases below : pointer < block.addr
    · rw [if_pos below] at stored
      cases stored
    rw [if_neg below] at stored
    cases written : Buffer.write block.bytes (pointer - block.addr) value with
    | none =>
      rw [written] at stored
      cases stored
    | some bytes =>
      rw [written] at stored
      cases stored
      exact ⟨rfl, rfl, by rw [DynArray.address, DynArray.address, data]⟩

/-- Writing a slot leaves the others as they are. -/
theorem store_slot {arr : DynArray} (al : Allocated dataSize arr) (pos : 0 < dataSize) {i : Nat}
    (h : i < arr.capacity) (value : Element dataSize) :
    ∃ arr', arr.store (daGet arr i) value.1 = .ok arr' ∧ Allocated dataSize arr' ∧
      arr'.size = arr.size ∧
      Buffer.read arr'.bytes (i * dataSize) dataSize = some value.1 ∧
      ∀ j, j ≠ i → Buffer.read arr'.bytes (j * dataSize) dataSize =
        Buffer.read arr.bytes (j * dataSize) dataSize := by
  obtain ⟨block, data⟩ := al.block pos h
  have slot := slot_room dataSize h
  have room := al.room
  have bytes : arr.bytes = block.bytes := by rw [DynArray.bytes, data]
  have fits : i * dataSize + value.1.length ≤ block.bytes.length := by
    rw [value.2, ← bytes]
    omega
  obtain ⟨written, write⟩ := Buffer.write_fits fits
  have length := Buffer.write_length write
  refine ⟨{ arr with data := some { block with bytes := written } }, ?_, ?_, rfl, ?_, ?_⟩
  · unfold DynArray.store
    rw [daGet_block al data h, data]
    simp only [if_neg (Nat.not_lt.mpr (Nat.le_add_right _ _)),
      Nat.add_sub_cancel_left, write]
  · constructor
    case element => exact al.element
    case fits => exact al.fits
    case room =>
      show arr.capacity * dataSize ≤ written.length
      rw [length, ← bytes]
      exact room
    case bound =>
      show written.length ≤ PTRDIFF_MAX
      rw [length, ← bytes]
      exact al.bound
    case notNull =>
      intro other same
      obtain rfl := Option.some.inj same
      exact al.notNull block data
  · have same := Buffer.read_write_same write
    rwa [value.2] at same
  · intro j different
    rw [bytes]
    apply Buffer.read_write_other write
    rw [value.2]
    exact slot_apart different

/-! ### The calls -/

theorem malloc_some (allocation : Allocation) {n : Nat} (possible : n ≤ PTRDIFF_MAX) :
    malloc (some allocation) n = some ⟨allocation.addr, (List.range n).map allocation.junk⟩ := by
  unfold malloc
  rw [if_pos possible]
  rfl

theorem malloc_length {outcome : Option Allocation} {n : Nat} {block : Block}
    (h : malloc outcome n = some block) :
    block.bytes.length = n ∧ n ≤ PTRDIFF_MAX ∧ block.addr ≠ NULL := by
  unfold malloc at h
  split at h
  · rename_i small
    obtain ⟨a, _, rfl⟩ := Option.map_eq_some_iff.mp h
    exact ⟨by simp, small, a.notNull⟩
  · cases h

theorem realloc_some {outcome : Option Allocation} {arr : DynArray} {n : Nat} {block : Block}
    (h : realloc outcome arr n = some block) :
    n ≤ PTRDIFF_MAX ∧ ∃ a : Allocation, block = ⟨a.addr, Buffer.resize arr.bytes n a.junk⟩ := by
  unfold realloc at h
  split at h
  · rename_i small
    obtain ⟨a, _, same⟩ := Option.map_eq_some_iff.mp h
    exact ⟨small, a, same.symm⟩
  · cases h

theorem represents_empty (outcome : Option Allocation) {arr : DynArray}
    (element : arr.dataSize = dataSize) (size : arr.size = 0) (capacity : arr.capacity = 0)
    (data : arr.data = malloc outcome 0) : Represents arr ([] : List (Element dataSize)) := by
  have bytes : arr.bytes.length ≤ PTRDIFF_MAX := by
    rw [DynArray.bytes, data]
    cases result : malloc outcome 0 with
    | none => exact Nat.zero_le _
    | some block =>
      obtain ⟨length, small, _⟩ := malloc_length result
      show block.bytes.length ≤ PTRDIFF_MAX
      omega
  refine ⟨⟨element, by omega, ?_, bytes, ?_⟩, size, fun i h => absurd h (Nat.not_lt_zero i)⟩
  · rw [capacity, Nat.zero_mul]
    exact Nat.zero_le _
  · intro block same
    rw [data] at same
    exact (malloc_length same).2.2

theorem grown_capacity {arr : DynArray} (al : Allocated dataSize arr) (pos : 0 < dataSize)
    (small : dataSize < 2 ^ 64) :
    let capacity := if arr.capacity = 0 then 1 else sizeT (arr.capacity * 2)
    arr.capacity < capacity ∧ sizeT (capacity * arr.dataSize) = capacity * dataSize := by
  have room := al.room
  have bound := al.bound
  unfold PTRDIFF_MAX at bound
  by_cases empty : arr.capacity = 0
  · rw [empty]
    simp only [if_true, al.element, Nat.one_mul]
    exact ⟨Nat.one_pos, sizeT_small small⟩
  · have capacity : arr.capacity ≤ arr.capacity * dataSize := Nat.le_mul_of_pos_right _ pos
    have doubled : sizeT (arr.capacity * 2) = arr.capacity * 2 := by
      rw [sizeT_small]
      omega
    simp only [if_neg empty, doubled, al.element]
    refine ⟨by omega, ?_⟩
    have bytes : arr.capacity * 2 * dataSize = 2 * (arr.capacity * dataSize) := by
      rw [Nat.mul_comm arr.capacity 2, Nat.mul_assoc]
    rw [bytes, sizeT_small]
    omega

theorem makeRoom_represents {arr grown : DynArray} {xs : List (Element dataSize)}
    {outcome : Option Allocation} (rep : Represents arr xs) (pos : 0 < dataSize)
    (small : dataSize < 2 ^ 64) (h : makeRoom outcome arr = some grown) :
    Represents grown xs ∧ grown.size < grown.capacity := by
  have al := rep.allocated
  unfold makeRoom at h
  split at h
  · rename_i full
    obtain ⟨greater, exact⟩ := grown_capacity al pos small
    dsimp only at h greater exact
    split at h
    · cases h
    · rename_i temp allocation
      obtain rfl := Option.some.inj h
      rw [exact] at allocation
      obtain ⟨below, a, rfl⟩ := realloc_some allocation
      have bytes := Buffer.resize_length arr.bytes
        ((if arr.capacity = 0 then 1 else sizeT (arr.capacity * 2)) * dataSize) a.junk
      have fits := al.fits
      refine ⟨⟨⟨al.element, ?_, ?_, ?_, ?_⟩, rep.size, ?_⟩, ?_⟩
      · exact fits.trans greater.le
      · exact bytes.ge
      · exact bytes.trans_le below
      · intro block same
        obtain rfl := Option.some.inj same
        exact a.notNull
      · intro i inside
        have lower : i < arr.capacity := by
          rw [← rep.size] at inside
          omega
        rw [← rep.slots i inside]
        apply Buffer.read_resize
        · exact (slot_room dataSize lower).trans al.room
        · exact slot_room dataSize (lower.trans greater)
      · exact Nat.lt_of_le_of_lt fits greater
  · rename_i notFull
    obtain rfl := Option.some.inj h
    exact ⟨rep, by omega⟩

/-- A push returns NULL, or the pointer to one more slot, in which anything may stand. -/
theorem daPush_slot {arr : DynArray} {xs : List (Element dataSize)} (outcome : Option Allocation)
    (rep : Represents arr xs) (pos : 0 < dataSize) (small : dataSize < 2 ^ 64) :
    makeRoom outcome arr = none ∧ daPush outcome arr = (NULL, arr) ∨
      ∃ arr', daPush outcome arr = (daGet arr' xs.length, arr') ∧ daGet arr' xs.length ≠ NULL ∧
        Allocated dataSize arr' ∧ arr'.size = xs.length + 1 ∧
        ∀ i (h : i < xs.length), Buffer.read arr'.bytes (i * dataSize) dataSize = some xs[i].1 := by
  unfold daPush
  cases room : makeRoom outcome arr with
  | none => exact Or.inl ⟨rfl, rfl⟩
  | some grown =>
    obtain ⟨rep', free⟩ := makeRoom_represents rep pos small room
    have al := rep'.allocated
    have bound := al.bound
    have room' := al.room
    have capacity : grown.capacity ≤ grown.capacity * dataSize := Nat.le_mul_of_pos_right _ pos
    unfold PTRDIFF_MAX at bound
    have next : sizeT (grown.size + 1) = grown.size + 1 := by
      rw [sizeT_small]
      omega
    have longer : Allocated dataSize { grown with size := grown.size + 1 } :=
      ⟨al.element, free, al.room, al.bound, al.notNull⟩
    obtain ⟨block, data⟩ := longer.block pos free
    have notNull : daGet { grown with size := grown.size + 1 } grown.size ≠ NULL := by
      rw [daGet_block longer data free]
      have addr := longer.notNull block data
      exact fun zero => addr (Nat.add_eq_zero_iff.mp zero).1
    refine Or.inr ⟨{ grown with size := grown.size + 1 }, ?_, ?_, longer, ?_, fun i inside => ?_⟩
    · rw [rep'.size] at next
      simp only [rep'.size, next, Nat.add_sub_cancel]
    · rw [← rep'.size]
      exact notNull
    · rw [← rep'.size]
    · exact rep'.slots i inside

/-- What stands in the slot once it has been written. -/
theorem represents_stored {arr : DynArray} {xs : List (Element dataSize)} (al : Allocated dataSize arr)
    (pos : 0 < dataSize) (size : arr.size = xs.length + 1)
    (slots : ∀ i (h : i < xs.length), Buffer.read arr.bytes (i * dataSize) dataSize = some xs[i].1)
    (value : Element dataSize) :
    ∃ arr', arr.store (daGet arr xs.length) value.1 = .ok arr' ∧ Represents arr' (xs ++ [value]) := by
  have free : xs.length < arr.capacity := by
    have fits := al.fits
    omega
  obtain ⟨arr', store, al', size', own, others⟩ := store_slot al pos free value
  refine ⟨arr', store, al', ?_, fun i inside => ?_⟩
  · rw [size', size, List.length_append]
    rfl
  · rw [List.length_append, List.length_singleton] at inside
    by_cases last : i = xs.length
    · subst last
      rw [own]
      simp
    · have old : i < xs.length := by omega
      rw [others i last, List.getElem_append_left old]
      exact slots i old

theorem daPush_cases {arr : DynArray} {xs : List (Element dataSize)} (outcome : Option Allocation)
    (value : Element dataSize) (rep : Represents arr xs) (pos : 0 < dataSize)
    (small : dataSize < 2 ^ 64) :
    (Op.push value outcome).call arr = .ok (.pointer NULL, arr) ∨
      ∃ pointer arr', pointer ≠ NULL ∧
        (Op.push value outcome).call arr = .ok (.pointer pointer, arr') ∧
        Represents arr' (xs ++ [value]) := by
  unfold Op.call
  rcases daPush_slot outcome rep pos small with ⟨_, call⟩ | ⟨grown, call, notNull, al, size, slots⟩
  · exact Or.inl (by simp only [call, if_true, pure_eq_ok])
  · obtain ⟨arr', store, rep'⟩ := represents_stored al pos size slots value
    refine Or.inr ⟨_, arr', notNull, ?_, rep'⟩
    simp only [call, if_neg notNull, store, ok_bind, pure_eq_ok]

theorem daPop_represents {arr : DynArray} {xs : List (Element dataSize)} (rep : Represents arr xs) :
    ∃ rv arr', (Op.pop : Op dataSize).call arr = .ok (.status rv, arr') ∧
      Represents arr' xs.dropLast ∧ (rv = -1 ↔ xs = []) ∧ (rv = -1 → arr' = arr) := by
  unfold Op.call daPop
  have size := rep.size
  by_cases empty : xs = []
  · subst empty
    rw [List.length_nil] at size
    refine ⟨-1, arr, ?_, rep, by simp, fun _ => rfl⟩
    simp [size]
  · have pos : 0 < xs.length := List.length_pos_iff.mpr empty
    refine ⟨1, { arr with size := arr.size - 1 }, ?_, ?_, by simp [empty], by simp⟩
    · simp only [if_neg (show ¬ arr.size < 1 by omega), pure_eq_ok]
    · have al := rep.allocated
      have fits := al.fits
      refine ⟨⟨al.element, ?_, al.room, al.bound, al.notNull⟩, ?_, ?_⟩
      · show arr.size - 1 ≤ arr.capacity
        omega
      · rw [List.length_dropLast, ← size]
      · intro i inside
        rw [List.length_dropLast] at inside
        rw [List.getElem_dropLast]
        exact rep.slots i (by omega)

theorem daClear_represents {arr : DynArray} {xs : List (Element dataSize)}
    (outcome : Option Allocation) (rep : Represents arr xs) :
    ∃ rv arr', (Op.clear outcome : Op dataSize).call arr = .ok (.status rv, arr') ∧
      Represents arr' ([] : List (Element dataSize)) := by
  unfold Op.call daClear
  refine ⟨_, _, rfl, represents_empty outcome rep.allocated.element rfl rfl ?_⟩
  show malloc outcome (sizeT (0 * arr.dataSize)) = malloc outcome 0
  rw [Nat.zero_mul, sizeT_small (by omega)]

/-! ### Runs -/

/-- What a call does to the list. -/
def Op.effect (xs : List (Element dataSize)) : Op dataSize → Returned → List (Element dataSize)
  | .push value _, returned => if returned.succeeded then xs ++ [value] else xs
  | .pop, _ => xs.dropLast
  | .clear _, _ => []
  | .get index (some value), _ => xs.set index value
  | .get _ none, _ => xs

/-- The list after calls that returned what is paired with them. -/
def expected (xs : List (Element dataSize)) : List (Op dataSize × Returned) →
    List (Element dataSize)
  | [] => xs
  | (op, returned) :: calls => expected (op.effect xs returned) calls

theorem daGet_represents {arr : DynArray} {xs : List (Element dataSize)} (index : Nat)
    (write : Option (Element dataSize)) (rep : Represents arr xs) (pos : 0 < dataSize) :
    ∃ arr', (Op.get index write).call arr = .ok (.pointer (daGet arr index), arr') ∧
      ∀ returned, Represents arr' ((Op.get index write).effect xs returned) := by
  unfold Op.call
  cases write with
  | none => exact ⟨arr, rfl, fun _ => rep⟩
  | some value =>
    by_cases inside : index < arr.size
    · have al := rep.allocated
      obtain ⟨arr', store, al', size, own, others⟩ :=
        store_slot al pos (Nat.lt_of_lt_of_le inside al.fits) value
      refine ⟨arr', ?_, fun _ => ⟨al', ?_, ?_⟩⟩
      · simp only [if_pos inside, store, ok_bind, pure_eq_ok]
      · rw [Op.effect, List.length_set, size, rep.size]
      · intro i h
        simp only [Op.effect, List.length_set] at h
        by_cases here : i = index
        · subst here
          rw [own]
          simp [Op.effect]
        · rw [others i here, rep.slots i h]
          simp [Op.effect, Ne.symm here]
    · refine ⟨arr, by simp only [if_neg inside, pure_eq_ok], fun _ => ?_⟩
      rw [Op.effect, List.set_eq_of_length_le]
      · exact rep
      · rw [← rep.size]
        omega

theorem call_represents {arr : DynArray} {xs : List (Element dataSize)} (op : Op dataSize)
    (rep : Represents arr xs) (pos : 0 < dataSize) (small : dataSize < 2 ^ 64) :
    ∃ returned arr', op.call arr = .ok (returned, arr') ∧ Represents arr' (op.effect xs returned) ∧
      ((op = .pop ∨ ∃ value outcome, op = .push value outcome) → returned.succeeded = false →
        arr' = arr) := by
  cases op with
  | push value outcome =>
    rcases daPush_cases outcome value rep pos small with call | ⟨pointer, arr', notNull, call, rep'⟩
    · exact ⟨_, _, call, rep, fun _ _ => rfl⟩
    · have succeeded : (Returned.pointer pointer).succeeded = true := by
        simp [Returned.succeeded, notNull]
      refine ⟨_, _, call, ?_, fun _ failed => ?_⟩
      · rw [Op.effect, if_pos succeeded]
        exact rep'
      · rw [succeeded] at failed
        cases failed
  | pop =>
    obtain ⟨rv, arr', call, rep', _, failed⟩ := daPop_represents rep
    exact ⟨_, _, call, rep', fun _ h => failed (by simpa [Returned.succeeded] using h)⟩
  | clear outcome =>
    obtain ⟨rv, arr', call, rep'⟩ := daClear_represents outcome rep
    exact ⟨_, _, call, rep', fun h => by simp at h⟩
  | get index write =>
    obtain ⟨arr', call, rep'⟩ := daGet_represents index write rep pos
    exact ⟨_, _, call, rep' _, fun h => by simp at h⟩

theorem run_represents {arr : DynArray} {xs : List (Element dataSize)} (ops : List (Op dataSize))
    (rep : Represents arr xs) (pos : 0 < dataSize) (small : dataSize < 2 ^ 64) :
    ∃ returned arr', run arr ops = .ok (returned, arr') ∧ returned.length = ops.length ∧
      Represents arr' (expected xs (ops.zip returned)) := by
  induction ops generalizing arr xs with
  | nil => exact ⟨[], arr, rfl, rfl, rep⟩
  | cons op ops ih =>
    obtain ⟨first, next, call, rep', _⟩ := call_represents op rep pos small
    obtain ⟨rest, last, calls, length, rep''⟩ := ih rep'
    refine ⟨first :: rest, last, ?_, by simp [length], rep''⟩
    simp only [run, call, ok_bind, calls, pure_eq_ok]

/-- After any calls the array is the list that they have built, whatever the allocator did. -/
theorem calls_represent_list (pos : 0 < dataSize) (small : dataSize < 2 ^ 64)
    (outcome : Option Allocation) (uninitialised : DynArray) (ops : List (Op dataSize)) :
    ∃ returned arr, run (daInit outcome uninitialised 0 dataSize).2 ops = .ok (returned, arr) ∧
      returned.length = ops.length ∧
      arr.size = (expected [] (ops.zip returned)).length ∧
      arr.size ≤ arr.capacity ∧ arr.capacity * dataSize ≤ arr.bytes.length ∧
      (∀ i (h : i < (expected [] (ops.zip returned)).length),
        arr.load (daGet arr i) dataSize = .ok (expected [] (ops.zip returned))[i].1) ∧
      ∀ op : Op dataSize, ∃ result arr', op.call arr = .ok (result, arr') ∧
        ((op = .pop ∨ ∃ value allocation, op = .push value allocation) →
          result.succeeded = false → arr' = arr) := by
  have start : Represents (daInit outcome uninitialised 0 dataSize).2
      ([] : List (Element dataSize)) := by
    rw [daInit, if_neg (by omega)]
    apply represents_empty outcome rfl rfl rfl
    show malloc outcome (sizeT (0 * dataSize)) = malloc outcome 0
    rw [Nat.zero_mul, sizeT_small (by omega)]
  obtain ⟨returned, arr, result, length, rep⟩ := run_represents ops start pos small
  have al := rep.allocated
  refine ⟨returned, arr, result, length, rep.size, al.fits, al.room, ?_, ?_⟩
  · intro i inside
    have lower : i < arr.capacity := by
      have fits := al.fits
      rw [rep.size] at fits
      omega
    exact load_slot al pos lower (rep.slots i inside)
  · intro op
    obtain ⟨result, arr', call, _, unchanged⟩ := call_represents op rep pos small
    exact ⟨result, arr', call, unchanged⟩

/-- Two-byte elements; the second push finds no memory, the third moves the block. -/
def sampleOps : List (Op 2) :=
  [.push ⟨[1, 2], rfl⟩ (some ⟨64, by decide, fun _ => 0⟩), .push ⟨[3, 4], rfl⟩ none,
    .push ⟨[5, 6], rfl⟩ (some ⟨128, by decide, fun _ => 9⟩), .get 0 (some ⟨[7, 8], rfl⟩)]

theorem calls_represent_list_sample : ∃ arr : DynArray,
    run (daInit none ⟨none, 0, 0, 0⟩ 0 2).2 sampleOps =
      .ok ([.pointer 64, .pointer NULL, .pointer 130, .pointer 128], arr) ∧
    arr.size = 2 ∧ arr.load (daGet arr 0) 2 = .ok [7, 8] ∧ arr.load (daGet arr 1) 2 = .ok [5, 6] := by
  obtain ⟨returned, arr, result, _, size, _, _, loads, _⟩ := calls_represent_list
    (show 0 < 2 by decide) (by decide) none ⟨none, 0, 0, 0⟩ sampleOps
  have returns : returned = [.pointer 64, .pointer NULL, .pointer 130, .pointer 128] := by
    have computed := congrArg (Except.map Prod.fst) result
    exact (Except.ok.inj computed).symm
  subst returns
  exact ⟨arr, result, size, loads 0 (by decide), loads 1 (by decide)⟩

end Tlpi.DynamicArray
