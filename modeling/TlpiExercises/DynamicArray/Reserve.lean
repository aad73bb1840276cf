import TlpiExercises.DynamicArray.Representation

/-!
# `da_reserve`, and the byte counts of `da_init` and `da_reserve`

The count is a product of two `size_t` and wraps, so that an allocation can succeed for too few bytes.
-/

namespace Tlpi.DynamicArray

/-- What `realloc` returns, and what becomes of the old block when it returns NULL. A size of zero frees
the block. -/
def reallocBlock (outcome : Option Allocation) (arr : DynArray) (n : Nat) : Option Block × Option Block :=
  if n = 0 ∧ arr.data.isSome then (none, none)
  else
    match realloc outcome arr n with
    | none => (none, arr.data)
    | some block => (some block, none)

def daReserve (outcome : Option Allocation) (arr : DynArray) (capacity : Nat) : Int × DynArray :=
  if capacity ≤ arr.capacity then (0, arr)
  else
    match reallocBlock outcome arr (sizeT (capacity * arr.dataSize)) with
    | (none, data) => (-1, { arr with data })
    | (some temp, _) => (1, { arr with data := some temp, capacity })

/-- The block has the bytes for the capacity. -/
def DynArray.HasRoom (arr : DynArray) : Prop := arr.capacity * arr.dataSize ≤ arr.bytes.length

/-- An initialisation that reports success has made an array with room. -/
def InitSound (size dataSize : Nat) : Prop :=
  ∀ outcome arr, (daInit outcome arr size dataSize).1 = 0 →
    (daInit outcome arr size dataSize).2.HasRoom ∧
      (daInit outcome arr size dataSize).2.capacity = size ∧
      (daInit outcome arr size dataSize).2.dataSize = dataSize

/-- A reservation that reports success has the room that it was asked for. One that fails changes
nothing. -/
def ReserveSound (arr : DynArray) (capacity : Nat) : Prop :=
  ∀ outcome, ((daReserve outcome arr capacity).1 ≠ -1 →
      (daReserve outcome arr capacity).2.HasRoom ∧ capacity ≤ (daReserve outcome arr capacity).2.capacity) ∧
    ((daReserve outcome arr capacity).1 = -1 → (daReserve outcome arr capacity).2 = arr)

/-- The byte count is the product, or more than can be allocated. -/
def CountExact (count dataSize : Nat) : Prop :=
  count * dataSize < 2 ^ 64 ∨ PTRDIFF_MAX < sizeT (count * dataSize)

theorem count_wraps {count dataSize : Nat} (wrong : ¬ CountExact count dataSize) :
    sizeT (count * dataSize) ≤ PTRDIFF_MAX ∧ sizeT (count * dataSize) < count * dataSize := by
  unfold CountExact at wrong
  rw [not_or] at wrong
  have wrapped : sizeT (count * dataSize) < 2 ^ 64 := Nat.mod_lt _ (Nat.two_pow_pos 64)
  exact ⟨Nat.not_lt.mp wrong.2, Nat.lt_of_lt_of_le wrapped (Nat.not_lt.mp wrong.1)⟩

theorem count_exact {count dataSize : Nat} (exact_ : CountExact count dataSize)
    (possible : sizeT (count * dataSize) ≤ PTRDIFF_MAX) :
    sizeT (count * dataSize) = count * dataSize :=
  sizeT_small (exact_.resolve_right (Nat.not_lt.mpr possible))

def someAllocation : Allocation := ⟨4096, by decide, fun _ => 0⟩

/-! ### da_init -/

theorem initSound_iff {size dataSize : Nat} (pos : 0 < dataSize) :
    InitSound size dataSize ↔ CountExact size dataSize := by
  constructor
  · intro sound
    by_contra wrong
    obtain ⟨possible, fewer⟩ := count_wraps wrong
    have call : daInit (some someAllocation) ⟨none, 0, 0, 0⟩ size dataSize =
        (0, ⟨some ⟨4096, (List.range (sizeT (size * dataSize))).map someAllocation.junk⟩,
          size, size, dataSize⟩) := by
      unfold daInit
      rw [if_neg (Nat.ne_of_gt pos), malloc_some someAllocation possible]
      rfl
    obtain ⟨room, _⟩ := sound (some someAllocation) ⟨none, 0, 0, 0⟩ (by rw [call])
    rw [call] at room
    unfold DynArray.HasRoom DynArray.bytes at room
    dsimp only at room
    rw [List.length_map, List.length_range] at room
    omega
  · intro exact_ outcome arr success
    unfold daInit at success ⊢
    rw [if_neg (Nat.ne_of_gt pos)] at success ⊢
    dsimp only at success ⊢
    cases allocated : malloc outcome (sizeT (size * dataSize)) with
    | none =>
      rw [allocated] at success
      cases success
    | some block =>
      obtain ⟨length, possible, _⟩ := malloc_length allocated
      refine ⟨?_, rfl, rfl⟩
      unfold DynArray.HasRoom DynArray.bytes
      dsimp only
      rw [length, count_exact exact_ possible]

/-! ### da_reserve -/

theorem count_pos {count dataSize : Nat} (exact_ : CountExact count dataSize) (some_element : 0 < count)
    (pos : 0 < dataSize) : sizeT (count * dataSize) ≠ 0 := by
  have product : 0 < count * dataSize := Nat.mul_pos some_element pos
  rcases exact_ with small | large
  · rw [sizeT_small small]
    exact Nat.ne_of_gt product
  · exact Nat.ne_of_gt (Nat.zero_lt_of_lt large)

/-- A block that is asked for is a block that comes, or the old one stays. -/
theorem reallocBlock_cases (outcome : Option Allocation) (arr : DynArray) {n : Nat} (some_byte : n ≠ 0) :
    reallocBlock outcome arr n = (none, arr.data) ∨
      ∃ block, reallocBlock outcome arr n = (some block, none) ∧ block.bytes.length = n ∧
        n ≤ PTRDIFF_MAX := by
  unfold reallocBlock
  rw [if_neg fun zero => some_byte zero.1]
  cases allocated : realloc outcome arr n with
  | none => exact Or.inl rfl
  | some block =>
    obtain ⟨possible, allocation, rfl⟩ := realloc_some allocated
    exact Or.inr ⟨_, rfl, Buffer.resize_length .., possible⟩

/-- Where the count has wrapped there is a block of that size, or none any more. -/
theorem daReserve_wrapped {arr : DynArray} {capacity : Nat} (larger : ¬ capacity ≤ arr.capacity)
    (possible : sizeT (capacity * arr.dataSize) ≤ PTRDIFF_MAX) :
    (arr.data.isSome ∧ daReserve (some someAllocation) arr capacity = (-1, { arr with data := none })) ∨
      ∃ block : Block, block.bytes.length = sizeT (capacity * arr.dataSize) ∧
        daReserve (some someAllocation) arr capacity = (1, { arr with data := some block, capacity }) := by
  unfold daReserve reallocBlock
  rw [if_neg larger]
  by_cases freed : sizeT (capacity * arr.dataSize) = 0 ∧ arr.data.isSome
  · rw [if_pos freed]
    exact Or.inl ⟨freed.2, rfl⟩
  · rw [if_neg freed, realloc, if_pos possible]
    exact Or.inr ⟨_, Buffer.resize_length .., rfl⟩

theorem reserveSound_iff {arr : DynArray} (pos : 0 < arr.dataSize) (room : arr.HasRoom)
    (capacity : Nat) :
    ReserveSound arr capacity ↔ capacity ≤ arr.capacity ∨ CountExact capacity arr.dataSize := by
  constructor
  · intro sound
    by_contra wrong
    rw [not_or] at wrong
    obtain ⟨possible, fewer⟩ := count_wraps wrong.2
    obtain ⟨success, failure⟩ := sound (some someAllocation)
    rcases daReserve_wrapped wrong.1 possible with ⟨allocated, call⟩ | ⟨block, length, call⟩
    · rw [call] at failure
      have gone := congrArg DynArray.data (failure rfl)
      rw [← gone] at allocated
      cases allocated
    · rw [call] at success
      obtain ⟨enough, _⟩ := success (show (1 : Int) ≠ -1 by decide)
      unfold DynArray.HasRoom DynArray.bytes at enough
      dsimp only at enough
      omega
  · intro enough outcome
    unfold daReserve
    by_cases small : capacity ≤ arr.capacity
    · rw [if_pos small]
      exact ⟨fun _ => ⟨room, small⟩, fun _ => rfl⟩
    · have exact_ := enough.resolve_left small
      have some_byte := count_pos exact_ (by omega) pos
      rw [if_neg small]
      rcases reallocBlock_cases outcome arr some_byte with call | ⟨block, call, length, possible⟩
      · rw [call]
        exact ⟨fun success => absurd rfl success, fun _ => rfl⟩
      · rw [call]
        refine ⟨fun _ => ⟨?_, Nat.le_refl capacity⟩, fun failed => ?_⟩
        · unfold DynArray.HasRoom DynArray.bytes
          dsimp only
          rw [length, count_exact exact_ possible]
        · exact absurd failed (show (1 : Int) ≠ -1 by decide)

/-! ### Both -/

/-- Success means room where the count does not wrap to a number of bytes that can be allocated. -/
theorem room_iff (size : Nat) {dataSize : Nat} (pos : 0 < dataSize) :
    (InitSound size dataSize ↔ CountExact size dataSize) ∧
      ∀ arr : DynArray, arr.dataSize = dataSize → arr.HasRoom → ∀ capacity,
        (ReserveSound arr capacity ↔ capacity ≤ arr.capacity ∨ CountExact capacity dataSize) := by
  refine ⟨initSound_iff pos, ?_⟩
  rintro arr rfl room capacity
  exact reserveSound_iff pos room capacity

theorem room_three_words : InitSound 3 8 ∧ ReserveSound ⟨none, 0, 0, 8⟩ 3 :=
  have eight : 0 < 8 := by decide
  ⟨(room_iff 3 eight).1.mpr (Or.inl (by decide)),
    ((room_iff 3 eight).2 ⟨none, 0, 0, 8⟩ rfl (Nat.zero_le _) 3).mpr (Or.inr (Or.inl (by decide)))⟩

/-- 2^61 + 1 elements of eight bytes get eight bytes. -/
theorem init_wraps : ¬ ∀ size dataSize : Nat, size < 2 ^ 64 → dataSize < 2 ^ 64 → 0 < dataSize →
    InitSound size dataSize := by
  intro all
  have sound := all (2 ^ 61 + 1) 8 (by decide) (by decide) (by decide)
  rcases (initSound_iff (by decide)).mp sound with small | large
  · exact absurd small (by decide)
  · exact absurd large (by decide)

end Tlpi.DynamicArray
