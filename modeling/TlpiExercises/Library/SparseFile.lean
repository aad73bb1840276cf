import Mathlib.Data.List.GetD

/-!
# Files with holes

A file is the list of its cells, `none` where it has a hole. Reading takes holes for zeros, and
writing behind the end makes one.
-/

namespace SparseFile

variable {α : Type*}

inductive Extent (α : Type*) where
  | data (bytes : List α)
  | hole (length : Nat)

def Extent.cells : Extent α → List (Option α)
  | data bytes => bytes.map some
  | hole length => List.replicate length none

def cells (extents : List (Extent α)) : List (Option α) := extents.flatMap Extent.cells

def readAt (zero : α) (file : List (Option α)) (offset n : Nat) : List α :=
  ((file.drop offset).take n).map fun cell => cell.getD zero

def writeAt (file : List (Option α)) (offset : Nat) (bytes : List α) : List (Option α) :=
  if bytes = [] then file
  else
    (file.rightpad offset none).take offset ++ bytes.map some ++ file.drop (offset + bytes.length)

/-- The first data at or behind an offset. -/
def seekData (file : List (Option α)) (offset : Int) : Option Nat :=
  if offset < 0 then none
  else ((file.drop offset.toNat).findIdx? Option.isSome).map fun k => offset.toNat + k

/-- The first hole at or behind an offset inside the file, or the end of the file. -/
def seekHole (file : List (Option α)) (offset : Int) : Option Nat :=
  if offset < 0 ∨ file.length ≤ offset then none
  else some (offset.toNat + (file.drop offset.toNat).findIdx Option.isNone)

/-- All cells of a range are data. -/
def Data (file : List (Option α)) (first last : Nat) : Prop :=
  ∀ i, first ≤ i → i < last → ∃ a, file[i]? = some (some a)

/-- All cells of a range belong to holes. -/
def Hole (file : List (Option α)) (first last : Nat) : Prop :=
  ∀ i, first ≤ i → i < last → file[i]? = some none

/-- The file does not end with a hole. -/
def Closed (file : List (Option α)) : Prop := ∀ cell ∈ file.getLast?, cell ≠ none

variable {zero : α} {file source : List (Option α)} {offset n m : Nat}

theorem seekData_some {d : Nat} (found : seekData file offset = some d) :
    offset ≤ d ∧ Hole file offset d ∧ ∃ a, file[d]? = some (some a) := by
  unfold seekData at found
  rw [if_neg (by omega), Int.toNat_natCast] at found
  obtain ⟨k, index, rfl⟩ := Option.map_eq_some_iff.mp found
  obtain ⟨inside, here, before⟩ := List.findIdx?_eq_some_iff_getElem.mp index
  refine ⟨Nat.le_add_right _ _, fun i low high => ?_, ?_⟩
  · have earlier := before (i - offset) (by omega)
    have same : offset + (i - offset) = i := by omega
    rw [List.getElem_drop, Bool.not_eq_true, Option.isSome_eq_false_iff, Option.isNone_iff_eq_none]
      at earlier
    rw [← same, List.getElem?_eq_getElem (by rw [List.length_drop] at inside; omega), earlier]
  · rw [List.getElem_drop] at here
    obtain ⟨a, cell⟩ := Option.isSome_iff_exists.mp here
    refine ⟨a, ?_⟩
    rw [List.getElem?_eq_getElem (by rw [List.length_drop] at inside; omega), cell]

theorem seekData_none (missing : seekData file offset = none) : Hole file offset file.length := by
  unfold seekData at missing
  rw [if_neg (by omega), Int.toNat_natCast, Option.map_eq_none_iff] at missing
  intro i low high
  have cell := List.findIdx?_eq_none_iff.mp missing file[i]
    (List.mem_iff_getElem.mpr ⟨i - offset, by rw [List.length_drop]; omega, by
      rw [List.getElem_drop]
      congr
      omega⟩)
  rw [List.getElem?_eq_getElem high, Option.isSome_eq_false_iff, Option.isNone_iff_eq_none] at *
  rw [cell]

theorem seekHole_some {e : Nat} (found : seekHole file offset = some e) :
    offset ≤ e ∧ e ≤ file.length ∧ Data file offset e := by
  unfold seekHole at found
  split at found
  · cases found
  rw [Int.toNat_natCast] at found
  obtain rfl := Option.some.inj found
  have bound : (file.drop offset).findIdx Option.isNone ≤ (file.drop offset).length :=
    List.findIdx_le_length
  rw [List.length_drop] at bound
  refine ⟨Nat.le_add_right _ _, by omega, fun i low high => ?_⟩
  have cell := @List.not_of_lt_findIdx _ Option.isNone (file.drop offset) (i - offset) (by omega)
  have same : offset + (i - offset) = i := by omega
  rw [List.getElem_drop, Option.isNone_eq_false_iff] at cell
  obtain ⟨a, here⟩ := Option.isSome_iff_exists.mp cell
  refine ⟨a, ?_⟩
  rw [← same, List.getElem?_eq_getElem (by omega), here]

/-- From data on there is data ahead. -/
theorem seekHole_data {a : α} (here : file[offset]? = some (some a)) :
    ∃ e, seekHole file offset = some e ∧ offset < e := by
  obtain ⟨inside, cell⟩ := List.getElem?_eq_some_iff.mp here
  refine ⟨_, if_neg (by omega), ?_⟩
  have first : (file.drop offset).findIdx Option.isNone ≠ 0 := by
    intro none_ahead
    rw [List.drop_eq_getElem_cons inside, cell] at none_ahead
    simp [List.findIdx_cons] at none_ahead
  rw [Int.toNat_natCast]
  omega

theorem readAt_length (zero : α) (file : List (Option α)) (offset n : Nat) :
    (readAt zero file offset n).length = min n (file.length - offset) := by
  rw [readAt, List.length_map, List.length_take, List.length_drop]

theorem writeAt_length_le (file : List (Option α)) (offset : Nat) (bytes : List α) :
    (writeAt file offset bytes).length ≤ max file.length (offset + bytes.length) := by
  unfold writeAt
  split
  · exact Nat.le_max_left _ _
  · simp only [List.length_append, List.length_take, List.length_map, List.length_drop]
    omega

theorem rightpad_getD {i : Nat} : (file.rightpad n none).getD i none = file.getD i none := by
  rw [List.rightpad, List.getD_eq_getElem?_getD, List.getD_eq_getElem?_getD, List.getElem?_append]
  split
  · rfl
  · rw [List.getElem?_eq_none (l := file) (by omega), List.getElem?_replicate]
    split <;> rfl

theorem writeAt_getD {bytes : List α} {i : Nat} :
    (writeAt file offset bytes).getD i none =
      if offset ≤ i ∧ i < offset + bytes.length then bytes[i - offset]? else file.getD i none := by
  unfold writeAt
  split
  · rename_i nothing
    rw [nothing, List.length_nil, if_neg (by omega)]
  have before : ((file.rightpad offset none).take offset).length = offset := by
    rw [List.length_take, List.length_rightpad]
    omega
  rw [List.append_assoc, List.getD_eq_getElem?_getD, List.getElem?_append, before]
  by_cases low : i < offset
  · rw [if_pos low, if_neg (by omega), List.getElem?_take_of_lt low, ← List.getD_eq_getElem?_getD,
      rightpad_getD]
  rw [if_neg low, List.getElem?_append, List.length_map]
  by_cases inside : i < offset + bytes.length
  · rw [if_pos (by omega), if_pos ⟨by omega, inside⟩, List.getElem?_map,
      List.getElem?_eq_getElem (by omega)]
    rfl
  · rw [if_neg (by omega), if_neg (by omega), List.getElem?_drop, List.getD_eq_getElem?_getD]
    congr 2
    omega

theorem Closed.append {last : List (Option α)} (closed : Closed last) (nonempty : last ≠ []) :
    Closed (file ++ last) := by
  unfold Closed
  rw [List.getLast?_append, List.getLast?_eq_some_getLast nonempty, Option.some_or,
    ← List.getLast?_eq_some_getLast nonempty]
  exact closed

theorem closed_data {bytes : List α} : Closed (bytes.map some) := by
  intro cell last
  rw [List.getLast?_map] at last
  obtain ⟨a, _, rfl⟩ := Option.map_eq_some_iff.mp last
  exact Option.some_ne_none a

theorem writeAt_closed {bytes : List α} (closed : Closed file) :
    Closed (writeAt file offset bytes) := by
  unfold writeAt
  split
  · exact closed
  rename_i nonempty
  by_cases inside : offset + bytes.length < file.length
  · have kept : file.drop (offset + bytes.length) ≠ [] := by
      rw [Ne, List.drop_eq_nil_iff]
      omega
    refine Closed.append (fun cell last => ?_) kept
    rw [List.getLast?_drop, if_neg (by omega)] at last
    exact closed cell last
  · rw [List.drop_eq_nil_of_le (by omega), List.append_nil]
    exact closed_data.append (by simpa using nonempty)

/-! ### A copy in progress -/

/-- The file is the source up to `offset`, but for a hole at its end. -/
structure Agrees (file source : List (Option α)) (offset : Nat) : Prop where
  shorter : file.length ≤ offset
  inside : offset ≤ source.length
  cell : ∀ i, i < offset → source[i]? = some (file.getD i none)

theorem agrees_nil : Agrees [] source 0 := ⟨Nat.le_refl _, Nat.zero_le _, nofun⟩

theorem Agrees.skip (agrees : Agrees file source offset) (later : offset ≤ m)
    (inside : m ≤ source.length) (hole : Hole source offset m) : Agrees file source m := by
  have shorter := agrees.shorter
  refine ⟨by omega, inside, fun i before => ?_⟩
  by_cases old : i < offset
  · exact agrees.cell i old
  · rw [hole i (by omega) before, List.getD_eq_default _ _ (by omega)]

theorem Agrees.copy (zero : α) (agrees : Agrees file source offset) (inside : offset + n ≤ source.length)
    (data : Data source offset (offset + n)) :
    Agrees (writeAt file offset (readAt zero source offset n)) source (offset + n) := by
  have shorter := agrees.shorter
  have length : (readAt zero source offset n).length = n := by
    rw [readAt_length]
    omega
  refine ⟨?_, inside, fun i before => ?_⟩
  · have bound := writeAt_length_le file offset (readAt zero source offset n)
    omega
  rw [writeAt_getD, length]
  by_cases old : i < offset
  · rw [if_neg (by omega)]
    exact agrees.cell i old
  · obtain ⟨a, here⟩ := data i (by omega) before
    have same : offset + (i - offset) = i := by omega
    rw [if_pos ⟨by omega, before⟩, readAt, List.getElem?_map, List.getElem?_take_of_lt (by omega),
      List.getElem?_drop, same, here]
    rfl

theorem Agrees.complete (agrees : Agrees file source source.length) (closed : Closed source) :
    file = source := by
  have length : file.length = source.length := by
    refine Nat.le_antisymm agrees.shorter ?_
    refine Nat.not_lt.mp fun short => ?_
    have last := agrees.cell (source.length - 1) (by omega)
    rw [List.getD_eq_default _ _ (by omega), ← List.getLast?_eq_getElem?] at last
    exact closed none last rfl
  refine List.ext_getElem? fun i => ?_
  by_cases inside : i < source.length
  · rw [agrees.cell i inside, List.getD_eq_getElem _ _ (by omega),
      List.getElem?_eq_getElem (by omega)]
  · rw [List.getElem?_eq_none (by omega), List.getElem?_eq_none (by omega)]

end SparseFile
