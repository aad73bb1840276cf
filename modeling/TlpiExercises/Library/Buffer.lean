import Mathlib

/-!
# Fixed buffers

Reading and writing runs of cells in a buffer, with `none` for an access that leaves it, and the
copy that a reallocation makes.
-/

namespace Buffer

variable {β : Type}

/-- The `n` cells from `i` on. -/
def read (b : List β) (i n : Nat) : Option (List β) :=
  if i + n ≤ b.length then some ((b.drop i).take n) else none

def write (b : List β) (i : Nat) (cells : List β) : Option (List β) :=
  if i + cells.length ≤ b.length then some (b.take i ++ cells ++ b.drop (i + cells.length))
  else none

/-- The old cells as far as they fit, and `junk` behind them. -/
def resize (b : List β) (n : Nat) (junk : Nat → β) : List β :=
  (List.range n).map (fun k => (b[k]?).getD (junk k))

theorem write_eq_none {b cells : List β} {i : Nat} :
    write b i cells = none ↔ b.length < i + cells.length := by
  unfold write
  split <;> simp <;> omega

theorem write_eq {b cells : List β} {i : Nat} (fits : i + cells.length ≤ b.length) :
    write b i cells = some (b.take i ++ cells ++ b.drop (i + cells.length)) := if_pos fits

theorem write_fits {b cells : List β} {i : Nat} (fits : i + cells.length ≤ b.length) :
    ∃ b', write b i cells = some b' := ⟨_, write_eq fits⟩

theorem write_room {b b' cells : List β} {i : Nat} (h : write b i cells = some b') :
    i + cells.length ≤ b.length := by
  unfold write at h
  split at h
  · assumption
  · cases h

theorem write_length {b b' cells : List β} {i : Nat} (h : write b i cells = some b') :
    b'.length = b.length := by
  have room := write_room h
  obtain rfl := Option.some.inj ((if_pos room).symm.trans h)
  simp only [List.length_append, List.length_take, List.length_drop]
  omega

theorem write_getElem? {b b' cells : List β} {i : Nat} (h : write b i cells = some b') (k : Nat) :
    b'[k]? = if i ≤ k ∧ k < i + cells.length then cells[k - i]? else b[k]? := by
  have room := write_room h
  obtain rfl := Option.some.inj ((if_pos room).symm.trans h)
  have before : (b.take i).length = i := by
    rw [List.length_take]
    omega
  rw [List.append_assoc]
  by_cases low : k < i
  · rw [if_neg (by omega), List.getElem?_append_left (by omega), List.getElem?_take_of_lt low]
  · rw [List.getElem?_append_right (by omega), before]
    by_cases inside : k < i + cells.length
    · rw [if_pos ⟨by omega, inside⟩, List.getElem?_append_left (by omega)]
    · rw [if_neg (by omega), List.getElem?_append_right (by omega), List.getElem?_drop]
      congr 1
      omega

theorem read_drop {b cells rest : List β} {i : Nat} (h : b.drop i = cells ++ rest)
    (inside : i ≤ b.length) : read b i cells.length = some cells := by
  have length := congrArg List.length h
  rw [List.length_drop, List.length_append] at length
  rw [read, if_pos (by omega), h, List.take_left]

theorem mem_of_read {b cells : List β} {i n : Nat} (h : read b i n = some cells) {cell : β}
    (member : cell ∈ cells) : cell ∈ b := by
  unfold read at h
  split at h
  · obtain rfl := Option.some.inj h
    exact List.mem_of_mem_drop (List.mem_of_mem_take member)
  · cases h

theorem read_congr {b b' : List β} {i n : Nat} (length : b'.length = b.length)
    (same : ∀ k, i ≤ k → k < i + n → b'[k]? = b[k]?) : read b' i n = read b i n := by
  unfold read
  rw [length]
  split
  · congr 1
    apply List.ext_getElem?
    intro k
    by_cases inside : k < n
    · rw [List.getElem?_take_of_lt inside, List.getElem?_take_of_lt inside, List.getElem?_drop,
        List.getElem?_drop, same (i + k) (by omega) (by omega)]
    · rw [List.getElem?_eq_none (by rw [List.length_take]; omega),
        List.getElem?_eq_none (by rw [List.length_take]; omega)]
  · rfl

theorem read_write_same {b b' cells : List β} {i : Nat} (h : write b i cells = some b') :
    read b' i cells.length = some cells := by
  have room := write_room h
  have length := write_length h
  unfold read
  rw [if_pos (by omega)]
  congr 1
  apply List.ext_getElem?
  intro k
  by_cases inside : k < cells.length
  · rw [List.getElem?_take_of_lt inside, List.getElem?_drop, write_getElem? h,
      if_pos ⟨by omega, by omega⟩, Nat.add_sub_cancel_left]
  · rw [List.getElem?_eq_none (by rw [List.length_take]; omega),
      List.getElem?_eq_none (by omega)]

theorem read_write_other {b b' cells : List β} {i j n : Nat} (h : write b i cells = some b')
    (apart : j + n ≤ i ∨ i + cells.length ≤ j) : read b' j n = read b j n := by
  apply read_congr (write_length h)
  intro k low high
  rw [write_getElem? h, if_neg (by omega)]

@[simp] theorem resize_length (b : List β) (n : Nat) (junk : Nat → β) :
    (resize b n junk).length = n := by
  simp [resize]

theorem read_resize {b : List β} {i m n : Nat} {junk : Nat → β} (old : i + m ≤ b.length)
    (new : i + m ≤ n) : read (resize b n junk) i m = read b i m := by
  unfold read
  rw [if_pos old, resize_length, if_pos new]
  congr 1
  apply List.ext_getElem?
  intro k
  by_cases inside : k < m
  · rw [List.getElem?_take_of_lt inside, List.getElem?_take_of_lt inside, List.getElem?_drop,
      List.getElem?_drop]
    have present : i + k < b.length := by omega
    have kept : i + k < n := by omega
    simp [resize, kept, present]
  · rw [List.getElem?_eq_none (by rw [List.length_take]; omega),
      List.getElem?_eq_none (by rw [List.length_take]; omega)]

theorem take_resize {b : List β} {m n : Nat} {junk : Nat → β} (old : m ≤ b.length) (new : m ≤ n) :
    (resize b n junk).take m = b.take m := by
  have same := @read_resize β b 0 m n junk (by omega) (by omega)
  unfold read at same
  rw [if_pos (by rw [resize_length]; omega), if_pos (by omega)] at same
  exact Option.some.inj same

/-- A cell that is written where the others end. -/
theorem take_write {b b' cells : List β} {i : Nat} (h : write b i cells = some b') :
    b'.take (i + cells.length) = b.take i ++ cells := by
  have room := write_room h
  obtain rfl := Option.some.inj ((write_eq room).symm.trans h)
  have length : (b.take i ++ cells).length = i + cells.length := by
    rw [List.length_append, List.length_take_of_le (by omega)]
  rw [← length, List.take_left]

end Buffer
