import TlpiExercises.ThreadStorage.Posix

/-!
# basename_ts of a path in the buffer that is written

The loop copies the end of the path to the front of the buffer. From the middle of a path that starts
there on, it reads what it has written itself.
-/

namespace Tlpi.ThreadStorage

open FileSystem Pathnames

variable {buf other : Buf} {w rest : List Byte} {i j m n o y : Nat}

/-! ### The string of a buffer -/

theorem get_string (within : j < buf.string.length) : buf.get j = buf.string.bytes.getD j 0 := by
  have found := List.prefix_iff_getElem?.mp
    (List.takeWhile_prefix (fun c : Byte => decide (c ≠ 0)) (l := buf.bytes)) j within
  rw [Buf.get, List.getD_eq_getElem?_getD, found, List.getD_eq_getElem _ _ within]
  rfl

theorem string_ne (within : j < buf.string.length) : buf.get j ≠ 0 := by
  intro nul
  rw [get_string within, List.getD_eq_getElem _ _ within] at nul
  exact buf.string.nulFree (nul ▸ List.getElem_mem within)

theorem get_cells (bytes : buf.bytes = w ++ rest) (within : j < w.length) : buf.get j = w.getD j 0 := by
  rw [Buf.get, bytes, List.getD_append _ _ _ _ within]

/-! ### A path at the start of the buffer -/

/-- A copy of `y` bytes of `w` to its own front. -/
def Folded (w : List Byte) (y : Nat) (buf : Buf) : Prop :=
  ∀ j < w.length, buf.get j = if j < y ∧ 2 * j < w.length then w.getD (w.length - 1 - j) 0 else w.getD j 0

theorem Folded.step (now : Folded w y buf) (more : y + (i + 1) = w.length) (size : w.length < 256) :
    Folded w (y + 1) (buf.set y (buf.get i)) := by
  intro j within
  rw [get_set]
  have read := now i (by omega)
  by_cases here : y = j
  · subst here
    rw [if_pos ⟨rfl, by omega⟩, read]
    by_cases low : 2 * y < w.length
    · rw [if_neg (by omega), if_pos ⟨by omega, low⟩]
      congr 1
      omega
    · rw [if_pos (by omega), if_neg fun both => low both.2]
      congr 1
      omega
  · have same : (j < y + 1 ∧ 2 * j < w.length) ↔ (j < y ∧ 2 * j < w.length) := by omega
    rw [if_neg fun both => here both.1, now j within]
    simp only [same]

/-- Where no slash ends the copy, it is the second half of the path, on both sides of the middle. -/
theorem copyBase_folded (now : Folded w y buf) (more : y + i = w.length) (size : w.length < 256)
    (whole : ∀ j < w.length, (copyBase (.inside 0) i y buf).get j ≠ 0) :
    Folded w w.length (copyBase (.inside 0) i y buf) := by
  induction i generalizing y buf with
  | zero =>
    obtain rfl : y = w.length := by omega
    intro j within
    rw [copyBase, get_set, if_neg (by omega)]
    exact now j within
  | succ i ih =>
    have char : Source.char (.inside 0) buf i = buf.get i := by
      rw [Source.char, Nat.zero_add]
    rw [copyBase, char] at whole ⊢
    by_cases here : buf.get i = slash
    · rw [if_pos here] at whole
      refine absurd ?_ (whole y (by omega))
      rw [get_set, if_pos ⟨rfl, by omega⟩]
    · rw [if_neg here] at whole ⊢
      exact ih (now.step more size) (by omega) whole

theorem palindrome_iff :
    w.reverse = w ↔ ∀ j < w.length, w.getD (w.length - 1 - j) 0 = w.getD j 0 := by
  constructor
  · intro same j within
    conv_rhs => rw [← same]
    rw [List.getD_eq_getElem _ _ (by omega),
      List.getD_eq_getElem _ _ (by rw [List.length_reverse]; exact within), List.getElem_reverse]
  · intro mirror
    refine List.ext_getElem List.length_reverse fun j _ within => ?_
    have same := mirror j within
    rw [List.getD_eq_getElem _ _ (by omega), List.getD_eq_getElem _ _ within] at same
    rw [List.getElem_reverse, same]

/-- A palindrome is copied onto itself. -/
theorem copyBase_palindrome (bytes : buf.bytes = w ++ 0 :: rest) (free : slash ∉ w) (mirror : w.reverse = w)
    (more : y + i = w.length) : copyBase (.inside 0) i y buf = buf := by
  have itself (j : Nat) : buf.set j (buf.get j) = buf := by
    have cells : buf.bytes.set j (buf.bytes.getD j 0) = buf.bytes := by
      refine List.ext_getElem List.length_set fun k left right => ?_
      rw [List.getElem_set]
      split
      next same =>
        subst same
        exact List.getD_eq_getElem _ _ right
      next => rfl
    cases buf
    unfold Buf.set Buf.get
    congr
  induction i generalizing y with
  | zero =>
    obtain rfl : y = w.length := by omega
    have nul : buf.get w.length = 0 := get_eq bytes
    rw [copyBase]
    conv_lhs => rw [← nul]
    exact itself _
  | succ i ih =>
    have index : i = w.length - 1 - y := by omega
    have read : buf.get i = buf.get y := by
      rw [get_cells bytes (by omega), get_cells bytes (by omega), index]
      exact palindrome_iff.mp mirror y (by omega)
    have other : buf.get i ≠ slash := by
      intro same
      rw [get_cells bytes (by omega), List.getD_eq_getElem _ _ (by omega)] at same
      exact free (same ▸ List.getElem_mem _)
    rw [copyBase, Source.char, Nat.zero_add, if_neg other, read, itself]
    exact ih (by omega)

/-- A copy that gives the whole path from the other end on has read the second half alone, without a
slash. -/
theorem palindrome_of_copy (bytes : buf.bytes = w ++ rest) (size : w.length < 256)
    (reversed : (copyBase (.inside 0) w.length 0 buf).string.bytes = w.reverse) :
    slash ∉ w ∧ w.reverse = w := by
  have length : (copyBase (.inside 0) w.length 0 buf).string.length = w.length := by
    rw [CStr.length, reversed, List.length_reverse]
  have cell (j : Nat) (within : j < w.length) :
      (copyBase (.inside 0) w.length 0 buf).get j = w.getD (w.length - 1 - j) 0 := by
    rw [get_string (by omega), reversed,
      List.getD_eq_getElem _ _ (by rw [List.length_reverse]; exact within), List.getElem_reverse,
      List.getD_eq_getElem _ _ (by omega)]
  have start : Folded w 0 buf := by
    intro j within
    rw [if_neg (by omega)]
    exact get_cells bytes within
  have folded := copyBase_folded start (Nat.zero_add _) size fun j within => string_ne (by omega)
  have mirror (j : Nat) (within : j < w.length) (high : w.length ≤ 2 * j) :
      w.getD (w.length - 1 - j) 0 = w.getD j 0 := by
    rw [← cell j within, folded j within, if_neg (by omega)]
  constructor
  · obtain ⟨k, _, high, nul, _, apart⟩ :=
      copyBase_ends (.inside 0) buf (show 0 + w.length < 256 by omega)
    have stops : w.length ≤ k := by
      by_contra before
      exact string_ne (by omega) nul
    intro member
    obtain ⟨j, within, same⟩ := List.mem_iff_getElem.mp (List.mem_reverse.mpr member)
    rw [List.length_reverse] at within
    refine apart j (by omega) (Nat.zero_le _) ?_
    rw [get_string (by omega), reversed,
      List.getD_eq_getElem _ _ (by rw [List.length_reverse]; exact within), same]
  · refine palindrome_iff.mpr fun j within => ?_
    by_cases high : w.length ≤ 2 * j
    · exact mirror j within high
    · by_cases middle : w.length - 1 - j = j
      · rw [middle]
      · have same := mirror (w.length - 1 - j) (by omega) (by omega)
        have index : w.length - 1 - (w.length - 1 - j) = j := by omega
        rw [index] at same
        exact same.symm

/-- The string of the buffer comes out again where the path is the whole string, without a slash, and
reads the same from both ends. -/
theorem basenameInto_inside (bytes : buf.bytes = w ++ 0 :: rest) (free : 0 ∉ w) (within : o < w.length) :
    (basenameInto (toInt (w.drop o).length) (.inside o) buf).string.bytes = w ↔
      base (w.drop o) = w ∧ (w.drop o).reverse = w.drop o := by
  have size := congrArg List.length bytes
  rw [buf.size, List.length_append, List.length_cons] at size
  have count : (w.drop o).length = w.length - o := List.length_drop
  have short : (w.drop o).length ≤ 255 := by omega
  rw [basenameInto_reverse short]
  constructor
  · intro result
    have reversed : (copyBase (.inside o) (w.drop o).length 0 buf).string.bytes = w.reverse := by
      conv_rhs => rw [← result]
      exact (List.reverse_reverse _).symm
    have length : (copyBase (.inside o) (w.drop o).length 0 buf).string.length = w.length := by
      rw [CStr.length, reversed, List.length_reverse]
    obtain ⟨k, _, high, nul, _⟩ :=
      copyBase_ends (.inside o) buf (show 0 + (w.drop o).length < 256 by omega)
    have stops : w.length ≤ k := by
      by_contra before
      exact string_ne (by omega) nul
    obtain rfl : o = 0 := by omega
    rw [List.drop_zero] at reversed ⊢
    obtain ⟨apart, palindrome⟩ := palindrome_of_copy bytes (by omega) reversed
    refine ⟨?_, palindrome⟩
    refine List.rtakeWhile_eq_self_iff.mpr fun c member => decide_eq_true ?_
    rintro rfl
    exact apart member
  · rintro ⟨name, mirror⟩
    have shorter : (base (w.drop o)).length ≤ (w.drop o).length := (List.rtakeWhile_suffix _ _).length_le
    rw [name] at shorter
    obtain rfl : o = 0 := by omega
    rw [List.drop_zero] at name mirror ⊢
    have apart : slash ∉ w := name ▸ basePart_free
    rw [copyBase_palindrome bytes apart mirror (Nat.zero_add _), string_eq bytes free, mirror]

/-! ### Two buffers -/

theorem copyBase_congr (same : buf.bytes.take m = other.bytes.take m) (within : o + i < m) :
    (copyBase (.inside o) i y buf).bytes.take m = (copyBase (.inside o) i y other).bytes.take m := by
  have read {a b : Buf} (equal : a.bytes.take m = b.bytes.take m) {j : Nat} (low : j < m) :
      a.get j = b.get j := by
    rw [Buf.get, Buf.get, List.getD_eq_getElem?_getD, List.getD_eq_getElem?_getD,
      ← List.getElem?_take_of_lt low, equal, List.getElem?_take_of_lt low]
  have put {a b : Buf} (equal : a.bytes.take m = b.bytes.take m) (j : Nat) (c : Byte) :
      (a.set j c).bytes.take m = (b.set j c).bytes.take m := by
    rw [Buf.set, Buf.set, List.take_set, List.take_set, equal]
  induction i generalizing y buf other with
  | zero => exact put same y 0
  | succ i ih =>
    rw [copyBase, copyBase, Source.char, Source.char, read same (show o + i < m by omega)]
    split
    · exact put same y 0
    · exact ih (put same y _) (by omega)

theorem string_congr (same : buf.bytes.take m = other.bytes.take m) (within : j < m) (nul : buf.get j = 0)
    (inside : j < 256) : buf.string = other.string := by
  have member : 0 ∈ buf.bytes.take m := by
    refine List.mem_iff_getElem?.mpr ⟨j, ?_⟩
    have short : j < buf.bytes.length := by
      rw [buf.size]
      exact inside
    rw [List.getElem?_take_of_lt within, ← nul, Buf.get, List.getD_eq_getElem _ _ short]
    exact List.getElem?_eq_getElem short
  have front {b : Buf} (found : 0 ∈ b.bytes.take m) :
      b.string.bytes = (b.bytes.take m).takeWhile (fun c => decide (c ≠ 0)) := by
    have whole : b.string.bytes = (b.bytes.take m ++ b.bytes.drop m).takeWhile (fun c => decide (c ≠ 0)) := by
      rw [List.take_append_drop]
      rfl
    rw [whole, List.takeWhile_append, if_neg]
    intro all
    have itself := (List.takeWhile_prefix _).eq_of_length all
    rw [← itself] at found
    simpa using List.mem_takeWhile_imp found
  refine CStr.ext ?_
  rw [front member, front (same ▸ member), same]

/-- What stands behind the path plays no part. -/
theorem basenameInto_congr (same : buf.bytes.take m = other.bytes.take m) (within : o + n < m)
    (short : n ≤ 255) :
    (basenameInto (toInt n) (.inside o) buf).string = (basenameInto (toInt n) (.inside o) other).string := by
  obtain ⟨k, _, high, nul, _⟩ := copyBase_ends (.inside o) buf (show 0 + n < 256 by omega)
  refine CStr.ext ?_
  rw [basenameInto_reverse short, basenameInto_reverse short,
    string_congr (copyBase_congr same within) (by omega) nul (by omega)]

end Tlpi.ThreadStorage
