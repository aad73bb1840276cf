import TlpiExercises.C.Fault
import TlpiExercises.Lib.GetNum
import TlpiExercises.Library.Buffer

/-!
# lib/utils.h `numToStr`

The digits are collected from the last to the first in a local buffer and then copied back to
front. `size_t` is `UInt64`; the copy stops where the index, taken as an int, is negative.
-/

namespace Tlpi.Utils

def digitToChar (num : Int) : UInt8 :=
  if num < 0 ∨ num > 9 then 0 else UInt8.ofNat (num + 48).toNat

/-- The size of `reverseBuf`. -/
def REVERSE_BUF : Nat := 4096

/-- The `while` loop; `reverseBuf` is what has been written so far, its length the `index`. -/
def reverseDigits (num : Int) (reverseBuf : List UInt8) : Except Fault (List UInt8) :=
  if 0 < num then
    if reverseBuf.length < REVERSE_BUF then
      reverseDigits (num.tdiv 10) (reverseBuf ++ [digitToChar (num.tmod 10)])
    else .error .outOfBounds
  else .ok reverseBuf
termination_by num.toNat
decreasing_by
  rw [Int.tdiv_eq_ediv_of_nonneg (by omega)]
  omega

def store (buf : List UInt8) (i : Nat) (c : UInt8) : Except Fault (List UInt8) :=
  match Buffer.write buf i [c] with
  | some buf => .ok buf
  | none => .error .outOfBounds

/-- The `for` loop; the list is what `reverseBuf` holds from `y` on. -/
def copyBack : List UInt8 → UInt64 → List UInt8 → Except Fault (List UInt8)
  | [], i, buf => if 0 ≤ toInt i.toNat then .error .outOfBounds else .ok buf
  | c :: rest, i, buf =>
    if 0 ≤ toInt i.toNat then do
      let buf ← store buf i.toNat c
      copyBack rest (i - 1) buf
    else .ok buf

def numToStr (num : Int) (buf : List UInt8) : Except Fault (List UInt8) := do
  let reverseBuf ← reverseDigits num []
  let index := reverseBuf.length
  let buf ← copyBack reverseBuf (UInt64.ofNat index - 1) buf
  store buf index 0

/-- The number that arrives is written with its sign, and read back. -/
structure Conforms (n : CInt) : Prop where
  written : ∀ buf : List UInt8, (formatInt n.1).length < buf.length →
    numToStr n.1 buf = .ok (formatInt n.1 ++ 0 :: buf.drop ((formatInt n.1).length + 1))
  readBack : ∀ buf : List UInt8, (formatInt n.1).length < buf.length →
    ∃ after, numToStr n.1 buf = .ok after ∧ getNum (after.takeWhile (· ≠ 0)) = some n.1

/-! ### The two loops -/

theorem digitToChar_digit {d : Nat} (small : d < 10) : digitToChar d = digitOf d := by
  have inside : ¬ ((d : Int) < 0 ∨ (d : Int) > 9) := by omega
  rw [digitToChar, if_neg inside, digitOf]
  congr 1
  omega

theorem store_at (before after : List UInt8) (old c : UInt8) :
    store (before ++ old :: after) before.length c = .ok (before ++ c :: after) := by
  have room : before.length + [c].length ≤ (before ++ old :: after).length := by simp
  rw [store, Buffer.write_eq room]
  simp

/-- The digits of `num`, the last one first; none when it is not positive. -/
theorem reverseDigits_digits (n : Nat) (reverseBuf : List UInt8)
    (room : reverseBuf.length + (Nat.digits 10 n).length ≤ REVERSE_BUF) :
    reverseDigits n reverseBuf = .ok (reverseBuf ++ (Nat.digits 10 n).map digitOf) := by
  induction n using Nat.strongRecOn generalizing reverseBuf with
  | _ n ih =>
    rw [reverseDigits]
    by_cases positive : n = 0
    · subst positive
      simp
    · have digits := Nat.digits_def' (b := 10) (by decide) (Nat.pos_of_ne_zero positive)
      rw [digits, List.length_cons] at room
      have below : reverseBuf.length < REVERSE_BUF := by omega
      have rest : ((n : Int).tdiv 10) = ((n / 10 : Nat) : Int) := by
        rw [Int.tdiv_eq_ediv_of_nonneg (by omega)]
        omega
      have last : ((n : Int).tmod 10) = ((n % 10 : Nat) : Int) := by
        rw [Int.tmod_eq_emod_of_nonneg (by omega)]
        omega
      rw [if_pos (by omega), if_pos below, rest, last,
        digitToChar_digit (Nat.mod_lt n (by decide)), ih (n / 10) (by omega), digits, List.map_cons,
        List.append_assoc, List.singleton_append]
      rw [List.length_append, List.length_singleton]
      omega

theorem reverseDigits_negative {num : Int} (negative : num ≤ 0) (reverseBuf : List UInt8) :
    reverseDigits num reverseBuf = .ok reverseBuf := by
  rw [reverseDigits, if_neg (by omega)]

theorem last_index : ¬ 0 ≤ toInt (UInt64.ofNat 0 - 1).toNat := by simp [toInt]

theorem next_index {k : Nat} (small : k ≤ REVERSE_BUF) :
    UInt64.ofNat (k + 1) - 1 = UInt64.ofNat k ∧ (UInt64.ofNat k).toNat = k ∧ 0 ≤ toInt k := by
  unfold REVERSE_BUF at small
  refine ⟨by simp, ?_, ?_⟩
  · rw [UInt64.toNat_ofNat']
    omega
  · rw [toInt_of_nonneg (by omega) (by unfold INT_MAX; omega)]
    omega

/-- The cells before the last index are filled from the last one down. -/
theorem copyBack_reverse {digits cells : List UInt8} (after : List UInt8)
    (same : cells.length = digits.length) (short : digits.length ≤ REVERSE_BUF) :
    copyBack digits (UInt64.ofNat digits.length - 1) (cells ++ after) =
      .ok (digits.reverse ++ after) := by
  induction digits generalizing cells after with
  | nil =>
    -- The index has wrapped around, and its low half is the int -1.
    obtain rfl : cells = [] := List.length_eq_zero_iff.mp same
    rw [List.length_nil, copyBack, if_neg last_index]
    rfl
  | cons c digits ih =>
    obtain ⟨before, old, rfl⟩ : ∃ before old, cells = before ++ [old] := by
      rcases List.eq_nil_or_concat cells with rfl | split
      · cases same
      · simpa using split
    have length : before.length = digits.length := by simpa using same
    rw [List.length_cons] at short ⊢
    obtain ⟨next, index, inside⟩ := next_index (k := digits.length) (by omega)
    have stored := store_at before after old c
    rw [length] at stored
    rw [next, copyBack, index, if_pos inside, List.append_assoc, List.singleton_append, stored, ok_bind,
      ih _ length (by omega), List.reverse_cons, List.append_assoc, List.singleton_append]

/-! ### The text -/

theorem formatInt_pos {n : Nat} (positive : 0 < n) :
    formatInt n = ((Nat.digits 10 n).map digitOf).reverse := by
  have nonzero : n ≠ 0 := by omega
  rw [formatInt, if_neg (by omega), Int.natAbs_natCast, decimal, if_neg nonzero, List.map_reverse]

theorem numToStr_pos {n : Nat} (positive : 0 < n) (short : (formatInt n).length ≤ REVERSE_BUF)
    {buf : List UInt8} (room : (formatInt n).length < buf.length) :
    numToStr n buf = .ok (formatInt n ++ 0 :: buf.drop ((formatInt n).length + 1)) := by
  rw [formatInt_pos positive, List.length_reverse] at *
  have collected := reverseDigits_digits n [] (by simpa using short)
  generalize (Nat.digits 10 n).map digitOf = digits at *
  have split : buf = buf.take digits.length ++ buf[digits.length] :: buf.drop (digits.length + 1) := by
    simp
  have length : (buf.take digits.length).length = digits.length :=
    List.length_take_of_le room.le
  have copied := copyBack_reverse (buf[digits.length] :: buf.drop (digits.length + 1)) length short
  rw [← split] at copied
  have terminated := store_at digits.reverse (buf.drop (digits.length + 1)) buf[digits.length] 0
  rw [List.length_reverse] at terminated
  rw [numToStr, collected, ok_bind, List.nil_append]
  dsimp only
  rw [copied, ok_bind, terminated]

/-- Without a digit the text is empty. -/
theorem numToStr_nonpos {num : Int} (negative : num ≤ 0) {c : UInt8} {buf : List UInt8} :
    numToStr num (c :: buf) = .ok (0 :: buf) := by
  have nothing : copyBack [] (UInt64.ofNat 0 - 1) (c :: buf) = .ok (c :: buf) := by
    rw [copyBack, if_neg last_index]
  rw [numToStr, reverseDigits_negative negative, ok_bind]
  dsimp only [List.length_nil]
  rw [nothing, ok_bind]
  exact store_at [] buf c 0

theorem nonzero_formatInt {n : Int} {c : UInt8} (member : c ∈ formatInt n) : c ≠ 0 := by
  rintro rfl
  unfold formatInt at member
  split at member
  · rcases List.mem_cons.mp member with minus | digit
    · cases minus
    · cases isDigit_decimal digit
  · cases isDigit_decimal member

theorem takeWhile_formatInt (n : Int) (rest : List UInt8) :
    (formatInt n ++ 0 :: rest).takeWhile (· ≠ 0) = formatInt n := by
  rw [List.takeWhile_append_of_pos fun c member => by simpa using nonzero_formatInt member]
  simp

theorem conforms_of_pos (n : CInt) (positive : 0 < n.1) : Conforms n := by
  obtain ⟨num, low, high⟩ := n
  obtain ⟨k, rfl⟩ := Int.eq_ofNat_of_zero_le positive.le
  have some_digit : 0 < k := by simpa using positive
  have short : (formatInt k).length ≤ REVERSE_BUF := by
    have eleven := formatInt_length low high
    unfold REVERSE_BUF
    omega
  refine ⟨fun buf room => numToStr_pos some_digit short room, fun buf room => ?_⟩
  refine ⟨_, numToStr_pos some_digit short room, ?_⟩
  rw [takeWhile_formatInt]
  exact getNum_formatInt low high

theorem conforms_pos {n : CInt} (conforms : Conforms n) : 0 < n.1 := by
  by_contra notPositive
  have negative : n.1 ≤ 0 := by omega
  have text := conforms.written (1 :: List.replicate (formatInt n.1).length 1) (by simp)
  rw [numToStr_nonpos negative] at text
  cases front : formatInt n.1 with
  | nil =>
    unfold formatInt at front
    split at front
    · cases front
    · exact decimal_ne_nil _ front
  | cons c rest =>
    rw [front] at text
    have first := (List.cons.inj (Except.ok.inj text)).1
    exact nonzero_formatInt (n := n.1) (by rw [front]; exact List.mem_cons_self) first.symm

/-- `numToStr` writes exactly the positive numbers. -/
theorem conforms_positive_iff (n : CInt) : Conforms n ↔ 0 < n.1 :=
  ⟨conforms_pos, conforms_of_pos n⟩

/-- -1 is written as the empty text, which `getNum` reads as 0. -/
theorem numToStr_negative_fails : ¬ ∀ n : CInt, Conforms n := by
  intro all
  have conforms := all ⟨-1, by decide, by decide⟩
  obtain ⟨after, text, value⟩ := conforms.readBack [1, 1, 1] (by decide)
  rw [numToStr_nonpos (by decide)] at text
  cases text
  exact absurd value (by decide)

end Tlpi.Utils
