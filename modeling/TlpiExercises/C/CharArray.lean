import TlpiExercises.C.Strings

/-!
# `char` arrays as strings

A `char[n]` that was filled from outside need not hold a NUL. The string functions stay inside it
as long as they stop before its end.
-/

namespace Tlpi

abbrev CharArray (n : Nat) := { bytes : List UInt8 // bytes.length = n }

namespace CharArray

variable {n : Nat}

def terminated (a : CharArray n) : Bool := a.1.contains 0

/-- The bytes before the NUL, or all of them. -/
def text (a : CharArray n) : CStr := .ofBytes a.1

/-- `strcmp(s, a)`: it leaves the array when the string goes on behind all of its bytes. -/
def strcmp (s : CStr) (a : CharArray n) : Except Fault Int :=
  if a.1.isPrefixOf s.bytes then .error .outOfBounds else .ok (Tlpi.strcmp s a.text)

def strcpy (capacity : Nat) (a : CharArray n) : Except Fault CStr :=
  if a.terminated then Tlpi.strcpy capacity a.text else .error .outOfBounds

theorem text_le (a : CharArray n) : a.text.length ≤ n :=
  (List.takeWhile_prefix _).length_le.trans_eq a.2

theorem text_length {a : CharArray n} (h : a.terminated = true) : a.text.length < n := by
  have before := List.takeWhile_prefix (fun c : UInt8 => decide (c ≠ 0)) (l := a.1)
  have short := before.length_le
  rw [a.2] at short
  apply lt_of_le_of_ne short
  intro whole
  have same := before.eq_of_length (whole.trans a.2.symm)
  have nul : (0 : UInt8) ∈ a.1 := by simpa [terminated] using h
  rw [← same] at nul
  exact a.text.nulFree nul

theorem strcpy_fits {a : CharArray n} (h : a.terminated = true) : strcpy n a = .ok a.text := by
  rw [strcpy, if_pos h, Tlpi.strcpy_fits (text_length h)]

theorem not_isPrefixOf {s : CStr} (a : CharArray n) (short : s.length < n) :
    a.1.isPrefixOf s.bytes = false := by
  apply Bool.eq_false_iff.mpr
  intro inside
  have length := (List.isPrefixOf_iff_prefix.mp inside).length_le
  rw [a.2] at length
  exact absurd length (Nat.not_le.mpr short)

theorem strcmp_short {s : CStr} (a : CharArray n) (short : s.length < n) :
    strcmp s a = .ok (Tlpi.strcmp s a.text) := by
  rw [strcmp, not_isPrefixOf a short, if_neg Bool.false_ne_true]

end CharArray

end Tlpi
