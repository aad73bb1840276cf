import TlpiExercises.C.Numbers

/-!
# lib/utils.h `getNum` and lib/get_num.c

The two conversions of a text to an `int`. `none` is a call that ends the process with a message.
A text is what stands before the terminating NUL. The base flags of get_num.h are left out.
-/

namespace Tlpi

theorem strtol_int {n : Int} (low : INT_MIN ≤ n) (high : n ≤ INT_MAX) :
    strtol (formatInt n) = ⟨n, [], false⟩ := by
  apply strtol_formatInt
  · unfold INT_MIN at low
    unfold LONG_MIN
    omega
  · unfold INT_MAX at high
    unfold LONG_MAX
    omega

namespace Utils

def getNum (numStr : List UInt8) : Option Int :=
  let result := strtol numStr
  if result.erange then none
  else if result.rest ≠ [] then none
  else some (toInt result.value)

theorem getNum_some {numStr : List UInt8} {n : Int} (h : getNum numStr = some n) :
    n = toInt (strtol numStr).value := by
  unfold getNum at h
  simp only at h
  split at h
  · cases h
  · split at h
    · cases h
    · exact (Option.some.inj h).symm

/-- At most nine characters hold at most nine digits. -/
theorem getNum_short {numStr : List UInt8} {n : Int} (short : numStr.length ≤ 9)
    (h : getNum numStr = some n) : -999999999 ≤ n ∧ n ≤ 999999999 := by
  obtain ⟨low, high⟩ := strtol_short short
  rw [getNum_some h, toInt_small]
  · omega
  · unfold INT_MIN
    omega
  · unfold INT_MAX
    omega

/-- At most nine characters of a negative number hold at most eight digits. -/
theorem getNum_low {numStr : List UInt8} {n : Int} (short : numStr.length ≤ 9)
    (h : getNum numStr = some n) : -100000000 < n := by
  obtain ⟨_, high⟩ := strtol_short short
  have low := strtol_low (k := 8) short
  rw [getNum_some h, toInt_small]
  · omega
  · unfold INT_MIN
    omega
  · unfold INT_MAX
    omega

theorem getNum_formatInt {n : Int} (low : INT_MIN ≤ n) (high : n ≤ INT_MAX) :
    getNum (formatInt n) = some n := by
  unfold getNum
  simp [strtol_int low high, toInt_small low high]

end Utils

namespace GetNum

structure Flags where
  nonneg : Bool := false
  gt0 : Bool := false

def GN_NONNEG : Flags := { nonneg := true }

def getNum (arg : List UInt8) (flags : Flags) : Option Int :=
  if arg = [] then none
  else
    let result := strtol arg
    if result.erange then none
    else if result.rest ≠ [] then none
    else if flags.nonneg ∧ result.value < 0 then none
    else if flags.gt0 ∧ result.value ≤ 0 then none
    else some result.value

def getInt (arg : List UInt8) (flags : Flags) : Option Int :=
  match getNum arg flags with
  | none => none
  | some res => if res > INT_MAX ∨ res < INT_MIN then none else some res

theorem getInt_formatInt {n : Int} (low : INT_MIN ≤ n) (high : n ≤ INT_MAX) :
    getInt (formatInt n) GN_NONNEG = if n < 0 then none else some n := by
  have some_text : formatInt n ≠ [] := by
    unfold formatInt
    split
    · simp
    · exact decimal_ne_nil _
  unfold getInt getNum
  simp only [strtol_int low high, if_neg some_text, GN_NONNEG]
  by_cases negative : n < 0
  · simp [negative]
  · have inside : ¬ (n > INT_MAX ∨ n < INT_MIN) := by omega
    simp [negative, inside]

end GetNum

end Tlpi
