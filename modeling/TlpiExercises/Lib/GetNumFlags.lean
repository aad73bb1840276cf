import TlpiExercises.C.Radix
import TlpiExercises.Lib.GetNum

/-!
# lib/get_num.c

`getLong` and `getInt` with every flag of get_num.h. An argument is NULL or what stands before the
terminating NUL; a failed call ends the process with a diagnostic.
-/

namespace Tlpi.GetNumFlags

def GN_NONNEG : UInt32 := 0o1

def GN_GT_0 : UInt32 := 0o2

def GN_ANY_BASE : UInt32 := 0o100

def GN_BASE_8 : UInt32 := 0o200

def GN_BASE_16 : UInt32 := 0o400

/-- The parts of the message: `fname error (in name): msg` and a line with the offending text. -/
structure Diagnostic where
  fname : String
  name : Option (List UInt8)
  msg : String
  offending : Option (List UInt8)
  deriving DecidableEq

def gnFail (fname msg : String) (arg name : Option (List UInt8)) : Diagnostic where
  fname := fname
  name := name
  msg := msg
  offending := arg.filter (· ≠ [])

def base (flags : UInt32) : Nat :=
  if flags &&& GN_ANY_BASE ≠ 0 then 0
  else if flags &&& GN_BASE_8 ≠ 0 then 8
  else if flags &&& GN_BASE_16 ≠ 0 then 16
  else 10

def getNum (fname : String) (arg : Option (List UInt8)) (flags : UInt32) (name : Option (List UInt8)) :
    Except Diagnostic Int :=
  let text := arg.getD []
  if text = [] then .error (gnFail fname "null or empty string" arg name)
  else
    let result := strtolIn (base flags) text
    if result.erange then .error (gnFail fname "strtol() failed" arg name)
    else if result.rest ≠ [] then .error (gnFail fname "nonnumeric characters" arg name)
    else if flags &&& GN_NONNEG ≠ 0 ∧ result.value < 0 then
      .error (gnFail fname "negative value not allowed" arg name)
    else if flags &&& GN_GT_0 ≠ 0 ∧ result.value ≤ 0 then
      .error (gnFail fname "value must be > 0" arg name)
    else .ok result.value

def getLong (arg : Option (List UInt8)) (flags : UInt32) (name : Option (List UInt8)) :
    Except Diagnostic Int :=
  getNum "getLong" arg flags name

def getInt (arg : Option (List UInt8)) (flags : UInt32) (name : Option (List UInt8)) :
    Except Diagnostic Int :=
  match getNum "getInt" arg flags name with
  | .error diagnostic => .error diagnostic
  | .ok res =>
    if res > INT_MAX ∨ res < INT_MIN then .error (gnFail "getInt" "integer out of range" arg name)
    else .ok res

theorem base_small (flags : UInt32) : base flags ≤ 16 := by
  unfold base
  split_ifs <;> omega

/-- What the flags ask of a number. -/
def Allowed (flags : UInt32) (n : Int) : Prop :=
  (flags &&& GN_NONNEG ≠ 0 → 0 ≤ n) ∧ (flags &&& GN_GT_0 ≠ 0 → 0 < n)

/-- A number's way through the checks. -/
theorem getNum_numeral {flags : UInt32} {text : List UInt8} {n : Int} (fname : String)
    (name : Option (List UInt8)) (numeral : Numeral (base flags) text n) :
    getNum fname (some text) flags name =
      if n > LONG_MAX ∨ n < LONG_MIN then .error (gnFail fname "strtol() failed" (some text) name)
      else if flags &&& GN_NONNEG ≠ 0 ∧ n < 0 then
        .error (gnFail fname "negative value not allowed" (some text) name)
      else if flags &&& GN_GT_0 ≠ 0 ∧ n ≤ 0 then
        .error (gnFail fname "value must be > 0" (some text) name)
      else .ok n := by
  have nonempty : text ≠ [] := by
    obtain ⟨blanks, sign, mark, digits, radix, rfl, _, _, _, some_digit, _⟩ := numeral
    simp [some_digit]
  unfold getNum
  rw [Option.getD_some, if_neg nonempty, strtolIn_numeral (base_small flags) numeral]
  by_cases high : n > LONG_MAX
  · simp [high]
  · by_cases low : n < LONG_MIN
    · simp [high, low]
    · simp [high, low]

theorem getNum_ok {flags : UInt32} {arg name : Option (List UInt8)} {fname : String} {n : Int}
    (h : getNum fname arg flags name = .ok n) :
    ∃ text, arg = some text ∧ ∃ k, Numeral (base flags) text k := by
  unfold getNum at h
  cases arg with
  | none => cases h
  | some text =>
    rw [Option.getD_some] at h
    by_cases empty : text = []
    · rw [if_pos empty] at h
      cases h
    · rw [if_neg empty] at h
      by_cases whole : (strtolIn (base flags) text).rest = []
      · exact ⟨text, rfl, numeral_of_strtolIn empty whole⟩
      · dsimp only at h
        split at h
        · cases h
        · cases h

theorem getNum_ok_iff {flags : UInt32} {arg name : Option (List UInt8)} {fname : String} {n : Int} :
    getNum fname arg flags name = .ok n ↔
      ∃ text, arg = some text ∧ Numeral (base flags) text n ∧ LONG_MIN ≤ n ∧ n ≤ LONG_MAX ∧ Allowed flags n := by
  constructor
  · intro h
    obtain ⟨text, rfl, k, numeral⟩ := getNum_ok h
    rw [getNum_numeral fname name numeral] at h
    split at h
    · cases h
    · rename_i range
      split at h
      · cases h
      · rename_i nonneg
        split at h
        · cases h
        · rename_i positive
          cases h
          refine ⟨text, rfl, numeral, by omega, by omega, ?_, ?_⟩
          · intro set
            by_contra negative
            exact nonneg ⟨set, by omega⟩
          · intro set
            by_contra negative
            exact positive ⟨set, by omega⟩
  · rintro ⟨text, rfl, numeral, low, high, nonneg, positive⟩
    rw [getNum_numeral fname name numeral, if_neg (by omega), if_neg, if_neg]
    · rintro ⟨set, negative⟩
      have := positive set
      omega
    · rintro ⟨set, negative⟩
      have := nonneg set
      omega

theorem getLong_ok_iff {arg name : Option (List UInt8)} {flags : UInt32} {n : Int} :
    getLong arg flags name = .ok n ↔
      ∃ text, arg = some text ∧ Numeral (base flags) text n ∧ LONG_MIN ≤ n ∧ n ≤ LONG_MAX ∧ Allowed flags n :=
  getNum_ok_iff

/-- `getInt` returns a number exactly for a numeral of the flags' base that fits an `int` and that the flags
allow, and then that numeral's value. -/
theorem getInt_ok_iff (arg name : Option (List UInt8)) (flags : UInt32) (n : Int) :
    getInt arg flags name = .ok n ↔
      ∃ text, arg = some text ∧ Numeral (base flags) text n ∧ INT_MIN ≤ n ∧ n ≤ INT_MAX ∧
        (flags &&& GN_NONNEG ≠ 0 → 0 ≤ n) ∧ (flags &&& GN_GT_0 ≠ 0 → 0 < n) := by
  have inside : INT_MIN ≤ n ∧ n ≤ INT_MAX → LONG_MIN ≤ n ∧ n ≤ LONG_MAX := by
    unfold INT_MIN INT_MAX LONG_MIN LONG_MAX
    omega
  constructor
  · intro h
    unfold getInt at h
    split at h
    · cases h
    · rename_i res read
      split at h
      · cases h
      · rename_i fits
        cases h
        obtain ⟨text, same, numeral, _, _, allowed⟩ := getNum_ok_iff.mp read
        exact ⟨text, same, numeral, by omega, by omega, allowed⟩
  · rintro ⟨text, rfl, numeral, low, high, allowed⟩
    have long := inside ⟨low, high⟩
    have read : getNum "getInt" (some text) flags name = .ok n :=
      getNum_ok_iff.mpr ⟨text, rfl, numeral, long.1, long.2, allowed⟩
    unfold getInt
    rw [read]
    exact if_neg (by omega)

theorem getNum_decimal {flags : UInt32} (decimal : base flags = 10) (fname : String) (text : List UInt8)
    (name : Option (List UInt8)) :
    (getNum fname (some text) flags name).toOption =
      GetNum.getNum text { nonneg := flags &&& GN_NONNEG ≠ 0, gt0 := flags &&& GN_GT_0 ≠ 0 } := by
  unfold getNum GetNum.getNum
  simp only [Option.getD_some, decimal, strtolIn_ten, decide_eq_true_eq]
  split_ifs <;> rfl

/-- Without a base flag the two models of get_num.c agree. -/
theorem getInt_decimal {flags : UInt32} (decimal : base flags = 10) (text : List UInt8)
    (name : Option (List UInt8)) :
    (getInt (some text) flags name).toOption =
      GetNum.getInt text { nonneg := flags &&& GN_NONNEG ≠ 0, gt0 := flags &&& GN_GT_0 ≠ 0 } := by
  have same := getNum_decimal decimal "getInt" text name
  unfold getInt GetNum.getInt
  rw [← same]
  cases getNum "getInt" (some text) flags name with
  | error diagnostic => rfl
  | ok res =>
    show (if res > INT_MAX ∨ res < INT_MIN then Except.error _ else Except.ok res).toOption = _
    by_cases range : res > INT_MAX ∨ res < INT_MIN
    · rw [if_pos range]
      exact (if_pos range).symm
    · rw [if_neg range]
      exact (if_neg range).symm

end Tlpi.GetNumFlags
