import Mathlib

/-!
# Numbers in C

`int` conversion, `%d` and `strtol` in base 10.
-/

namespace Tlpi

def INT_MAX : Int := 2 ^ 31 - 1

def INT_MIN : Int := -2 ^ 31

def LONG_MAX : Int := 2 ^ 63 - 1

def LONG_MIN : Int := -2 ^ 63

abbrev CInt := { n : Int // INT_MIN ≤ n ∧ n ≤ INT_MAX }

/-- Conversion to `int`. -/
def toInt (n : Int) : Int := Int.bmod n (2 ^ 32)

theorem toInt_small {n : Int} (low : INT_MIN ≤ n) (high : n ≤ INT_MAX) : toInt n = n := by
  unfold INT_MIN at low
  unfold INT_MAX at high
  unfold toInt
  rw [Int.bmod_eq_of_le] <;> omega

theorem toInt_of_nonneg {n : Int} (nonneg : 0 ≤ n) (high : n ≤ INT_MAX) : toInt n = n :=
  toInt_small (le_trans (by decide) nonneg) high

theorem toInt_range (n : Int) : INT_MIN ≤ toInt n ∧ toInt n ≤ INT_MAX := by
  unfold INT_MIN INT_MAX toInt
  have low := Int.le_bmod (x := n) (m := 2 ^ 32) (by decide)
  have high := Int.bmod_lt (x := n) (m := 2 ^ 32) (by decide)
  omega

theorem toInt_emod (n : Int) : toInt n % 2 ^ 32 = n % 2 ^ 32 := Int.bmod_emod

theorem toInt_toInt (n : Int) : toInt (toInt n) = toInt n :=
  toInt_small (toInt_range n).1 (toInt_range n).2

/-- A sum that was cut may be cut again. -/
theorem toInt_add (c n : Int) : toInt (toInt c + n) = toInt (c + n) := by
  unfold toInt
  exact Int.bmod_add_bmod

theorem toInt_le (n : Nat) : toInt n ≤ n := by
  by_cases small : (n : Int) ≤ INT_MAX
  · exact (toInt_of_nonneg (Int.natCast_nonneg n) small).le
  · have high := (toInt_range n).2
    omega

theorem toInt_eq_neg_one {n : Int} : toInt n = -1 ↔ (n + 1) % 2 ^ 32 = 0 := by
  unfold toInt
  rw [Int.bmod_def]
  split <;> omega

/-! ### Decimal digits -/

def isSpace (c : UInt8) : Bool := c = 32 || (9 ≤ c && c ≤ 13)

def isDigit (c : UInt8) : Bool := 48 ≤ c && c ≤ 57

def digitOf (d : Nat) : UInt8 := UInt8.ofNat (48 + d)

/-- The digits of a number, most significant first. -/
def decimal (n : Nat) : List UInt8 :=
  if n = 0 then [digitOf 0] else (Nat.digits 10 n).reverse.map digitOf

def number (digits : List UInt8) : Nat := Nat.ofDigits 10 (digits.reverse.map (fun c => c.toNat - 48))

/-- `%d`. -/
def formatInt (n : Int) : List UInt8 := if n < 0 then 45 :: decimal n.natAbs else decimal n.natAbs

theorem digitOf_toNat {d : Nat} (h : d < 10) : (digitOf d).toNat = 48 + d := by
  unfold digitOf
  rw [UInt8.toNat_ofNat']
  omega

theorem isDigit_digitOf {d : Nat} (h : d < 10) : isDigit (digitOf d) = true := by
  have value := digitOf_toNat h
  simp only [isDigit, Bool.and_eq_true, decide_eq_true_eq, UInt8.le_iff_toNat_le, value]
  constructor
  · show 48 ≤ 48 + d
    omega
  · show 48 + d ≤ 57
    omega

theorem isDigit_decimal {n : Nat} {c : UInt8} (h : c ∈ decimal n) : isDigit c = true := by
  unfold decimal at h
  split at h
  · rw [List.mem_singleton.mp h]
    rfl
  · obtain ⟨d, member, rfl⟩ := List.mem_map.mp h
    exact isDigit_digitOf (Nat.digits_lt_base (by decide) (List.mem_reverse.mp member))

theorem decimal_ne_nil (n : Nat) : decimal n ≠ [] := by
  unfold decimal
  split
  · simp
  · rename_i nonzero
    simpa [Nat.digits_eq_nil_iff_eq_zero] using nonzero

theorem decimal_length {n k : Nat} (pos : 0 < k) (small : n < 10 ^ k) : (decimal n).length ≤ k := by
  unfold decimal
  split
  · exact pos
  · rw [List.length_map, List.length_reverse]
    exact (Nat.digits_length_le_iff (by decide) n).mpr small

theorem number_decimal (n : Nat) : number (decimal n) = n := by
  unfold number decimal
  split
  · rename_i zero
    subst zero
    rfl
  · rw [← List.map_reverse, List.reverse_reverse, List.map_map]
    have digits : (Nat.digits 10 n).map ((fun c : UInt8 => c.toNat - 48) ∘ digitOf) =
        Nat.digits 10 n := by
      rw [List.map_congr_left (g := id), List.map_id]
      intro d member
      have small := Nat.digits_lt_base (by decide) member
      rw [Function.comp_apply, digitOf_toNat small, Nat.add_sub_cancel_left, id]
    rw [digits, Nat.ofDigits_digits]

theorem number_lt {digits : List UInt8} (all : ∀ c ∈ digits, isDigit c = true) :
    number digits < 10 ^ digits.length := by
  have bound := Nat.ofDigits_lt_base_pow_length (b := 10)
    (l := digits.reverse.map (fun c => c.toNat - 48)) (by decide) (by
      intro d member
      obtain ⟨c, inside, rfl⟩ := List.mem_map.mp member
      have digit := all c (List.mem_reverse.mp inside)
      simp only [isDigit, Bool.and_eq_true, decide_eq_true_eq, UInt8.le_iff_toNat_le] at digit
      have high : c.toNat ≤ 57 := digit.2
      omega)
  rwa [List.length_map, List.length_reverse] at bound

/-! ### strtol -/

/-- The number, the text from `*end` on, and whether `errno` is `ERANGE`. -/
structure Strtol where
  value : Int
  rest : List UInt8
  erange : Bool
  deriving DecidableEq

/-- The sign and the text behind it. -/
def takeSign : List UInt8 → Bool × List UInt8
  | 45 :: rest => (true, rest)
  | 43 :: rest => (false, rest)
  | text => (false, text)

/-- `strtol(text, &end, 10)`. -/
def strtol (text : List UInt8) : Strtol :=
  let (negative, unsigned) := takeSign (text.dropWhile isSpace)
  let digits := unsigned.takeWhile isDigit
  let n : Int := if negative then -(number digits : Int) else number digits
  if digits = [] then ⟨0, text, false⟩
  else if n > LONG_MAX then ⟨LONG_MAX, unsigned.dropWhile isDigit, true⟩
  else if n < LONG_MIN then ⟨LONG_MIN, unsigned.dropWhile isDigit, true⟩
  else ⟨n, unsigned.dropWhile isDigit, false⟩

/-- `atoi` is the conversion of a `strtol`. -/
def atoi (text : List UInt8) : Int := toInt (strtol text).value

theorem takeWhile_decimal {n : Nat} {rest : List UInt8} (stop : rest.takeWhile isDigit = []) :
    (decimal n ++ rest).takeWhile isDigit = decimal n := by
  rw [List.takeWhile_append_of_pos (fun c member => isDigit_decimal member), stop, List.append_nil]

theorem formatInt_free (n : Int) {c : UInt8} (other : c ≠ 45) (letter : isDigit c = false) :
    c ∉ formatInt n := by
  intro member
  unfold formatInt at member
  split at member
  · rcases List.mem_cons.mp member with same | digit
    · exact other same
    · rw [isDigit_decimal digit] at letter
      cases letter
  · rw [isDigit_decimal member] at letter
    cases letter

theorem formatInt_length {n : Int} (low : INT_MIN ≤ n) (high : n ≤ INT_MAX) :
    (formatInt n).length ≤ 11 := by
  unfold INT_MIN at low
  unfold INT_MAX at high
  have digits := decimal_length (n := n.natAbs) (k := 10) (by decide) (by omega)
  unfold formatInt
  split
  · rw [List.length_cons]
    omega
  · omega

theorem takeSign_digit {c : UInt8} {rest : List UInt8} (digit : isDigit c = true) :
    takeSign ((c :: rest).dropWhile isSpace) = (false, c :: rest) := by
  have visible : ¬ isSpace c = true := by
    simp only [isDigit, isSpace, Bool.and_eq_true, Bool.or_eq_true, decide_eq_true_eq,
      UInt8.le_iff_toNat_le, UInt8.ext_iff] at digit ⊢
    have low : 48 ≤ c.toNat := digit.1
    rintro (space | ⟨_, high⟩)
    · have : c.toNat = 32 := space
      omega
    · have : c.toNat ≤ 13 := high
      omega
  rw [List.dropWhile_cons_of_neg visible]
  unfold takeSign
  split
  · rename_i same
    rw [(List.cons.inj same).1] at digit
    cases digit
  · rename_i same
    rw [(List.cons.inj same).1] at digit
    cases digit
  · rfl

theorem takeSign_formatInt (n : Int) :
    takeSign ((formatInt n).dropWhile isSpace) = (decide (n < 0), decimal n.natAbs) := by
  unfold formatInt
  by_cases negative : n < 0
  · rw [if_pos negative, decide_eq_true negative]
    rfl
  · rw [if_neg negative, decide_eq_false negative]
    cases digits : decimal n.natAbs with
    | nil => exact absurd digits (decimal_ne_nil _)
    | cons c rest =>
      apply takeSign_digit
      apply isDigit_decimal (n := n.natAbs)
      rw [digits]
      exact List.mem_cons_self

/-- A number that fits is read back. -/
theorem strtol_formatInt {n : Int} (low : LONG_MIN ≤ n) (high : n ≤ LONG_MAX) :
    strtol (formatInt n) = ⟨n, [], false⟩ := by
  have digits : (decimal n.natAbs).takeWhile isDigit = decimal n.natAbs := by
    have all : (decimal n.natAbs ++ []).takeWhile isDigit = decimal n.natAbs :=
      takeWhile_decimal rfl
    rwa [List.append_nil] at all
  have rest : (decimal n.natAbs).dropWhile isDigit = [] := by
    apply List.dropWhile_eq_nil_iff.mpr
    intro c member
    exact isDigit_decimal member
  unfold strtol
  rw [takeSign_formatInt]
  simp only [digits, rest, if_neg (decimal_ne_nil _), number_decimal]
  by_cases negative : n < 0
  · simp only [negative, decide_true, if_true]
    have value : -(n.natAbs : Int) = n := by omega
    rw [value, if_neg (by omega), if_neg (by omega)]
  · simp only [negative, decide_false, Bool.false_eq_true, if_false]
    have value : (n.natAbs : Int) = n := by omega
    rw [value, if_neg (by omega), if_neg (by omega)]

/-- A number that does not fit is read as the largest one that does. -/
theorem strtol_decimal (n : Nat) :
    (strtol (decimal n)).value = min (n : Int) LONG_MAX ∧ (strtol (decimal n)).rest = [] := by
  have text : formatInt n = decimal n := if_neg (by omega)
  by_cases fits : (n : Int) ≤ LONG_MAX
  · rw [← text, strtol_formatInt (by unfold LONG_MIN; omega) fits]
    exact ⟨(min_eq_left fits).symm, rfl⟩
  · have digits : (decimal n).takeWhile isDigit = decimal n := by
      have all : (decimal n ++ []).takeWhile isDigit = decimal n := takeWhile_decimal rfl
      rwa [List.append_nil] at all
    have rest : (decimal n).dropWhile isDigit = [] :=
      List.dropWhile_eq_nil_iff.mpr fun c member => isDigit_decimal member
    have sign := takeSign_formatInt n
    rw [text, Int.natAbs_natCast, decide_eq_false (by omega)] at sign
    unfold strtol
    rw [sign]
    simp only [digits, rest, if_neg (decimal_ne_nil _), number_decimal, Bool.false_eq_true, if_false]
    rw [if_pos (not_le.mp fits)]
    exact ⟨(min_eq_right (not_le.mp fits).le).symm, rfl⟩

theorem takeSign_length (text : List UInt8) : (takeSign text).2.length ≤ text.length := by
  unfold takeSign
  split
  · exact Nat.le_succ _
  · exact Nat.le_succ _
  · exact le_rfl

theorem strtol_short {text : List UInt8} {k : Nat} (short : text.length ≤ k) :
    -(10 ^ k : Int) < (strtol text).value ∧ (strtol text).value < 10 ^ k := by
  have all : ∀ c ∈ (takeSign (text.dropWhile isSpace)).2.takeWhile isDigit, isDigit c = true :=
    fun c member => List.mem_takeWhile_imp member
  have below := number_lt all
  have length : ((takeSign (text.dropWhile isSpace)).2.takeWhile isDigit).length ≤ k := by
    have digits := (List.takeWhile_sublist (l := (takeSign (text.dropWhile isSpace)).2) isDigit).length_le
    have sign := takeSign_length (text.dropWhile isSpace)
    have space := (List.dropWhile_sublist (l := text) isSpace).length_le
    omega
  have powers : 10 ^ ((takeSign (text.dropWhile isSpace)).2.takeWhile isDigit).length ≤ 10 ^ k :=
    Nat.pow_le_pow_right (by decide) length
  have bound : (number ((takeSign (text.dropWhile isSpace)).2.takeWhile isDigit) : Int) < 10 ^ k := by
    exact_mod_cast below.trans_le powers
  have pos : (0 : Int) < 10 ^ k := by positivity
  unfold strtol LONG_MAX LONG_MIN
  generalize takeSign (text.dropWhile isSpace) = signed at *
  obtain ⟨negative, unsigned⟩ := signed
  dsimp only at bound ⊢
  by_cases noDigits : unsigned.takeWhile isDigit = []
  · rw [if_pos noDigits]
    refine ⟨?_, pos⟩
    show -(10 ^ k : Int) < 0
    omega
  · rw [if_neg noDigits]
    cases negative with
    | false =>
      simp only [Bool.false_eq_true, if_false]
      split_ifs <;> dsimp only <;> omega
    | true =>
      simp only [if_true]
      split_ifs <;> dsimp only <;> omega

theorem takeSign_negative {text : List UInt8} (negative : (takeSign text).1 = true) :
    (takeSign text).2.length + 1 = text.length := by
  unfold takeSign at negative ⊢
  split
  · rfl
  · simp at negative
  · rename_i minus plus
    split at negative
    · exact absurd rfl (minus _)
    · simp at negative
    · simp at negative

theorem strtol_low {text : List UInt8} {k : Nat} (short : text.length ≤ k + 1) :
    -(10 ^ k : Int) < (strtol text).value := by
  have pos : (0 : Int) < 10 ^ k := by positivity
  have all : ∀ c ∈ (takeSign (text.dropWhile isSpace)).2.takeWhile isDigit, isDigit c = true :=
    fun c member => List.mem_takeWhile_imp member
  have below := number_lt all
  have space := (List.dropWhile_sublist (l := text) isSpace).length_le
  have sign : (takeSign (text.dropWhile isSpace)).1 = true → _ := takeSign_negative
  unfold strtol LONG_MAX LONG_MIN
  generalize takeSign (text.dropWhile isSpace) = signed at *
  obtain ⟨negative, unsigned⟩ := signed
  dsimp only at below sign ⊢
  cases negative with
  | false =>
    simp only [Bool.false_eq_true, if_false]
    split_ifs <;> dsimp only <;> omega
  | true =>
    have digits := (List.takeWhile_sublist (l := unsigned) isDigit).length_le
    have powers : 10 ^ (unsigned.takeWhile isDigit).length ≤ 10 ^ k := by
      apply Nat.pow_le_pow_right (by decide)
      have length := sign rfl
      omega
    have bound : (number (unsigned.takeWhile isDigit) : Int) < 10 ^ k := by
      exact_mod_cast below.trans_le powers
    simp only [if_true]
    split_ifs <;> dsimp only <;> omega

end Tlpi
