import TlpiExercises.C.Numbers

/-!
# strtol in any base

The base of C23: 0 stands for what the text's prefix says, `0b`, `0x`, `0` or none.
-/

namespace Tlpi

/-- What a digit or a letter stands for. -/
def digitValue (c : UInt8) : Option Nat :=
  if 48 ≤ c ∧ c ≤ 57 then some (c.toNat - 48)
  else if 97 ≤ c ∧ c ≤ 122 then some (c.toNat - 87)
  else if 65 ≤ c ∧ c ≤ 90 then some (c.toNat - 55)
  else none

def isDigitIn (base : Nat) (c : UInt8) : Bool := (digitValue c).any (· < base)

def numberIn (base : Nat) (digits : List UInt8) : Nat :=
  digits.foldl (fun n c => n * base + (digitValue c).getD 0) 0

/-- The base of the digits and the text they begin. `0x` and `0b` need a digit of their base behind them. -/
def takeBase (base : Nat) : List UInt8 → Nat × List UInt8
  | 48 :: x :: c :: rest =>
    if (base = 0 ∨ base = 16) ∧ (x = 120 ∨ x = 88) ∧ isDigitIn 16 c then (16, c :: rest)
    else if (base = 0 ∨ base = 2) ∧ (x = 98 ∨ x = 66) ∧ isDigitIn 2 c then (2, c :: rest)
    else (if base = 0 then 8 else base, 48 :: x :: c :: rest)
  | 48 :: rest => (if base = 0 then 8 else base, 48 :: rest)
  | text => (if base = 0 then 10 else base, text)

/-- `strtol(text, &end, base)`. -/
def strtolIn (base : Nat) (text : List UInt8) : Strtol :=
  let (negative, unsigned) := takeSign (text.dropWhile isSpace)
  let (radix, based) := takeBase base unsigned
  let digits := based.takeWhile (isDigitIn radix)
  let n : Int := if negative then -(numberIn radix digits : Int) else numberIn radix digits
  if digits = [] then ⟨0, text, false⟩
  else if n > LONG_MAX then ⟨LONG_MAX, based.dropWhile (isDigitIn radix), true⟩
  else if n < LONG_MIN then ⟨LONG_MIN, based.dropWhile (isDigitIn radix), true⟩
  else ⟨n, based.dropWhile (isDigitIn radix), false⟩

example : strtolIn 0 [32, 45, 48, 120, 49, 102] = ⟨-31, [], false⟩ := by decide

/-! ### What a number looks like -/

/-- The digits `digits` of base `radix` behind the prefix `mark`, where `base` allows it. -/
inductive Marked : Nat → List UInt8 → List UInt8 → Nat → Prop
  | plain {base : Nat} (digits : List UInt8) : 0 < base → Marked base [] digits base
  | hex {base : Nat} {x : UInt8} (digits : List UInt8) :
      base = 0 ∨ base = 16 → x = 120 ∨ x = 88 → Marked base [48, x] digits 16
  | binary {base : Nat} {x : UInt8} (digits : List UInt8) :
      base = 0 ∨ base = 2 → x = 98 ∨ x = 66 → Marked base [48, x] digits 2
  | octal (digits : List UInt8) : Marked 0 [] (48 :: digits) 8
  | decimal {c : UInt8} (digits : List UInt8) : c ≠ 48 → Marked 0 [] (c :: digits) 10

/-- A number of magnitude `m` behind a sign. -/
inductive Signed (m : Nat) : List UInt8 → Int → Prop
  | bare : Signed m [] m
  | plus : Signed m [43] m
  | minus : Signed m [45] (-m)

/-- A text that is a number and nothing else: blanks, a sign, a prefix and digits. -/
def Numeral (base : Nat) (text : List UInt8) (n : Int) : Prop :=
  ∃ blanks sign mark digits radix, text = blanks ++ (sign ++ (mark ++ digits)) ∧
    (∀ c ∈ blanks, isSpace c = true) ∧ Signed (numberIn radix digits) sign n ∧
    Marked base mark digits radix ∧ digits ≠ [] ∧ ∀ c ∈ digits, isDigitIn radix c = true

theorem isDigitIn_iff {base : Nat} {c : UInt8} :
    isDigitIn base c = true ↔ ∃ d, digitValue c = some d ∧ d < base := by
  unfold isDigitIn
  cases digitValue c <;> simp

theorem digitValue_range {c : UInt8} {d : Nat} (value : digitValue c = some d) :
    48 ≤ c.toNat ∧ c.toNat ≤ 57 ∧ d < 10 ∨ 65 ≤ c.toNat ∧ 10 ≤ d := by
  unfold digitValue at value
  simp only [UInt8.le_iff_toNat_le] at value
  have low : (48 : UInt8).toNat = 48 := rfl
  have nine : (57 : UInt8).toNat = 57 := rfl
  have a : (97 : UInt8).toNat = 97 := rfl
  have upper : (65 : UInt8).toNat = 65 := rfl
  split at value
  · cases value
    omega
  · split at value
    · cases value
      omega
    · split at value
      · cases value
        omega
      · cases value

/-- No digit is a blank or a sign. -/
theorem digit_visible {base : Nat} {c : UInt8} (digit : isDigitIn base c = true) :
    isSpace c = false ∧ c ≠ 45 ∧ c ≠ 43 := by
  obtain ⟨d, value, _⟩ := isDigitIn_iff.mp digit
  have range := digitValue_range value
  refine ⟨?_, ?_, ?_⟩
  · by_contra blank
    simp only [isSpace, Bool.not_eq_false, Bool.or_eq_true, Bool.and_eq_true, decide_eq_true_eq,
      UInt8.le_iff_toNat_le] at blank
    rcases blank with rfl | ⟨_, high⟩
    · have space : (32 : UInt8).toNat = 32 := rfl
      omega
    · have last : (13 : UInt8).toNat = 13 := rfl
      omega
  · rintro rfl
    have minus : (45 : UInt8).toNat = 45 := rfl
    omega
  · rintro rfl
    have plus : (43 : UInt8).toNat = 43 := rfl
    omega

theorem letters_not_digits {base : Nat} {c : UInt8} (digit : isDigitIn base c = true) :
    (base ≤ 16 → c ≠ 120 ∧ c ≠ 88) ∧ (base ≤ 8 → c ≠ 98 ∧ c ≠ 66) := by
  obtain ⟨d, value, small⟩ := isDigitIn_iff.mp digit
  constructor
  · intro low
    constructor
    · rintro rfl
      have same : some 33 = some d := value
      cases same
      omega
    · rintro rfl
      have same : some 33 = some d := value
      cases same
      omega
  · intro low
    constructor
    · rintro rfl
      have same : some 11 = some d := value
      cases same
      omega
    · rintro rfl
      have same : some 11 = some d := value
      cases same
      omega

/-! ### Reading a number -/

theorem takeSign_signed {m : Nat} {sign : List UInt8} {n : Int} {c : UInt8} (rest : List UInt8)
    (signed : Signed m sign n) (digit : c ≠ 45 ∧ c ≠ 43) :
    ∃ negative, takeSign (sign ++ c :: rest) = (negative, c :: rest) ∧
      n = if negative then -(m : Int) else m := by
  cases signed with
  | bare =>
    refine ⟨false, ?_, rfl⟩
    unfold takeSign
    split
    · rename_i same
      exact absurd (List.cons.inj same).1 digit.1
    · rename_i same
      exact absurd (List.cons.inj same).1 digit.2
    · rfl
  | plus => exact ⟨false, rfl, rfl⟩
  | minus => exact ⟨true, rfl, rfl⟩

/-- A base of its own takes the text as it stands when no digit of it is a prefix letter. -/
theorem takeBase_plain {base : Nat} {digits : List UInt8} (pos : 0 < base) (small : base ≤ 16)
    (all : ∀ c ∈ digits, isDigitIn base c = true) : takeBase base digits = (base, digits) := by
  have nonzero : base ≠ 0 := by omega
  unfold takeBase
  split
  · rename_i x c rest
    have letters := letters_not_digits (all x (by simp))
    rw [if_neg, if_neg, if_neg nonzero]
    · rintro ⟨two | two, letter, _⟩
      · exact nonzero two
      · have other := letters.2 (by omega)
        rcases letter with same | same
        · exact other.1 same
        · exact other.2 same
    · rintro ⟨_, letter, _⟩
      have other := letters.1 small
      rcases letter with same | same
      · exact other.1 same
      · exact other.2 same
  · rw [if_neg nonzero]
  · rw [if_neg nonzero]

theorem takeBase_octal {digits : List UInt8} (all : ∀ c ∈ digits, isDigitIn 8 c = true) :
    takeBase 0 (48 :: digits) = (8, 48 :: digits) := by
  unfold takeBase
  split
  · rename_i x c rest same
    have member : x ∈ digits := by
      rw [(List.cons.inj same).2]
      exact List.mem_cons_self
    have letters := letters_not_digits (all x member)
    rw [if_neg, if_neg, if_pos rfl, same]
    · rintro ⟨_, letter, _⟩
      have other := letters.2 (by omega)
      rcases letter with eq | eq
      · exact other.1 eq
      · exact other.2 eq
    · rintro ⟨_, letter, _⟩
      have other := letters.1 (by omega)
      rcases letter with eq | eq
      · exact other.1 eq
      · exact other.2 eq
  · rename_i same
    rw [if_pos rfl, same]
  · rename_i none
    exact absurd rfl (none digits)

theorem takeBase_marked {base radix : Nat} {mark digits : List UInt8} (small : base ≤ 16)
    (marked : Marked base mark digits radix) (some_digit : digits ≠ [])
    (all : ∀ c ∈ digits, isDigitIn radix c = true) : takeBase base (mark ++ digits) = (radix, digits) := by
  cases marked with
  | plain _ pos => exact takeBase_plain pos small all
  | hex _ base16 letter =>
    obtain ⟨c, rest, rfl⟩ := List.exists_cons_of_ne_nil some_digit
    have digit := all c List.mem_cons_self
    show takeBase base (48 :: _ :: c :: rest) = _
    unfold takeBase
    exact if_pos ⟨base16, letter, digit⟩
  | binary _ base2 letter =>
    obtain ⟨c, rest, rfl⟩ := List.exists_cons_of_ne_nil some_digit
    have digit := all c List.mem_cons_self
    show takeBase base (48 :: _ :: c :: rest) = _
    unfold takeBase
    refine (if_neg ?_).trans (if_pos ⟨base2, letter, digit⟩)
    intro hex
    have other := hex.2.1
    rcases letter with rfl | rfl <;> simp at other
  | octal rest => exact takeBase_octal fun c member => all c (List.mem_cons_of_mem _ member)
  | decimal rest other =>
    unfold takeBase
    split
    · rename_i same
      exact absurd (List.cons.inj same).1 other
    · rename_i same
      exact absurd (List.cons.inj same).1 other
    · rfl

/-- The prefix that was taken is one the base allows. -/
theorem marked_takeBase {base radix : Nat} {text digits : List UInt8}
    (taken : takeBase base text = (radix, digits)) (some_digit : digits ≠ []) :
    ∃ mark, text = mark ++ digits ∧ Marked base mark digits radix := by
  unfold takeBase at taken
  split at taken
  · rename_i x c rest
    split at taken
    · rename_i cond
      cases taken
      exact ⟨[48, x], rfl, .hex _ cond.1 cond.2.1⟩
    · split at taken
      · rename_i cond
        cases taken
        exact ⟨[48, x], rfl, .binary _ cond.1 cond.2.1⟩
      · cases taken
        refine ⟨[], rfl, ?_⟩
        split
        · rename_i zero
          subst zero
          exact .octal _
        · exact .plain _ (by omega)
  · cases taken
    refine ⟨[], rfl, ?_⟩
    split
    · rename_i zero
      subst zero
      exact .octal _
    · exact .plain _ (by omega)
  · rename_i none
    cases taken
    refine ⟨[], rfl, ?_⟩
    obtain ⟨c, rest, rfl⟩ := List.exists_cons_of_ne_nil some_digit
    split
    · rename_i zero
      subst zero
      refine .decimal _ ?_
      rintro rfl
      exact none rest rfl
    · exact .plain _ (by omega)

theorem signed_takeSign (text : List UInt8) (m : Nat) :
    ∃ sign, text = sign ++ (takeSign text).2 ∧
      Signed m sign (if (takeSign text).1 then -(m : Int) else m) := by
  unfold takeSign
  split
  · exact ⟨[45], rfl, .minus⟩
  · exact ⟨[43], rfl, .plus⟩
  · exact ⟨[], rfl, .bare⟩

/-- A number is read whole, and what does not fit becomes the nearest `long`. -/
theorem strtolIn_numeral {base : Nat} {text : List UInt8} {n : Int} (small : base ≤ 16)
    (numeral : Numeral base text n) :
    strtolIn base text = if n > LONG_MAX then ⟨LONG_MAX, [], true⟩
      else if n < LONG_MIN then ⟨LONG_MIN, [], true⟩ else ⟨n, [], false⟩ := by
  obtain ⟨blanks, sign, mark, digits, radix, rfl, spaces, signed, marked, some_digit, all⟩ := numeral
  have based := takeBase_marked small marked some_digit all
  have first : ∃ c rest, mark ++ digits = c :: rest ∧ isSpace c = false ∧ c ≠ 45 ∧ c ≠ 43 := by
    obtain ⟨d, rest, rfl⟩ := List.exists_cons_of_ne_nil some_digit
    have shown := digit_visible (all d List.mem_cons_self)
    cases marked with
    | hex => exact ⟨48, _, rfl, by decide⟩
    | binary => exact ⟨48, _, rfl, by decide⟩
    | plain => exact ⟨d, rest, rfl, shown⟩
    | octal => exact ⟨_, _, rfl, shown⟩
    | decimal => exact ⟨_, _, rfl, shown⟩
  obtain ⟨c, rest, head, visible, unsigned⟩ := first
  have skipped : (blanks ++ (sign ++ c :: rest)).dropWhile isSpace = sign ++ c :: rest := by
    rw [List.dropWhile_append_of_pos spaces]
    cases signed with
    | bare => exact List.dropWhile_cons_of_neg (by simp [visible])
    | plus => rfl
    | minus => rfl
  obtain ⟨negative, taken, value⟩ := takeSign_signed rest signed unsigned
  have whole : digits.takeWhile (isDigitIn radix) = digits := List.takeWhile_eq_self_iff.mpr all
  have nothing : digits.dropWhile (isDigitIn radix) = [] := List.dropWhile_eq_nil_iff.mpr all
  unfold strtolIn
  rw [head] at based ⊢
  simp only [skipped, taken, based, whole, nothing, if_neg some_digit]
  rw [← value]

/-- What is read whole is a number. -/
theorem numeral_of_strtolIn {base : Nat} {text : List UInt8} (nonempty : text ≠ [])
    (whole : (strtolIn base text).rest = []) : ∃ n, Numeral base text n := by
  obtain ⟨sign, split_sign, signed⟩ := signed_takeSign (text.dropWhile isSpace)
    (numberIn (takeBase base (takeSign (text.dropWhile isSpace)).2).1
      (takeBase base (takeSign (text.dropWhile isSpace)).2).2)
  unfold strtolIn at whole
  generalize takeSign (text.dropWhile isSpace) = unsigned at *
  cases taken : takeBase base unsigned.2 with | mk radix digits =>
  simp only [taken] at signed whole
  by_cases none : digits.takeWhile (isDigitIn radix) = []
  · rw [if_pos none] at whole
    exact absurd whole nonempty
  · rw [if_neg none] at whole
    have rest : digits.dropWhile (isDigitIn radix) = [] := by
      split_ifs at whole
      all_goals exact whole
    have all := List.dropWhile_eq_nil_iff.mp rest
    have some_digit : digits ≠ [] := by
      rintro rfl
      exact none rfl
    obtain ⟨mark, split_mark, marked⟩ := marked_takeBase taken some_digit
    refine ⟨_, text.takeWhile isSpace, sign, mark, digits, radix, ?_, ?_, signed, marked, some_digit, all⟩
    · rw [← split_mark, ← split_sign, List.takeWhile_append_dropWhile]
    · intro c member
      exact List.mem_takeWhile_imp member

/-- A text is one number at most. -/
theorem numeral_unique {base : Nat} {text : List UInt8} {n k : Int} (small : base ≤ 16)
    (one : Numeral base text n) (other : Numeral base text k)
    (fits : LONG_MIN ≤ n ∧ n ≤ LONG_MAX) : n = k := by
  have same := (strtolIn_numeral small one).symm.trans (strtolIn_numeral small other)
  rw [if_neg (by omega), if_neg (by omega)] at same
  split at same
  · cases same
  · split at same
    · cases same
    · exact congrArg Strtol.value same

/-! ### Base 10 -/

theorem digitValue_digit {c : UInt8} (digit : isDigit c = true) : digitValue c = some (c.toNat - 48) := by
  simp only [isDigit, Bool.and_eq_true, decide_eq_true_eq] at digit
  exact if_pos digit

theorem isDigitIn_ten : isDigitIn 10 = isDigit := by
  funext c
  rw [Bool.eq_iff_iff, isDigitIn_iff]
  constructor
  · rintro ⟨d, value, small⟩
    have range := digitValue_range value
    have low : (48 : UInt8).toNat = 48 := rfl
    have nine : (57 : UInt8).toNat = 57 := rfl
    simp only [isDigit, Bool.and_eq_true, decide_eq_true_eq, UInt8.le_iff_toNat_le]
    omega
  · intro digit
    refine ⟨_, digitValue_digit digit, ?_⟩
    have range := digitValue_range (digitValue_digit digit)
    simp only [isDigit, Bool.and_eq_true, decide_eq_true_eq, UInt8.le_iff_toNat_le] at digit
    have high : c.toNat ≤ 57 := digit.2
    omega

theorem takeBase_ten (text : List UInt8) : takeBase 10 text = (10, text) := by
  unfold takeBase
  split
  · simp
  · simp
  · simp

theorem numberIn_ten {digits : List UInt8} (all : ∀ c ∈ digits, isDigit c = true) :
    numberIn 10 digits = number digits := by
  induction digits using List.reverseRecOn with
  | nil => rfl
  | append_singleton digits c ih =>
    have before := ih fun d member => all d (List.mem_append_left _ member)
    have last := digitValue_digit (all c (List.mem_append_right _ List.mem_cons_self))
    unfold numberIn at before ⊢
    unfold number at before ⊢
    rw [List.foldl_append, before, List.reverse_append]
    simp only [List.foldl_cons, List.foldl_nil, last, Option.getD_some, List.reverse_singleton,
      List.singleton_append, List.map_cons, Nat.ofDigits_cons]
    omega

theorem strtolIn_ten (text : List UInt8) : strtolIn 10 text = strtol text := by
  have all : ∀ c ∈ (takeSign (text.dropWhile isSpace)).2.takeWhile isDigit, isDigit c = true :=
    fun c member => List.mem_takeWhile_imp member
  unfold strtolIn strtol
  simp only [takeBase_ten, isDigitIn_ten, numberIn_ten all]

end Tlpi
