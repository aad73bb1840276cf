import TlpiExercises.TimerFormat.Model
import TlpiExercises.Library.Fields

/-!
# What itimerspecFromStr reads

The first colon parts the string and the first slash parts each half, so that the times of a string in the
documented format come back.
-/

namespace Tlpi.TimerFormat

open Fields

variable {c : UInt8} {u v w memory : List UInt8}

theorem scan_before (other : c ≠ 0) (free : 0 ∉ u) :
    scan c (u ++ 0 :: v) = .ok (if c ∈ u then some (before c u).length else none) := by
  induction u with
  | nil => simp [scan, Ne.symm other]
  | cons b u ih =>
    obtain ⟨nonzero, free⟩ := not_or.mp (List.mem_cons.not.mp free)
    by_cases found : b = c
    · subst found
      simp [scan, before_sep]
    · simp only [List.cons_append, scan, found, if_false, Ne.symm nonzero, ih free, ok_bind,
        pure_eq_ok, before_cons found, List.mem_cons, Ne.symm found, false_or]
      split <;> rfl

/-- The string that starts behind `w`. -/
theorem strchr_at (other : c ≠ 0) (free : 0 ∉ u) : strchr (w ++ (u ++ 0 :: v)) w.length c =
    .ok (if c ∈ u then some (w.length + (before c u).length) else none) := by
  unfold strchr
  rw [List.drop_left, scan_before other free, ok_bind, pure_eq_ok]
  split <;> rfl

theorem atoiAt_at (free : 0 ∉ u) : atoiAt (w ++ (u ++ 0 :: v)) w.length = .ok (atoi u) := by
  unfold atoiAt
  rw [List.drop_left, if_pos (by simp), List.takeWhile_append_of_pos]
  · simp
  · exact fun b member => decide_eq_true fun zero => free (zero ▸ member)

theorem split_at (found : c ∈ u) : u = before c u ++ c :: (after c u).tail := by
  have whole : before c u ++ after c u = u := before_append_after u
  cases rest : after c u with
  | nil =>
    rw [rest, List.append_nil] at whole
    rw [← whole] at found
    exact absurd found (before_free u)
  | cons d tail =>
    have head : d = c := after_head rest
    rw [rest, head] at whole
    exact whole.symm

theorem after_absent (absent : c ∉ u) : after c u = [] := by
  have whole : before c u ++ after c u = u := before_append_after u
  rw [before_eq_self absent] at whole
  exact List.self_eq_append_right.mp whole.symm

theorem cut_at (x : List UInt8) (d : UInt8) (y : List UInt8) :
    cut (w ++ (x ++ d :: y)) (some (w.length + x.length)) = .ok (w ++ (x ++ 0 :: y)) := by
  have inside : w.length + x.length < (w ++ (x ++ d :: y)).length := by simp
  show (if w.length + x.length < _ then _ else _) = _
  rw [if_pos inside]
  simp

def seconds (text : List UInt8) : Timespec :=
  ⟨atoi (before SLASH text), atoi (after SLASH text).tail⟩

/-- Reading one half leaves what stands behind it. -/
theorem timespecAt_seconds (free : 0 ∉ u) : ∃ x : List UInt8, x.length = u.length ∧
    timespecAt (w ++ (u ++ 0 :: v)) w.length = .ok (seconds u, w ++ (x ++ 0 :: v)) := by
  unfold timespecAt seconds
  rw [strchr_at (by decide) free, ok_bind]
  by_cases slash : SLASH ∈ u
  · have parts := split_at slash
    have firstFree : 0 ∉ before SLASH u := fun zero => free (by rw [parts]; simp [zero])
    have secondFree : 0 ∉ (after SLASH u).tail := fun zero => free (by rw [parts]; simp [zero])
    refine ⟨before SLASH u ++ 0 :: (after SLASH u).tail, ?_, ?_⟩
    · conv_rhs => rw [parts]
      simp
    · have whole : u ++ 0 :: v = before SLASH u ++ SLASH :: ((after SLASH u).tail ++ 0 :: v) := by
        conv_lhs => rw [parts]
        simp
      have second : w.length + (before SLASH u).length + 1 = (w ++ (before SLASH u ++ [0])).length := by
        simp [Nat.add_assoc]
      have again : w ++ (before SLASH u ++ 0 :: ((after SLASH u).tail ++ 0 :: v)) =
          (w ++ (before SLASH u ++ [0])) ++ ((after SLASH u).tail ++ 0 :: v) := by simp
      simp only [if_pos slash]
      rw [whole, cut_at, ok_bind, atoiAt_at firstFree, ok_bind, again, second, atoiAt_at secondFree]
      simp
  · refine ⟨u, rfl, ?_⟩
    have none : after SLASH u = [] := after_absent slash
    simp only [if_neg slash, cut, ok_bind, atoiAt_at free, pure_eq_ok, before_eq_self slash, none]
    rfl

/-- The function never leaves its copy. What has no colon has no interval. -/
theorem itimerspecFromStr_seconds (str : CStr) : itimerspecFromStr str =
    .ok ⟨seconds (before COLON str.bytes), seconds (after COLON str.bytes).tail⟩ := by
  have free := str.nulFree
  have found : strchr (str.bytes ++ [0]) 0 COLON = _ := strchr_at (w := []) (v := []) (by decide) free
  unfold itimerspecFromStr
  dsimp only
  rw [found, ok_bind]
  by_cases colon : COLON ∈ str.bytes
  · have parts := split_at colon
    have firstFree : 0 ∉ before COLON str.bytes := fun zero => free (by rw [parts]; simp [zero])
    have secondFree : 0 ∉ (after COLON str.bytes).tail := fun zero => free (by rw [parts]; simp [zero])
    obtain ⟨x, length, first⟩ := timespecAt_seconds (w := [])
      (v := (after COLON str.bytes).tail ++ [0]) firstFree
    obtain ⟨_, _, second⟩ := timespecAt_seconds (w := x ++ [0]) (v := []) secondFree
    have copy : str.bytes ++ [0] =
        [] ++ (before COLON str.bytes ++ COLON :: ((after COLON str.bytes).tail ++ [0])) := by
      conv_lhs => rw [parts]
      simp
    have rest : x ++ 0 :: ((after COLON str.bytes).tail ++ [0]) =
        (x ++ [0]) ++ ((after COLON str.bytes).tail ++ 0 :: []) := by simp
    have place : 0 + x.length + 1 = (x ++ [(0 : UInt8)]).length := by simp
    simp only [List.nil_append, List.length_nil] at first
    simp only [if_pos colon]
    rw [copy, cut_at, ok_bind]
    simp only [List.nil_append, List.length_nil, first, ok_bind, rest, ← length, place, second, pure_eq_ok]
  · obtain ⟨_, _, first⟩ := timespecAt_seconds (w := []) (v := []) free
    have none : after COLON str.bytes = [] := after_absent colon
    simp only [List.length_nil, List.nil_append] at first
    simp only [if_neg colon, cut, ok_bind, first, pure_eq_ok, before_eq_self colon, none]
    rfl

/-! ### The documented format -/

/-- `secs[/nsecs]` -/
structure Time where
  secs : CInt
  nsecs : Option CInt

structure Format where
  value : Time
  interval : Option Time

def Time.text (t : Time) : List UInt8 :=
  formatInt t.secs.1 ++ match t.nsecs with
    | none => []
    | some nsecs => SLASH :: formatInt nsecs.1

def Time.meaning (t : Time) : Timespec := ⟨t.secs.1, (t.nsecs.map Subtype.val).getD 0⟩

def Format.text (f : Format) : List UInt8 :=
  f.value.text ++ match f.interval with
    | none => []
    | some interval => COLON :: interval.text

def Format.meaning (f : Format) : Itimerspec :=
  ⟨f.value.meaning, (f.interval.map Time.meaning).getD ⟨0, 0⟩⟩

theorem text_free (t : Time) : COLON ∉ t.text ∧ 0 ∉ t.text := by
  have colon (n : Int) : COLON ∉ formatInt n := formatInt_free n (by decide) (by decide)
  have zero (n : Int) : 0 ∉ formatInt n := formatInt_free n (by decide) (by decide)
  have other : COLON ≠ SLASH ∧ 0 ≠ SLASH := by decide
  unfold Time.text
  cases t.nsecs <;> simp [colon, zero, other]

theorem atoi_formatInt (n : CInt) : atoi (formatInt n.1) = n.1 := by
  obtain ⟨low, high⟩ := n.2
  have range : LONG_MIN ≤ INT_MIN ∧ INT_MAX ≤ LONG_MAX := by decide
  rw [atoi, strtol_formatInt (range.1.trans low) (high.trans range.2)]
  exact toInt_small low high

theorem seconds_text (t : Time) : seconds t.text = t.meaning := by
  have slash : SLASH ∉ formatInt t.secs.1 := formatInt_free _ (by decide) (by decide)
  unfold seconds Time.text Time.meaning
  cases t.nsecs with
  | none =>
    rw [List.append_nil, before_eq_self slash, after_absent slash, atoi_formatInt]
    rfl
  | some nsecs =>
    rw [before_append slash, after_append slash, List.tail_cons, atoi_formatInt, atoi_formatInt]
    rfl

def Format.str (f : Format) : CStr where
  bytes := f.text
  nulFree := by
    obtain ⟨_, zero⟩ := text_free f.value
    unfold Format.text
    cases f.interval with
    | none => simp [zero]
    | some interval =>
      obtain ⟨_, zero'⟩ := text_free interval
      have other : 0 ≠ COLON := by decide
      simp [zero, zero', other]

/-- The times come back from every string in the format of the usage line. -/
theorem itimerspecFromStr_format (f : Format) : itimerspecFromStr f.str = .ok f.meaning := by
  obtain ⟨colon, _⟩ := text_free f.value
  rw [itimerspecFromStr_seconds]
  show Except.ok (Itimerspec.mk (seconds (before COLON f.text)) (seconds (after COLON f.text).tail)) = _
  unfold Format.text Format.meaning
  cases f.interval with
  | none =>
    rw [List.append_nil, before_eq_self colon, after_absent colon, seconds_text]
    rfl
  | some interval =>
    rw [before_append colon, after_append colon, List.tail_cons, seconds_text, seconds_text]
    rfl

end Tlpi.TimerFormat
