import TlpiExercises.C.CharArray

/-!
# Input into `char` arrays

`fgets`, and what is done with a line that it has stored.
-/

namespace Tlpi

/-- What `fgets` stores before the NUL, up to a newline (10) and with it; `none` where it returns NULL. -/
def fgets (n : Nat) (stdin : List UInt8) : Option { line : List UInt8 // line.length < n + 1 } :=
  if stdin = [] then none
  else
    let bytes := stdin.take n
    if 10 ∈ bytes then some ⟨bytes.take (bytes.idxOf 10 + 1), by
      rw [List.length_take]
      have short : bytes.length ≤ n := List.length_take_le _ _
      omega⟩
    else some ⟨bytes, Nat.lt_succ_of_le (List.length_take_le _ _)⟩

namespace CharArray

variable {n : Nat}

/-- Bytes written to the front of an array. -/
def fill (a : CharArray n) (bytes : List UInt8) (fits : bytes.length ≤ n) : CharArray n :=
  ⟨bytes ++ a.1.drop bytes.length, by
    rw [List.length_append, List.length_drop, a.2]
    omega⟩

/-- A string written with its NUL. -/
def overwrite (a : CharArray n) (text : List UInt8) (fits : text.length < n) : CharArray n :=
  ⟨text ++ 0 :: a.1.drop (text.length + 1), by
    rw [List.length_append, List.length_cons, List.length_drop, a.2]
    omega⟩

/-- `if (s[strlen(s) - 1] == '\n') s[strlen(s) - 1] = '\0';`. Where `strlen` finds no NUL it leaves the array,
and behind an empty string it is the byte before the array that is looked at. -/
def withoutNewline (a : CharArray n) : Except Fault (CharArray n) :=
  if a.terminated = false then .error .outOfBounds
  else if a.text.length = 0 then .error .outOfBounds
  else if a.1[a.text.length - 1]? = some 10 then
    .ok ⟨a.1.set (a.text.length - 1) 0, by rw [List.length_set, a.2]⟩
  else .ok a

/-- An array that begins with a string and its NUL holds that string. -/
theorem holds {a : CharArray n} {text v : List UInt8} (nulFree : (0 : UInt8) ∉ text)
    (bytes : a.1 = text ++ 0 :: v) : a.terminated = true ∧ a.text.bytes = text := by
  refine ⟨by simp [bytes, terminated], ?_⟩
  show a.1.takeWhile (· ≠ 0) = text
  rw [bytes, List.takeWhile_append_of_pos]
  · simp
  · exact fun c member => decide_eq_true fun zero => nulFree (zero ▸ member)

theorem overwrite_text (a : CharArray n) (text : CStr) (fits : text.bytes.length < n) :
    (a.overwrite text.bytes fits).terminated = true ∧ (a.overwrite text.bytes fits).text = text := by
  obtain ⟨terminated, same⟩ := holds (a := a.overwrite text.bytes fits) text.nulFree rfl
  exact ⟨terminated, CStr.ext same⟩

/-- A line can have a NUL of its own. -/
theorem overwrite_line (a : CharArray n) (line : List UInt8) (fits : line.length < n) :
    (a.overwrite line fits).terminated = true ∧
      (a.overwrite line fits).text.bytes = line.takeWhile (· ≠ 0) := by
  refine ⟨by simp [overwrite, terminated], ?_⟩
  show (line ++ 0 :: _).takeWhile (· ≠ 0) = line.takeWhile (· ≠ 0)
  rw [List.takeWhile_append]
  split
  · rename_i whole
    rw [(List.takeWhile_prefix _).eq_of_length whole]
    simp
  · rfl

theorem fill_text (a : CharArray n) {text : List UInt8} (nulFree : (0 : UInt8) ∉ text)
    (fits : (text ++ [0]).length ≤ n) :
    (a.fill (text ++ [0]) fits).terminated = true ∧ (a.fill (text ++ [0]) fits).text.bytes = text :=
  holds nulFree (List.append_assoc ..)

/-- An array with a NUL begins with its string. -/
theorem split_text {a : CharArray n} (terminated : a.terminated = true) :
    ∃ rest, a.1 = a.text.bytes ++ 0 :: rest := by
  have nul : (0 : UInt8) ∈ a.1 := by simpa [CharArray.terminated] using terminated
  have whole : a.text.bytes ++ a.1.dropWhile (· ≠ 0) = a.1 := List.takeWhile_append_dropWhile
  cases rest : a.1.dropWhile (· ≠ 0) with
  | nil =>
    rw [rest, List.append_nil] at whole
    exact absurd (whole ▸ nul) a.text.nulFree
  | cons c rest' =>
    have head := List.head_dropWhile_not (fun b : UInt8 => decide (b ≠ 0)) (l := a.1) (by rw [rest]; simp)
    simp only [rest, List.head_cons, decide_eq_false_iff_not, not_not] at head
    rw [rest, head] at whole
    exact ⟨rest', whole.symm⟩

theorem withoutNewline_terminated {before after : CharArray n} (h : before.withoutNewline = .ok after) :
    after.terminated = true := by
  unfold withoutNewline at h
  split at h
  · cases h
  · rename_i terminated
    split at h
    · cases h
    · split at h
      · rename_i newline
        obtain rfl := Except.ok.inj h
        have inside := (List.getElem?_eq_some_iff.mp newline).1
        simp [CharArray.terminated, List.mem_set inside]
      · obtain rfl := Except.ok.inj h
        exact Bool.not_eq_false _ ▸ terminated

/-- The line that a string is, without the newline at its end. -/
def lineOf (text : List UInt8) : List UInt8 := if text.getLast? = some 10 then text.dropLast else text

theorem withoutNewline_ok {a : CharArray n} (terminated : a.terminated = true) (some_ : a.text.bytes ≠ []) :
    ∃ b, a.withoutNewline = .ok b ∧ b.terminated = true ∧ b.text.bytes = lineOf a.text.bytes := by
  obtain ⟨rest, bytes⟩ := split_text terminated
  have nulFree := a.text.nulFree
  obtain ⟨text, last, snoc⟩ := (List.eq_nil_or_concat' a.text.bytes).resolve_left some_
  have length : a.text.length = text.length + 1 := by simp [CStr.length, snoc]
  have newline : a.1[text.length]? = some last := by simp [bytes, snoc]
  have line : lineOf a.text.bytes = if last = 10 then text else a.text.bytes := by simp [lineOf, snoc]
  simp only [withoutNewline, terminated, length, Bool.true_eq_false, if_false, Nat.add_one_ne_zero,
    Nat.add_sub_cancel, newline, Option.some.injEq]
  by_cases ends : last = 10
  · rw [line, if_pos ends, if_pos ends]
    refine ⟨_, rfl, holds (v := 0 :: rest) (fun zero => nulFree ?_) ?_⟩
    · simp [snoc, zero]
    · simp [bytes, snoc]
  · rw [line, if_neg ends, if_neg ends]
    exact ⟨a, rfl, terminated, rfl⟩

theorem withoutNewline_empty {a : CharArray n} (empty : a.text.bytes = []) :
    a.withoutNewline = .error .outOfBounds := by
  simp [withoutNewline, CStr.length, empty]

end CharArray

/-- `fgets` reads the front of the input, and something where there is anything. -/
theorem fgets_some {n : Nat} {stdin : List UInt8} {line : { line : List UInt8 // line.length < n + 1 }}
    (h : fgets n stdin = some line) : stdin ≠ [] ∧ line.1 <+: stdin ∧ (0 < n → line.1 ≠ []) := by
  unfold fgets at h
  split at h
  · cases h
  · rename_i some_
    refine ⟨some_, ?_⟩
    dsimp only at h
    split at h
    · obtain rfl := Option.some.inj h
      refine ⟨(List.take_prefix _ _).trans (List.take_prefix _ _), fun positive => ?_⟩
      simp [some_]
      omega
    · obtain rfl := Option.some.inj h
      refine ⟨List.take_prefix _ _, fun positive => ?_⟩
      simp [some_]
      omega

theorem fgets_eq_none {n : Nat} {stdin : List UInt8} : fgets n stdin = none ↔ stdin = [] := by
  unfold fgets
  split
  · simp_all
  · dsimp only
    split <;> simp_all

end Tlpi
