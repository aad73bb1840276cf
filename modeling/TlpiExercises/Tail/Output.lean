import TlpiExercises.Library.Lines
import TlpiExercises.Tail.Model

/-!
# What is written

The line that is printed last is the one that is collected first, at the end of the file. Its
terminator, and the newline behind it, already tell the output from the end of the file.
-/

namespace Tlpi.Tail

def lastLines (n : Nat) (file : List UInt8) : List UInt8 :=
  ((Lines.split 10 file).drop ((Lines.split 10 file).length - n)).flatten

/-! ### The last lines -/

theorem lastLines_suffix (n : Nat) (file : List UInt8) : lastLines n file <:+ file := by
  have split := Lines.flatten_split 10 file
  refine ⟨((Lines.split 10 file).take ((Lines.split 10 file).length - n)).flatten, ?_⟩
  rw [lastLines, ← List.flatten_append, List.take_append_drop, split]

theorem lastLines_nil {n : Nat} : lastLines n [] = [] := List.suffix_nil.mp (lastLines_suffix n [])

theorem lastLines_eq_nil {n : Nat} {file : List UInt8} (nothing : lastLines n file = []) :
    n = 0 ∨ file = [] := by
  have none_left : (Lines.split 10 file).drop ((Lines.split 10 file).length - n) = [] := by
    refine List.eq_nil_iff_forall_not_mem.mpr fun line member => ?_
    have empty := List.flatten_eq_nil_iff.mp nothing line member
    exact Lines.nonempty_of_mem_split 10 (List.mem_of_mem_drop member) empty
  rw [List.drop_eq_nil_iff] at none_left
  by_cases empty : Lines.split 10 file = []
  · exact Or.inr ((Lines.split_eq_nil 10).mp empty)
  · have positive := List.length_pos_of_ne_nil empty
    exact Or.inl (by omega)

/-- Two finished lines at the end, and a finished one before them. -/
theorem lastLines_two {n : Nat} {file : List UInt8} (long : 3 < file.length) :
    lastLines n file = [0, 10, 10] ↔ n = 2 ∧ [10, 0, 10, 10] <:+ file := by
  have lines : Lines.split (10 : UInt8) [0, 10, 10] = [[0, 10], [10]] := by decide
  constructor
  · intro last
    have whole := Lines.flatten_split 10 file
    rw [← List.take_append_drop ((Lines.split 10 file).length - n) (Lines.split 10 file),
      List.flatten_append] at whole
    generalize before : (Lines.split 10 file).take ((Lines.split 10 file).length - n) = first
      at whole
    rw [show ((Lines.split 10 file).drop ((Lines.split 10 file).length - n)).flatten =
      [0, 10, 10] from last] at whole
    have finished : ∀ line ∈ first, Lines.IsLine 10 line := by
      intro line member
      refine (Lines.split_finished 10 (u := file)).mpr ?_ line
        (List.mem_of_mem_take (before ▸ member))
      rw [← whole]
      simp
    have both : Lines.split 10 file = first ++ [[0, 10], [10]] := by
      rw [← whole, Lines.split_flatten 10 _ finished, lines]
    have nonempty : first ≠ [] := by
      rintro rfl
      rw [← whole] at long
      exact absurd long (by decide)
    have count := congrArg List.length both
    have taken := congrArg List.length before
    rw [List.length_take] at taken
    rw [List.length_append] at count
    have positive := List.length_pos_of_ne_nil nonempty
    have two : [[(0 : UInt8), 10], [10]].length = 2 := rfl
    refine ⟨by omega, ?_⟩
    obtain ⟨body, ends, _⟩ := finished _ (List.getLast_mem nonempty)
    rw [← whole, ← List.dropLast_append_getLast nonempty, ends]
    exact ⟨first.dropLast.flatten ++ body, by simp⟩
  · rintro ⟨rfl, before, rfl⟩
    have finished := (Lines.split_finished 10 (u := before ++ [10])).mpr (by simp)
    have both := Lines.split_flatten 10 [0, 10, 10] finished
    rw [Lines.flatten_split, List.append_assoc, List.singleton_append, lines] at both
    rw [lastLines, both, List.length_append]
    exact congrArg List.flatten (List.drop_left' (by simp))

/-! ### Printing -/

section Reverse

variable {α : Type*} {elements : List α} {fresh : Nat → α}

theorem copyDown_small {n : Nat} (small : (n : Int) ≤ INT_MAX + 1) (inside : n ≤ elements.length) :
    copyDown elements n = (elements.take n).reverse := by
  induction n with
  | zero => rfl
  | succ n ih =>
    have same : toInt n = n := toInt_of_nonneg (Int.natCast_nonneg n) (by omega)
    rw [copyDown, same, if_neg (by omega), ih (by omega) (by omega), List.take_add_one,
      List.reverse_append, List.getElem?_eq_getElem (by omega)]
    rfl

theorem daReverse_small (small : (elements.length : Int) ≤ INT_MAX + 1) :
    daReverse fresh elements = elements.reverse := by
  unfold daReverse
  rw [copyDown_small small (le_refl _), List.take_length]
  dsimp only
  rw [List.length_reverse, Nat.sub_self]
  exact List.append_nil _

end Reverse

theorem printLine_last (fresh : Nat → UInt8) {line : List UInt8} (long : line.length ≠ 1) :
    (printLine fresh line).getLast? = some 10 := by
  rw [printLine, if_neg long, List.getLast?_append]
  rfl

theorem printLine_empty {fresh : Nat → UInt8} : printLine fresh [0] = [0] := by
  rw [printLine, daReverse_small (by decide)]
  rfl

theorem printLine_byte {fresh : Nat → UInt8} {b : UInt8} : printLine fresh [b, 0] = [0, b, 10] := by
  have two : ([b, 0].length : Int) ≤ INT_MAX + 1 := by
    rw [List.length_cons, List.length_singleton]
    decide
  rw [printLine, daReverse_small two]
  rfl

/-! ### Reading -/

section Read

variable {file : List UInt8} {c : UInt8} {numLines i : Int} {offset : Nat}

theorem readLines_length {lines : List (List UInt8)} (last : numLines ≤ INT_MAX)
    (start : i ≤ INT_MAX + 1) (read : readLines file c numLines i offset = .ok lines) :
    i + lines.length ≤ INT_MAX + 1 := by
  induction lines generalizing i offset with
  | nil => simpa using start
  | cons line rest ih =>
    rw [readLines] at read
    split at read
    · split at read
      · cases read
        rw [List.length_singleton]
        omega
      · split at read
        · cases read
        · split at read
          · cases read
          · rename_i later
            cases read
            have bound := ih (by omega) later
            rw [List.length_cons]
            omega
    · cases read

/-- The lines that are collected begin with the last one of the file. -/
theorem readLines_first {lines : List (List UInt8)} (some_lines : 0 ≤ numLines)
    (read : readLines file c numLines 0 offset = .ok lines) :
    ∃ rest, lines = (readLine file c offset).1 :: rest ∧
      ((readLine file c offset).2 = none → rest = []) := by
  rw [readLines, if_pos some_lines] at read
  split at read
  · cases read
    exact ⟨[], rfl, fun _ => rfl⟩
  · rename_i next more
    split at read
    · cases read
    · split at read
      · cases read
      · rename_i later _
        cases read
        refine ⟨_, rfl, fun none => ?_⟩
        rw [more] at none
        cases none

/-- The first `read_back`, which reads the last byte. -/
theorem readBack_last (front : List UInt8) (b c : UInt8) :
    (readBack (front ++ [b]) c ((front ++ [b]).length - 1)).c = b ∧
      ((readBack (front ++ [b]) c ((front ++ [b]).length - 1)).rv = -1 ↔
        (front ++ [b]).length % 2 ^ 32 = 1) := by
  have length : (front ++ [b]).length = front.length + 1 := by
    rw [List.length_append, List.length_singleton]
  have here : (front ++ [b]).getD front.length c = b := by
    rw [List.getD_eq_getElem?_getD, List.getElem?_append_right (le_refl _), Nat.sub_self]
    rfl
  unfold readBack
  rw [length, Nat.add_sub_cancel, here]
  simp only [Nat.lt_succ_self, if_true]
  by_cases first : front.length + 1 < 2
  · rw [if_pos first]
    exact ⟨rfl, iff_of_true rfl (by omega)⟩
  · rw [if_neg first]
    dsimp only
    rw [toInt_eq_neg_one]
    exact ⟨rfl, by omega⟩

theorem readLine_nonempty (file : List UInt8) (c : UInt8) (offset : Nat) :
    0 < (readLine file c offset).1.length := by
  rw [readLine]
  split
  · exact Nat.succ_pos _
  · split <;> exact Nat.succ_pos _

/-- The line that is collected first, by the last byte of the file. -/
theorem readLine_cases (front : List UInt8) (b c : UInt8) :
    ((front ++ [b]).length % 2 ^ 32 = 1 ∧
      readLine (front ++ [b]) c ((front ++ [b]).length - 1) = ([b, 0], none)) ∨
    ((front ++ [b]).length % 2 ^ 32 ≠ 1 ∧
      ((b = 10 ∧ (readLine (front ++ [b]) c ((front ++ [b]).length - 1)).1 = [0]) ∨
      (b ≠ 10 ∧ (readLine (front ++ [b]) c ((front ++ [b]).length - 1)).1.length ≠ 1))) := by
  obtain ⟨byte, stops⟩ := readBack_last front b c
  rw [readLine, byte]
  by_cases first : (front ++ [b]).length % 2 ^ 32 = 1
  · rw [if_pos (stops.mpr first)]
    exact Or.inl ⟨first, rfl⟩
  · rw [if_neg (stops.not.mpr first)]
    refine Or.inr ⟨first, ?_⟩
    by_cases newline : b = 10
    · rw [if_pos newline]
      exact Or.inl ⟨newline, rfl⟩
    · rw [if_neg newline]
      refine Or.inr ⟨newline, ?_⟩
      dsimp only
      rw [List.length_cons]
      have some_element := readLine_nonempty (front ++ [b]) c
        (readBack (front ++ [b]) c ((front ++ [b]).length - 1)).offset
      omega

end Read

/-! ### The output -/

/-- The number of lines to print, when it is given, is cut off to `int`. -/
def requested (argument : Option Nat) : Int := toInt (min (argument.getD 10 : Nat) LONG_MAX)

theorem getNumLines_decimal {argument : Option Nat} :
    getNumLines (argument.map decimal) = .ok (requested argument) := by
  cases argument with
  | none => rfl
  | some n =>
    obtain ⟨value, rest⟩ := strtol_decimal n
    simp only [Option.map_some, getNumLines, rest, value, ne_eq, not_true_eq_false, if_false]
    rfl

/-- The first line collected is the last one printed, behind everything else. -/
theorem tail_last {argument : Option Nat} {file output : List UInt8} {c : UInt8}
    {fresh : Nat → Nat → UInt8} {freshLines : Nat → List UInt8} (some_lines : 0 ≤ requested argument)
    (call : tail (argument.map decimal) file c fresh freshLines = .ok output) :
    ∃ before i, output = before ++ printLine (fresh i) (readLine file c (file.length - 1)).1 ∧
      ((readLine file c (file.length - 1)).2 = none → before = []) := by
  unfold tail at call
  rw [getNumLines_decimal] at call
  dsimp only at call
  cases read : readLines file c (requested argument) 0 (file.length - 1) with
  | error ending =>
    rw [read] at call
    cases call
  | ok lines =>
    obtain ⟨rest, rfl, alone⟩ := readLines_first some_lines read
    have short := readLines_length (toInt_range _).2 (by decide) read
    rw [read] at call
    dsimp only at call
    rw [daReverse_small (by omega), List.reverse_cons, List.mapIdx_concat, List.flatten_append,
      List.flatten_singleton] at call
    refine ⟨_, _, (Except.ok.inj call).symm, fun none => ?_⟩
    rw [alone none]
    rfl

theorem printLine_ne_nil {fresh : Nat → UInt8} {line : List UInt8} :
    printLine fresh line ≠ [] := by
  intro nothing
  by_cases one : line.length = 1
  · have small : (line.length : Int) ≤ INT_MAX + 1 := by
      rw [one]
      decide
    have count := congrArg List.length nothing
    rw [printLine, daReverse_small small, List.length_append, List.length_reverse,
      List.length_nil] at count
    omega
  · have last := printLine_last fresh one
    rw [nothing] at last
    cases last

theorem suffix_last {output front : List UInt8} {b d : UInt8} (suffix : output <:+ front ++ [b])
    (last : output.getLast? = some d) : d = b := by
  obtain ⟨before, same⟩ := suffix
  have ends := congrArg List.getLast? same
  rw [List.getLast?_append, last, List.getLast?_concat] at ends
  exact Option.some.inj ends

theorem getLast?_of_append {before last : List UInt8} {d : UInt8} (ends : last.getLast? = some d) :
    (before ++ last).getLast? = some d := by
  rw [List.getLast?_append, ends]
  rfl

theorem tail_only {argument : Option Nat} {file : List UInt8} {c : UInt8}
    {fresh : Nat → Nat → UInt8} {freshLines : Nat → List UInt8}
    (call : tail (argument.map decimal) file c fresh freshLines =
      .ok (lastLines (argument.getD 10) file)) :
    (file = [] ∧ requested argument < 0) ∨
    (argument = some 2 ∧ file.length % 2 ^ 32 = 1 ∧ [10, 0, 10, 10] <:+ file) := by
  by_cases some_lines : 0 ≤ requested argument
  · obtain ⟨before, i, output, alone⟩ := tail_last some_lines call
    rcases List.eq_nil_or_concat' file with rfl | ⟨front, b, rfl⟩
    · rw [lastLines_nil] at output
      exact absurd (List.append_eq_nil_iff.mp output.symm).2 printLine_ne_nil
    have suffix := lastLines_suffix (argument.getD 10) (front ++ [b])
    rcases readLine_cases front b c with
      ⟨long, line⟩ | ⟨_, ⟨newline, line⟩ | ⟨text, line⟩⟩
    · rw [line, alone (by rw [line]), List.nil_append, printLine_byte] at output
      rw [output] at suffix
      obtain rfl := suffix_last (d := 10) suffix rfl
      have three := suffix.length_le
      have many : 3 < (front ++ [10]).length := by
        have count : [(0 : UInt8), 10, 10].length = 3 := rfl
        omega
      obtain ⟨two, ends⟩ := (lastLines_two many).mp output
      refine Or.inr ⟨?_, long, ends⟩
      cases argument with
      | none => cases two
      | some n => exact congrArg some two
    · rw [line, printLine_empty] at output
      have last := suffix_last suffix (output ▸ getLast?_of_append rfl)
      exact absurd (newline ▸ last) (by decide)
    · have last := suffix_last suffix (output ▸ getLast?_of_append (printLine_last _ line))
      exact absurd last.symm text
  · have output : tail (argument.map decimal) file c fresh freshLines = .ok [] := by
      unfold tail
      rw [getNumLines_decimal]
      dsimp only
      rw [readLines, if_neg some_lines]
      rfl
    have nothing := Except.ok.inj (call.symm.trans output)
    rcases lastLines_eq_nil nothing with zero | empty
    · refine absurd ?_ some_lines
      rw [requested, zero]
      decide
    · exact Or.inl ⟨empty, not_le.mp some_lines⟩

/-- The output is right only where nothing is asked for or where the offset, as an `int`, is -1. -/
theorem tail_iff (argument : Option Nat) (file : List UInt8) (c : UInt8)
    (fresh : Nat → Nat → UInt8) (freshLines : Nat → List UInt8) :
    tail (argument.map decimal) file c fresh freshLines =
      .ok (lastLines (argument.getD 10) file) ↔
    (file = [] ∧ requested argument < 0) ∨
    (argument = some 2 ∧ file.length % 2 ^ 32 = 1 ∧ [10, 0, 10, 10] <:+ file) := by
  refine ⟨tail_only, ?_⟩
  rintro (⟨rfl, none⟩ | ⟨rfl, long, suffix⟩)
  · unfold tail
    rw [getNumLines_decimal]
    dsimp only
    rw [readLines, if_neg (not_le.mpr none), lastLines_nil]
    rfl
  · obtain ⟨front, rfl⟩ := suffix
    have same : front ++ [10, 0, 10, 10] = (front ++ [10, 0, 10]) ++ [10] := by simp
    have many : 3 < (front ++ [10, 0, 10, 10]).length := by simp
    have wanted := (lastLines_two many).mpr ⟨rfl, front, rfl⟩
    rw [show (some 2).getD 10 = 2 from rfl, wanted]
    have line : readLine (front ++ [10, 0, 10, 10]) c ((front ++ [10, 0, 10, 10]).length - 1) =
        ([10, 0], none) := by
      rw [same] at long ⊢
      rcases readLine_cases (front ++ [10, 0, 10]) 10 c with
        ⟨_, line⟩ | ⟨other, _⟩
      · exact line
      · exact absurd long other
    unfold tail
    rw [getNumLines_decimal]
    dsimp only
    rw [readLines, if_pos (by decide), line]
    dsimp only
    rw [daReverse_small (by decide)]
    exact congrArg (fun out => Except.ok (List.flatten [out])) printLine_byte

/-- The last line of "a\n": it is written with a NUL in front and one behind. -/
theorem tail_adds_terminators : ¬ ∀ (argument : Option Nat) (file : List UInt8) (c : UInt8)
    (fresh : Nat → Nat → UInt8) (freshLines : Nat → List UInt8),
    tail (argument.map decimal) file c fresh freshLines =
      .ok (lastLines (argument.getD 10) file) := by
  intro all
  rcases tail_only (all (some 1) [97, 10] 0 (fun _ _ => 0) fun _ => []) with ⟨empty, _⟩ | ⟨two, _⟩
  · cases empty
  · cases two

end Tlpi.Tail
