import TlpiExercises.C.Numbers

/-!
# 13_File_IO_Buffering/tail_command.c

The arrays are lists of their elements. `da_reverse` of `lib/dynamic_array.c` copies into a new block
and stops when its index is negative as an `int`; what the rest of the block holds is `fresh`.
-/

namespace Tlpi.Tail

section Reverse

variable {α : Type*}

/-- The loop of `da_reverse`, with the elements at `i` and below still to copy: `i + 1` is the count. -/
def copyDown (elements : List α) : Nat → List α
  | 0 => []
  | i + 1 => if toInt i < 0 then [] else elements[i]?.toList ++ copyDown elements i

def daReverse (fresh : Nat → α) (elements : List α) : List α :=
  let copied := copyDown elements elements.length
  copied ++ (List.range' copied.length (elements.length - copied.length)).map fresh

end Reverse

inductive Ending where
  | usageErr
  | undefined

structure ReadBack where
  c : UInt8
  rv : Int
  offset : Nat

/-- `c` is what the variable holds before. What `lseek` returns is converted to `int`. -/
def readBack (file : List UInt8) (c : UInt8) (offset : Nat) : ReadBack :=
  let read := file.getD offset c
  let offset := if offset < file.length then offset + 1 else offset
  if offset < 2 then ⟨read, -1, offset⟩ else ⟨read, toInt (offset - 2 : Nat), offset - 2⟩

theorem readBack_lt {file : List UInt8} {c : UInt8} {offset : Nat}
    (more : (readBack file c offset).rv ≠ -1) : (readBack file c offset).offset < offset := by
  have start : ¬ (if offset < file.length then offset + 1 else offset) < 2 :=
    fun first => more (congrArg ReadBack.rv (if_pos first))
  have moved : (readBack file c offset).offset =
      (if offset < file.length then offset + 1 else offset) - 2 :=
    congrArg ReadBack.offset (if_neg start)
  rw [moved]
  split at start <;> rename_i inside
  · rw [if_pos inside]
    omega
  · rw [if_neg inside]
    omega

/-- The `while` loop: the elements of a line, and where it goes on unless it breaks out of both. -/
def readLine (file : List UInt8) (c : UInt8) (offset : Nat) : List UInt8 × Option Nat :=
  if (readBack file c offset).rv = -1 then ([(readBack file c offset).c, 0], none)
  else if (readBack file c offset).c = 10 then ([0], some (readBack file c offset).offset)
  else
    let line := readLine file c (readBack file c offset).offset
    ((readBack file c offset).c :: line.1, line.2)
termination_by offset
decreasing_by exact readBack_lt ‹_›

/-- The `for` loop. -/
def readLines (file : List UInt8) (c : UInt8) (numLines i : Int) (offset : Nat) :
    Except Ending (List (List UInt8)) :=
  if i ≤ numLines then
    match (readLine file c offset).2 with
    | none => .ok [(readLine file c offset).1]
    | some next =>
      if i = INT_MAX then .error .undefined
      else
        match readLines file c numLines (i + 1) next with
        | .error ending => .error ending
        | .ok lines => .ok ((readLine file c offset).1 :: lines)
  else .ok []
termination_by (numLines + 1 - i).toNat
decreasing_by omega

def printLine (fresh : Nat → UInt8) (line : List UInt8) : List UInt8 :=
  daReverse fresh line ++ if line.length = 1 then [] else [10]

def getNumLines : Option (List UInt8) → Except Ending Int
  | none => .ok 10
  | some text => if (strtol text).rest ≠ [] then .error .usageErr else .ok (toInt (strtol text).value)

/-- What is written. `argument` is the number of lines, if it is given. -/
def tail (argument : Option (List UInt8)) (file : List UInt8) (c : UInt8)
    (fresh : Nat → Nat → UInt8) (freshLines : Nat → List UInt8) : Except Ending (List UInt8) :=
  match getNumLines argument with
  | .error ending => .error ending
  | .ok numLines =>
    match readLines file c numLines 0 (file.length - 1) with
    | .error ending => .error ending
    | .ok lines =>
      .ok ((daReverse freshLines lines).mapIdx fun i line => printLine (fresh i) line).flatten

end Tlpi.Tail
