import TlpiExercises.C.Numbers
import TlpiExercises.Library.Loop
import TlpiExercises.Library.SparseFile

/-!
# 04_Universal_File_IO/cp_hole.c

The copy loop, with `int` for every offset. Reads and writes are complete.
-/

namespace Tlpi.CpHole

open SparseFile Loop

def BUF_SIZE : Nat := 1024

structure State where
  offset1 : Nat
  offset2 : Nat
  file2 : List (Option UInt8)

inductive Ending where
  | success (file2 : List (Option UInt8))
  | failure
  | undefined

/-- What `lseek` returns. -/
def lseek (result : Option Nat) : Int := result.elim (-1) Nat.cast

/-- `read(fd1, buf, n)` and the `write` of what it has read. -/
def State.copy (file1 : List (Option UInt8)) (n : Nat) (s : State) : State :=
  let bytes := readAt 0 file1 s.offset1 n
  { offset1 := s.offset1 + bytes.length
    offset2 := s.offset2 + bytes.length
    file2 := writeAt s.file2 s.offset2 bytes }

/-- `none` where a `read` fails because `numRead` is negative. -/
def copyData (file1 : List (Option UInt8)) (numRead : Int) (s : State) : Option State :=
  if numRead > BUF_SIZE then copyData file1 (numRead - BUF_SIZE) (s.copy file1 BUF_SIZE)
  else if numRead < 0 then none
  else some (s.copy file1 numRead.toNat)
termination_by numRead.toNat
decreasing_by
  unfold BUF_SIZE at *
  omega

/-- The body of the loop. -/
def iteration (file1 : List (Option UInt8)) (s : State) : Except Ending State :=
  let currentOffset := toInt s.offset1
  if currentOffset = -1 then .error .failure
  else
    let data := seekData file1 currentOffset
    let dataOffset := toInt (lseek data)
    if dataOffset = -1 then .error (.success s.file2)
    else if currentOffset = dataOffset then
      let holeOffset := toInt (lseek (seekHole file1 currentOffset))
      if holeOffset = -1 then .error .failure
      else if currentOffset < 0 then .error .failure
      else
        let numRead := holeOffset - currentOffset
        if numRead < INT_MIN ∨ INT_MAX < numRead then .error .undefined
        else
          match copyData file1 numRead { s with offset1 := currentOffset.toNat } with
          | none => .error .failure
          | some s => .ok s
    else if dataOffset < 0 then .error .failure
    else .ok { s with offset1 := data.getD s.offset1, offset2 := dataOffset.toNat }

/-- At most `fuel` rounds of the loop. -/
def cpHole (file1 : List (Option UInt8)) (fuel : Nat) : Option Ending :=
  loop (iteration file1) fuel ⟨0, 0, []⟩

end Tlpi.CpHole
