import Mathlib.Data.BitVec
import TlpiExercises.Library.Region

/-!
# 07_Memory_Allocation/malloc_free_imp.c

`malloc_clone` and where its blocks lie. `sbrk` succeeds and moves the break by what it is asked
for; what lies above the break can be written all the same, as on the rest of its page.
-/

namespace Tlpi.MallocClone

structure Process where
  brk : Nat
  memory : Nat → UInt8
  blocksAllocated : BitVec 32

inductive Exit where
  /-- `errExit("sbrk")` -/
  | sbrk
  deriving DecidableEq

def sbrk (s : Process) (increment : Nat) : Process × Nat :=
  ({ s with brk := s.brk + increment }, s.brk)

/-- `*meta_data = value`, lowest byte first. -/
def storeInt (memory : Nat → UInt8) (p : Nat) (value : BitVec 32) : Nat → UInt8 :=
  fun a => if p ≤ a ∧ a < p + 4 then ⟨value.extractLsb' (8 * (a - p)) 8⟩ else memory a

def mallocClone (s : Process) (size : Nat) : Except Exit (Process × Nat) :=
  let (s, block) := sbrk s size
  -- The test looks at the low 32 bits of the address.
  if BitVec.ofNat 32 block = BitVec.allOnes 32 then .error .sbrk
  else
    let blocksAllocated := s.blocksAllocated + 1
    let memory := storeInt s.memory block blocksAllocated
    let memory := storeInt memory (block + 4) (BitVec.ofNat 32 ((sbrk s 0).2 - block))
    .ok ({ s with memory, blocksAllocated }, block + 8)

/-- A sequence of calls, and what each one returned to the caller. -/
def mallocs (s : Process) : List Nat → Except Exit (Process × List Region)
  | [] => .ok (s, [])
  | size :: sizes =>
    match mallocClone s size with
    | .error e => .error e
    | .ok (s, p) =>
      match mallocs s sizes with
      | .error e => .error e
      | .ok (s, regions) => .ok (s, ⟨p, size⟩ :: regions)

def layout (brk : Nat) : List Nat → List Region
  | [] => []
  | size :: sizes => ⟨brk + 8, size⟩ :: layout (brk + size) sizes

def fresh : Process := ⟨4096, fun _ => 0, 0⟩

end Tlpi.MallocClone
