import TlpiExercises.C.Strings
import TlpiExercises.Lib.GetNum
import TlpiExercises.Library.Transitions

/-!
# 44_Pipes_And_FIFOs/pipe_sync.c

`main` and one child for each argument. Nothing is ever written to the pipe, so that what a `read` of it
depends on is how many descriptors of its write end are open. No `pipe` and no `close` fails.
-/

namespace Tlpi.PipeSync

/-- `terminated` is a child that has not been waited for. -/
inductive ChildPc where
  | absent
  | closeRead
  | getNum
  | sleep
  | printf
  | closeWrite
  | exit
  | terminated
  | reaped
  deriving DecidableEq

/-- `fork k` is the test of the `for` before child `k`, `woke` the `printf` behind the `read`. `failed`
is an `errExit` or a `usageErr`. -/
inductive MainPc where
  | fork (k : Nat)
  | closeWrite
  | waiting
  | read
  | woke
  | waitpid
  | exited
  | failed
  deriving DecidableEq

/-- The lines on the standard output, which is not buffered. -/
inductive Message (n : Nat) where
  | finished (i : Fin n)
  | waiting
  | woke
  deriving DecidableEq

/-- `writers` counts the open descriptors of the write end in all processes. -/
structure State (n : Nat) where
  main : MainPc
  child : Fin n → ChildPc
  writers : Nat
  output : List (Message n)

/-- `reap i` is a `waitpid` that returns child `i`. -/
inductive Event (n : Nat) where
  | main
  | forkFails
  | child (i : Fin n)
  | reap (i : Fin n)

abbrev Args := List (List UInt8)

/-- Behind the `pipe`. -/
def start (args : Args) : State args.length where
  main := if args = [] ∨ args.head? = some HELP then .failed else .fork 0
  child := fun _ => .absent
  writers := if args = [] ∨ args.head? = some HELP then 0 else 1
  output := []

namespace State

variable {n : Nat}

def set (s : State n) (i : Fin n) (pc : ChildPc) : State n :=
  { s with child := Function.update s.child i pc }

end State

section Step

variable {args : Args}

/-- A process that exits closes its descriptors. -/
def stepChild (args : Args) (s : State args.length) (i : Fin args.length) :
    Option (State args.length) :=
  match s.child i with
  | .closeRead => some (s.set i .getNum)
  | .getNum =>
    match Utils.getNum args[i] with
    | none => some { s.set i .terminated with writers := s.writers - 1 }
    | some _ => some (s.set i .sleep)
  | .sleep => some (s.set i .printf)
  | .printf => some { s.set i .closeWrite with output := s.output ++ [.finished i] }
  | .closeWrite => some { s.set i .exit with writers := s.writers - 1 }
  | .exit => some (s.set i .terminated)
  | .absent | .terminated | .reaped => none

/-- The child has a copy of each descriptor of its parent. -/
def stepMain (s : State args.length) : Option (State args.length) :=
  match s.main with
  | .fork k =>
    if h : k < args.length then
      some { s.set ⟨k, h⟩ .closeRead with main := .fork (k + 1), writers := s.writers + 1 }
    else some { s with main := .closeWrite }
  | .closeWrite => some { s with main := .waiting, writers := s.writers - 1 }
  | .waiting => some { s with main := .read, output := s.output ++ [.waiting] }
  | .read => if s.writers = 0 then some { s with main := .woke } else none
  | .woke => some { s with main := .waitpid, output := s.output ++ [.woke] }
  | .waitpid =>
    -- -1 with ECHILD
    if ∀ i, s.child i = .absent ∨ s.child i = .reaped then some { s with main := .exited } else none
  | .exited | .failed => none

def step (args : Args) (s : State args.length) : Event args.length → Option (State args.length)
  | .main => stepMain s
  | .forkFails =>
    match s.main with
    | .fork k =>
      if k < args.length then some { s with main := .failed, writers := s.writers - 1 } else none
    | .closeWrite | .waiting | .read | .woke | .waitpid | .exited | .failed => none
  | .child i => stepChild args s i
  | .reap i =>
    if s.main = .waitpid ∧ s.child i = .terminated then some (s.set i .reaped) else none

end Step

end Tlpi.PipeSync
