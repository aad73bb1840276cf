import Mathlib.Algebra.BigOperators.Group.Finset.Basic
import TlpiExercises.C.Numbers
import TlpiExercises.Library.Transitions

/-!
# 30_Thread_Synchronhization/thread_incr_copy.c, thread_incr.c and simple_ts_counter.c

Threads that increment one variable through a local one. They differ in how many threads there are, in
how often these go round, and in whether a mutex is held meanwhile. A step is one statement of `main` or
of a thread. The lines that thread_incr_copy.c prints on the way are left out.
-/

namespace Tlpi.ThreadIncr

/-- The threads and how often each goes round, which is not at all for a negative number. -/
structure Program (n : Nat) where
  locks : Bool
  loops : Fin n → Int

inductive Pc where
  | absent
  | test
  | lock
  | load
  | increment
  | store
  | unlock
  | returned
  deriving DecidableEq

/-- `j` counts the rounds that are behind. -/
structure Thread where
  pc : Pc
  j : Int
  loc : Int
  deriving DecidableEq

/-- `create k` and `join k` are the calls for thread number `k`. -/
inductive MainPc where
  | create (k : Nat)
  | join (k : Nat)
  | exited
  deriving DecidableEq

structure State (n : Nat) where
  main : MainPc
  thread : Fin n → Thread
  global : Int
  owner : Option (Fin n)
  printed : Option Int

inductive Event (n : Nat) where
  | main
  | thread (i : Fin n)

def start (n : Nat) : State n := ⟨.create 0, fun _ => ⟨.absent, 0, 0⟩, 0, none, none⟩

namespace State

variable {n : Nat}

def set (s : State n) (i : Fin n) (t : Thread) : State n :=
  { s with thread := Function.update s.thread i t }

def goto (s : State n) (i : Fin n) (pc : Pc) : State n := s.set i { s.thread i with pc := pc }

end State

variable {n : Nat}

/-- The first statement of the body of the loop, and what follows the assignment to `global`. -/
def Program.body (p : Program n) : Pc := if p.locks then .lock else .load

/-- The end of a round. -/
def endRound (s : State n) (i : Fin n) : State n :=
  s.set i { s.thread i with pc := .test, j := (s.thread i).j + 1 }

def stepThread (p : Program n) (s : State n) (i : Fin n) : Option (State n) :=
  match (s.thread i).pc with
  | .absent => none
  | .test => some (s.goto i (if (s.thread i).j < p.loops i then p.body else .returned))
  | .lock => if s.owner = none then some ({ s with owner := some i }.goto i .load) else none
  | .load => some (s.set i { s.thread i with pc := .increment, loc := s.global })
  | .increment => some (s.set i { s.thread i with pc := .store, loc := toInt ((s.thread i).loc + 1) })
  | .store =>
    let s := { s with global := (s.thread i).loc }
    some (if p.locks then s.goto i .unlock else endRound s i)
  | .unlock => some (endRound { s with owner := none } i)
  | .returned => none

def stepMain (s : State n) : Option (State n) :=
  match s.main with
  | .create k =>
    if h : k < n then some { s.goto ⟨k, h⟩ .test with main := .create (k + 1) }
    else some { s with main := .join 0 }
  | .join k =>
    if h : k < n then
      if (s.thread ⟨k, h⟩).pc = .returned then some { s with main := .join (k + 1) } else none
    else some { s with main := .exited, printed := some s.global }
  | .exited => none

def step (p : Program n) (s : State n) : Event n → Option (State n)
  | .main => stepMain s
  | .thread i => if s.main = .exited then none else stepThread p s i

end Tlpi.ThreadIncr
