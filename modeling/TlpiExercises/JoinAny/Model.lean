import TlpiExercises.Lib.GetNum
import TlpiExercises.Library.Transitions

/-!
# 30_Thread_Synchronhization/join_any.c

`main` and one `thread_func` for each argument. A step is one statement. Those that touch
`total_unjoined` or a `state` are made with the mutex held that guards it, so that no two of them
overlap. A woken `pthread_cond_wait` has to take the mutex again before it returns, and may wake
without a signal.
-/

namespace Tlpi.JoinAny

inductive ThreadState where
  | unjoined
  | joined
  | alive
  deriving DecidableEq

inductive Party (n : Nat) where
  | main
  | thread (i : Fin n)
  deriving DecidableEq

/-- The next statement of `thread_func`. In `lockMtx` it may still be asleep. -/
inductive ThreadPc where
  | absent
  | lockMtx
  | increment
  | unlockMtx
  | lockOwn
  | setUnjoined
  | unlockOwn
  | signal
  | done
  deriving DecidableEq

/-- The next statement of `main`. `scan k` is the test of the `for` with the lock after it. -/
inductive MainPc (n : Nat) where
  | create (k : Nat)
  | lockMtx
  | testUnjoined
  | waiting
  | woken
  | scan (k : Nat)
  | testState (i : Fin n)
  | join (i : Fin n)
  | unlockOwn (i : Fin n)
  | unlockMtx
  | testJoined
  | left
  | exited
  deriving DecidableEq

/-- `joins` is ghost history: how often a thread was joined. -/
structure State (n : Nat) where
  mtx : Option (Party n)
  own : Fin n → Option (Party n)
  totalUnjoined : Int
  totalJoined : Int
  state : Fin n → ThreadState
  main : MainPc n
  thread : Fin n → ThreadPc
  joins : Fin n → Nat

/-- `wake` is a `pthread_cond_wait` that wakes without a signal. -/
inductive Event (n : Nat) where
  | main
  | thread (i : Fin n)
  | wake

section Step

variable {n : Nat}

/-- `memory` is what `malloc` has left in `thread_list`. -/
def start (memory : Fin n → ThreadState) : State n where
  mtx := none
  own := fun _ => none
  totalUnjoined := 0
  totalJoined := 0
  state := memory
  main := if n = 0 then .exited else .create 0
  thread := fun _ => .absent
  joins := fun _ => 0

def State.goto (s : State n) (i : Fin n) (pc : ThreadPc) : State n :=
  { s with thread := Function.update s.thread i pc }

def State.setState (s : State n) (i : Fin n) (state : ThreadState) : State n :=
  { s with state := Function.update s.state i state }

def State.setOwn (s : State n) (i : Fin n) (owner : Option (Party n)) : State n :=
  { s with own := Function.update s.own i owner }

/-- `pthread_mutex_lock(&mtx)`. -/
def State.lockMtx (s : State n) (party : Party n) : Option (State n) :=
  if s.mtx = none then some { s with mtx := some party } else none

/-- `pthread_mutex_lock(thread_list[i].mtx)`. -/
def State.lockOwn (s : State n) (i : Fin n) (party : Party n) : Option (State n) :=
  if s.own i = none then some (s.setOwn i (some party)) else none

/-- `pthread_cond_signal`; only `main` ever waits. -/
def State.signal (s : State n) : State n :=
  if s.main = .waiting then { s with main := .woken } else s

def stepThread (s : State n) (i : Fin n) : Option (State n) :=
  match s.thread i with
  | .absent => none
  | .lockMtx => (s.lockMtx (.thread i)).map fun s => s.goto i .increment
  | .increment => some ({ s with totalUnjoined := s.totalUnjoined + 1 }.goto i .unlockMtx)
  | .unlockMtx => some ({ s with mtx := none }.goto i .lockOwn)
  | .lockOwn => (s.lockOwn i (.thread i)).map fun s => s.goto i .setUnjoined
  | .setUnjoined => some ((s.setState i .unjoined).goto i .unlockOwn)
  | .unlockOwn => some ((s.setOwn i none).goto i .signal)
  | .signal => some (s.signal.goto i .done)
  | .done => none

/-- `pthread_join` returns when the thread has. The three assignments after it are one step with
it, since `main` holds both mutexes. -/
def join (s : State n) (i : Fin n) : Option (State n) :=
  if s.thread i = .done then
    some { s.setState i .joined with
      totalUnjoined := s.totalUnjoined - 1
      totalJoined := s.totalJoined + 1
      joins := Function.update s.joins i (s.joins i + 1)
      main := .unlockOwn i }
  else none

def create (args : Fin n → List UInt8) (s : State n) (i : Fin n) : State n :=
  let s := s.setState i .alive
  match Utils.getNum (args i) with
  | none => { s with main := .exited }
  | some _ => { s.goto i .lockMtx with main := .create (i + 1) }

def stepMain (args : Fin n → List UInt8) (s : State n) : Option (State n) :=
  match s.main with
  | .create k =>
    if h : k < n then some (create args s ⟨k, h⟩) else some { s with main := .lockMtx }
  | .lockMtx => (s.lockMtx .main).map fun s => { s with main := .testUnjoined }
  | .testUnjoined =>
    if s.totalUnjoined = 0 then some { s with mtx := none, main := .waiting }
    else some { s with main := .scan 0 }
  | .waiting => none
  | .woken => (s.lockMtx .main).map fun s => { s with main := .testUnjoined }
  | .scan k =>
    if h : k < n then (s.lockOwn ⟨k, h⟩ .main).map fun s => { s with main := .testState ⟨k, h⟩ }
    else some { s with main := .unlockMtx }
  | .testState i =>
    if s.state i = .unjoined then some { s with main := .join i }
    else some { s with main := .unlockOwn i }
  | .join i => join s i
  | .unlockOwn i => some { s.setOwn i none with main := .scan (i + 1) }
  | .unlockMtx => some { s with mtx := none, main := .testJoined }
  | .testJoined =>
    if s.totalJoined = n then some { s with main := .left } else some { s with main := .lockMtx }
  | .left | .exited => none

/-- `exited` is a call of `exit`, which ends all threads. -/
def step (args : Fin n → List UInt8) (s : State n) (e : Event n) : Option (State n) :=
  if s.main = .exited then none
  else
    match e with
    | .main => stepMain args s
    | .thread i => stepThread s i
    | .wake => if s.main = .waiting then some s.signal else none

end Step

end Tlpi.JoinAny
