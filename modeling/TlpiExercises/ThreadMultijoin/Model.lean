import TlpiExercises.C.Strings
import TlpiExercises.Lib.GetNum
import TlpiExercises.Library.Mutex
import TlpiExercises.Library.Transitions

/-!
# 30_Thread_Synchronhization/thread_multijoin.c

`main` and one `threadFunc` for each argument. A step is one statement; a sleep may take any time, and
`calloc` and the pthread calls return 0. A woken `pthread_cond_wait` has to take the mutex again before it
returns, and may wake without a signal.
-/

namespace Tlpi.ThreadMultijoin

inductive TState where
  | alive
  | terminated
  | joined
  deriving DecidableEq

inductive Party (n : Nat) where
  | main
  | thread (i : Fin n)
  deriving DecidableEq

/-- The next statement of `threadFunc`. In `lock` it may still be asleep. -/
inductive ThreadPc where
  | absent
  | lock
  | increment
  | setState
  | unlock
  | signal
  | done
  deriving DecidableEq

/-- The next statement of `main`: `live` and `unjoined` are the tests of its two `while`s, `scan k` that of
the `for`. -/
inductive MainPc (n : Nat) where
  | usage
  | create (k : Nat)
  | live
  | lock
  | unjoined
  | waiting
  | woken
  | scan (k : Nat)
  | join (i : Fin n)
  | unlock
  | succeeded
  | failed
  deriving DecidableEq

/-- `s` is the local of `main`, `reaped` what it has printed of the threads it joined, and `waits` counts its
calls of `pthread_cond_wait`. -/
structure State (n : Nat) where
  owner : Option (Party n)
  numLive : Int
  numUnjoined : Int
  state : Fin n → TState
  thread : Fin n → ThreadPc
  main : MainPc n
  s : Int
  reaped : List (Fin n × Int)
  waits : Nat

/-- `wake` is a `pthread_cond_wait` that wakes without a signal. -/
inductive Event (n : Nat) where
  | main
  | thread (i : Fin n)
  | wake

def start (n : Nat) : State n where
  owner := none
  numLive := 0
  numUnjoined := 0
  state := fun _ => .alive
  thread := fun _ => .absent
  main := .usage
  s := 0
  reaped := []
  waits := 0

variable {n : Nat}

def State.goto (s : State n) (i : Fin n) (pc : ThreadPc) : State n :=
  { s with thread := Function.update s.thread i pc }

def State.setState (s : State n) (i : Fin n) (state : TState) : State n :=
  { s with state := Function.update s.state i state }

/-- `pthread_cond_signal`; only `main` ever waits. -/
def State.signal (s : State n) : State n :=
  if s.main = .waiting then { s with main := .woken } else s

def stepThread (s : State n) (i : Fin n) : Option (State n) :=
  match s.thread i with
  | .absent => none
  | .lock =>
    if s.owner = none then some ({ s with owner := some (.thread i) }.goto i .increment) else none
  | .increment => some ({ s with numUnjoined := s.numUnjoined + 1 }.goto i .setState)
  | .setState => some ((s.setState i .terminated).goto i .unlock)
  | .unlock => some ({ s with owner := none }.goto i .signal)
  | .signal => some (s.signal.goto i .done)
  | .done => none

def usage (args : Fin n → List UInt8) : MainPc n :=
  if h : 0 < n then if args ⟨0, h⟩ = HELP then .failed else .create 0 else .failed

def create (args : Fin n → List UInt8) (s : State n) (i : Fin n) : State n :=
  match Utils.getNum (args i) with
  | none => { s with main := .failed }
  | some _ => { (s.setState i .alive).goto i .lock with s := 0, main := .create (i + 1) }

/-- `pthread_join` returns when the thread has. -/
def join (s : State n) (i : Fin n) : Option (State n) :=
  if s.thread i = .done then
    some { s.setState i .joined with
      s := 0
      numLive := s.numLive - 1
      numUnjoined := s.numUnjoined - 1
      reaped := s.reaped ++ [(i, s.numLive - 1)]
      main := .scan (i + 1) }
  else none

/-- After the wait `s` is compared with the 0 that `pthread_cond_wait` returned, not set to it. -/
def stepMain (args : Fin n → List UInt8) (s : State n) : Option (State n) :=
  match s.main with
  | .usage => some { s with main := usage args }
  | .create k =>
    if h : k < n then some (create args s ⟨k, h⟩) else some { s with numLive := n, main := .live }
  | .live => some { s with main := if s.numLive > 0 then .lock else .succeeded }
  | .lock =>
    if s.owner = none then some { s with owner := some .main, s := 0, main := .unjoined } else none
  | .unjoined =>
    if s.numUnjoined = 0 then some { s with owner := none, waits := s.waits + 1, main := .waiting }
    else some { s with main := .scan 0 }
  | .waiting => none
  | .woken =>
    if s.owner = none then
      some { s with owner := some .main, main := if s.s = 0 then .failed else .unjoined }
    else none
  | .scan k =>
    if h : k < n then
      some { s with main := if s.state ⟨k, h⟩ = .terminated then .join ⟨k, h⟩ else .scan (k + 1) }
    else some { s with main := .unlock }
  | .join i => join s i
  | .unlock => some { s with owner := none, s := 0, main := .live }
  | .succeeded => none
  | .failed => none

/-- The process ends with `main`. -/
def State.ended (s : State n) : Prop := s.main = .succeeded ∨ s.main = .failed

instance (s : State n) : Decidable s.ended := inferInstanceAs (Decidable (_ ∨ _))

def step (args : Fin n → List UInt8) (s : State n) : Event n → Option (State n)
  | .main => stepMain args s
  | .thread i => if s.ended then none else stepThread s i
  | .wake => if s.main = .waiting then some { s with main := .woken } else none

end Tlpi.ThreadMultijoin
