import TlpiExercises.Lib.GetNum
import TlpiExercises.Library.Transitions

/-!
# 30_Thread_Synchronhization/prod_consumer_2.c

`main` and one `thread_start` for each argument. A step is one statement. A woken
`pthread_cond_wait` has to take the mutex again before it returns, and may wake without a signal.
`avail` and `tot_consumed` overflow only where more than `INT_MAX` units are made.
-/

namespace Tlpi.ProdConsumer

inductive Party (n : Nat) where
  | main
  | producer (k : Fin n)
  deriving DecidableEq

/-- The next statement of `thread_start`. In `lock` it may still be asleep. -/
inductive ProducerPc where
  | absent
  | loop
  | lock
  | increment
  | unlock
  | signal
  | done
  deriving DecidableEq

/-- The next statement of `main`. `consume` is the test of the inner loop with `--avail`, and
`count` is `++tot_consumed`. -/
inductive MainPc where
  | create (k : Nat)
  | lock
  | testAvail
  | waiting
  | woken
  | consume
  | count
  | testTotal
  | unlock
  | exited
  | failed
  deriving DecidableEq

/-- `i` is the loop variable of each producer. It is advanced with `avail`, so that it counts the
units that were made. -/
structure State (n : Nat) where
  mtx : Option (Party n)
  avail : Int
  totalUnits : Int
  totConsumed : Int
  main : MainPc
  producer : Fin n → ProducerPc
  iterations : Fin n → Int
  i : Fin n → Nat

/-- `wake` is a `pthread_cond_wait` that wakes without a signal. -/
inductive Event (n : Nat) where
  | main
  | producer (k : Fin n)
  | wake

section Step

variable {n : Nat}

/-- Without an argument there is only the usage message. -/
def start : State n where
  mtx := none
  avail := 0
  totalUnits := 0
  totConsumed := 0
  main := if n = 0 then .failed else .create 0
  producer := fun _ => .absent
  iterations := fun _ => 0
  i := fun _ => 0

def State.goto (s : State n) (k : Fin n) (pc : ProducerPc) : State n :=
  { s with producer := Function.update s.producer k pc }

def State.lock (s : State n) (party : Party n) : Option (State n) :=
  if s.mtx = none then some { s with mtx := some party } else none

/-- `pthread_cond_signal`; only `main` ever waits. -/
def State.signal (s : State n) : State n :=
  if s.main = .waiting then { s with main := .woken } else s

def stepProducer (s : State n) (k : Fin n) : Option (State n) :=
  match s.producer k with
  | .absent => none
  | .loop => some (s.goto k (if s.i k < s.iterations k then .lock else .done))
  | .lock => (s.lock (.producer k)).map fun s => s.goto k .increment
  | .increment =>
    some ({ s with
      avail := s.avail + 1
      i := Function.update s.i k (s.i k + 1) }.goto k .unlock)
  | .unlock => some ({ s with mtx := none }.goto k .signal)
  | .signal => some (s.signal.goto k .loop)
  | .done => none

/-- `total_units` is an `int`, and `iterations` a `long`. -/
def create (args : Fin n → List UInt8) (s : State n) (k : Fin n) : State n :=
  match Utils.getNum (args k) with
  | none => { s with main := .failed }
  | some iterations =>
    { s.goto k .loop with
      totalUnits := toInt (s.totalUnits + iterations)
      iterations := Function.update s.iterations k iterations
      main := .create (k + 1) }

def stepMain (args : Fin n → List UInt8) (s : State n) : Option (State n) :=
  match s.main with
  | .create k => if h : k < n then some (create args s ⟨k, h⟩) else some { s with main := .lock }
  | .lock => (s.lock .main).map fun s => { s with main := .testAvail }
  | .testAvail =>
    if s.avail = 0 then some { s with mtx := none, main := .waiting }
    else some { s with main := .consume }
  | .waiting => none
  | .woken => (s.lock .main).map fun s => { s with main := .testAvail }
  | .consume =>
    if s.avail > 0 then some { s with avail := s.avail - 1, main := .count }
    else some { s with main := .testTotal }
  | .count => some { s with totConsumed := s.totConsumed + 1, main := .consume }
  | .testTotal =>
    if s.totConsumed ≥ s.totalUnits then some { s with main := .exited }
    else some { s with main := .unlock }
  | .unlock => some { s with mtx := none, main := .lock }
  | .exited | .failed => none

/-- The end of `main` ends all threads. -/
def step (args : Fin n → List UInt8) (s : State n) (e : Event n) : Option (State n) :=
  if s.main = .exited ∨ s.main = .failed then none
  else
    match e with
    | .main => stepMain args s
    | .producer k => stepProducer s k
    | .wake => if s.main = .waiting then some s.signal else none

end Step

end Tlpi.ProdConsumer
