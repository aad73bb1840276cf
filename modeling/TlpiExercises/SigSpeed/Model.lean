import Mathlib.Data.Int.Order.Basic
import Mathlib.Logic.Function.Basic
import TlpiExercises.Library.Transitions

/-!
# 22_Signals_Advanced_Features/sig_speed_sigsuspend.c and sig_speed_sigwaitinfo.c

The child and the parent send `TESTSIG` to each other. They differ in the order of their two calls, and
the two programs in the call that waits. A step is one statement, or the delivery of a signal. No
signal comes from outside.
-/

namespace Tlpi.SigSpeed

inductive Wait where
  | sigsuspend
  | sigwaitinfo
  deriving DecidableEq

inductive Party where
  | child
  | parent
  deriving DecidableEq

/-- The next statement of the `for`. A process that is `inside` sleeps in the call that waits. -/
inductive Pc where
  | test
  | kill
  | wait
  | inside
  | increment
  | exited
  | failed
  deriving DecidableEq

/-- `blocked` and `pending` are about `TESTSIG`. `received` counts the signals a wait has returned
for, `interrupted` those whose handler ran elsewhere. -/
structure Process where
  pc : Pc
  scnt : Int
  blocked : Bool
  pending : Bool
  received : Nat
  interrupted : Nat
  deriving DecidableEq

/-- `kills` has who sent a signal to the other, and `strays` counts those sent to process 1. -/
structure State where
  process : Party → Process
  kills : List Party
  strays : Nat

/-- What the command line and the system give; `privileged` lets a process signal process 1. -/
structure Setting where
  wait : Wait
  numSigs : Int
  privileged : Bool

def Party.other : Party → Party
  | .child => .parent
  | .parent => .child

/-- The first statement of the body of its loop. -/
def Party.body : Party → Pc
  | .child => .kill
  | .parent => .wait

def Party.afterKill : Party → Pc
  | .child => .wait
  | .parent => .increment

def Party.afterWait : Party → Pc
  | .child => .increment
  | .parent => .kill

/-- Behind the `fork`, which clears what is pending in the child and keeps the mask. -/
def start : State where
  process := fun _ => ⟨.test, 0, true, false, 0, 0⟩
  kills := []
  strays := 0

namespace State

def set (s : State) (who : Party) (p : Process) : State :=
  { s with process := Function.update s.process who p }

def goto (s : State) (who : Party) (pc : Pc) : State :=
  s.set who { s.process who with pc := pc }

/-- A signal that is already pending stays one signal; nothing happens to a process that has exited
and not been waited for. -/
def post (s : State) (who : Party) : State :=
  match (s.process who).pc with
  | .exited | .failed => s
  | .test | .kill | .wait | .inside | .increment =>
    s.set who { s.process who with pending := true }

/-- `kill(getppid(), TESTSIG)` and `kill(childPid, TESTSIG)`. An orphan's parent is process 1. -/
def kill (s : State) (setting : Setting) (who : Party) : State :=
  let orphan := who = .child ∧ ((s.process .parent).pc = .exited ∨ (s.process .parent).pc = .failed)
  if orphan then
    if setting.privileged then { s with strays := s.strays + 1 }.goto who who.afterKill
    else s.goto who .failed
  else { s.post who.other with kills := s.kills ++ [who] }.goto who who.afterKill

/-- `sigsuspend(&emptyMask)` returns when a signal has come, after its handler. `sigwaitinfo` takes a
signal that is blocked; otherwise the handler runs and makes it fail. -/
def endWait (s : State) (setting : Setting) (who : Party) : Option State :=
  let p := s.process who
  if p.pending then
    if setting.wait = .sigwaitinfo ∧ ¬ p.blocked then
      some (s.set who { p with pc := .failed, pending := false, interrupted := p.interrupted + 1 })
    else
      some (s.set who { p with pc := who.afterWait, pending := false, received := p.received + 1 })
  else none

/-- The handler runs between two statements. -/
def interrupt (s : State) (who : Party) : State :=
  let p := s.process who
  s.set who { p with pending := false, interrupted := p.interrupted + 1 }

end State

def step (setting : Setting) (s : State) (who : Party) : Option State :=
  let p := s.process who
  if p.pending ∧ ¬ p.blocked ∧ p.pc ≠ .inside then some (s.interrupt who)
  else
    match p.pc with
    | .test => some (s.goto who (if p.scnt < setting.numSigs then who.body else .exited))
    | .kill => some (s.kill setting who)
    | .wait => some (s.goto who .inside)
    | .inside => s.endWait setting who
    | .increment => some (s.set who { p with pc := .test, scnt := p.scnt + 1 })
    | .exited | .failed => none

end Tlpi.SigSpeed
