import TlpiExercises.C.Strings
import TlpiExercises.Lib.GetNum
import TlpiExercises.Library.Transitions

/-!
# 26_Monitoring_Child_Processes/sigchild_handler.c

`main`, its handler and one child for each argument. The children sleep for as long as they like.
Another `SIGCHLD` stays pending while one is pending already, and none is delivered except in
`sigsuspend(&oldMask)`, if the mask that was inherited lets it.
-/

namespace Tlpi.SigchildHandler

inductive Child where
  | absent
  | running
  | terminated
  | reaped
  deriving DecidableEq

/-- `fork k` is the test of the `for` before child `k`; `waitpid` and `sleep` are in the handler.
`failed` is an `errExit` or a `usageErr`. -/
inductive MainPc where
  | fork (k : Nat)
  | test
  | sigsuspend
  | waitpid
  | sleep
  | exited
  | failed
  deriving DecidableEq

structure State (n : Nat) where
  main : MainPc
  child : Fin n → Child
  pending : Bool
  childrenLeft : Int
  sigCount : Nat

/-- `reap i` is a `waitpid` that returns the status of child `i`. -/
inductive Event (n : Nat) where
  | main
  | forkFails
  | exits (i : Fin n)
  | reap (i : Fin n)

structure Setting where
  args : List (List UInt8)
  oldBlocked : Bool

abbrev Setting.n (setting : Setting) : Nat := setting.args.length

def start (setting : Setting) : State setting.n where
  main := if setting.args = [] ∨ setting.args = [HELP] then .failed else .fork 0
  child := fun _ => .absent
  pending := false
  childrenLeft := setting.n
  sigCount := 0

namespace State

variable {n : Nat}

def set (s : State n) (i : Fin n) (child : Child) : State n :=
  { s with child := Function.update s.child i child }

/-- A child terminates. -/
def exits (s : State n) (i : Fin n) : Option (State n) :=
  if s.child i = .running then some { s.set i .terminated with pending := true } else none

/-- `--childrenLeft` behind a `waitpid` that has returned a child. -/
def reap (s : State n) (i : Fin n) : Option (State n) :=
  if s.main = .waitpid ∧ s.child i = .terminated then
    some { s.set i .reaped with childrenLeft := s.childrenLeft - 1 }
  else none

end State

def stepMain (setting : Setting) (s : State setting.n) : Option (State setting.n) :=
  match s.main with
  | .fork k =>
    if h : k < setting.n then
      match Utils.getNum setting.args[k] with
      | none => some { s with main := .failed }
      | some _ => some { s.set ⟨k, h⟩ .running with main := .fork (k + 1) }
    else some { s with main := .test }
  | .test => some { s with main := if s.childrenLeft > 0 then .sigsuspend else .exited }
  | .sigsuspend =>
    -- the handler is called
    if s.pending ∧ ¬ setting.oldBlocked then some { s with main := .waitpid, pending := false }
    else none
  | .waitpid =>
    -- 0, or -1 with ECHILD
    if ∀ i, s.child i ≠ .terminated then some { s with main := .sleep } else none
  | .sleep => some { s with main := .test, sigCount := s.sigCount + 1 }
  | .exited | .failed => none

def step (setting : Setting) (s : State setting.n) : Event setting.n → Option (State setting.n)
  | .main => stepMain setting s
  | .forkFails =>
    match s.main with
    | .fork k => if k < setting.n then some { s with main := .failed } else none
    | .test | .sigsuspend | .waitpid | .sleep | .exited | .failed => none
  | .exits i => s.exits i
  | .reap i => s.reap i

end Tlpi.SigchildHandler
