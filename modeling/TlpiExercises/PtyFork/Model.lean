import TlpiExercises.C.Strings
import TlpiExercises.Dup.Open

/-!
# lib/pty_master_open.c and lib/pty_fork.c

The descriptors of the parent and of the child. `errno`, which both functions keep over their calls of
`close`, is left out, and so is what the terminal attributes are.
-/

namespace Tlpi.PtyFork

open Dup

def MAX_SNAME : Nat := 1000

def STDIN_FILENO : Nat := 0

def STDOUT_FILENO : Nat := 1

def STDERR_FILENO : Nat := 2

/-- The two ends of the pseudoterminal, among the open files. -/
structure Pty (F : Type*) where
  master : F
  slave : F

/-- What the system calls do. `posixOpenpt` and `openSlave` may also find the table full; `fork` is the
PID of the child. -/
structure Calls where
  posixOpenpt : Bool
  grantpt : Bool
  unlockpt : Bool
  ptsname : Option CStr
  fork : Option { pid : Int // 0 < pid }
  setsid : Bool
  openSlave : Bool
  setControlling : Bool
  tcsetattr : Bool
  setWinsize : Bool

section Calls

variable {F : Type*}

/-- The descriptor and the name of the slave, or -1. -/
def ptyMasterOpen (t : Table F) (pty : Pty F) (calls : Calls) (snLen : Nat) :
    Option (Nat × CStr) × Table F :=
  match if calls.posixOpenpt then t.openFile pty.master else none with
  | none => (none, t)
  | some (masterFd, t) =>
    if calls.grantpt = false then (none, close t masterFd)
    else if calls.unlockpt = false then (none, close t masterFd)
    else
      match calls.ptsname with
      | none => (none, close t masterFd)
      | some p => if p.length < snLen then (some (masterFd, p), t) else (none, close t masterFd)

/-- The child from `setsid` on; `none` is `err_exit`. -/
def ptyChild (t : Table F) (pty : Pty F) (calls : Calls) (slaveTermios slaveWS : Bool) (mfd : Nat) :
    Option (Table F) :=
  if calls.setsid = false then none
  else
    let t := close t mfd
    match if calls.openSlave then t.openFile pty.slave else none with
    | none => none
    | some (slaveFd, t) => do
      if calls.setControlling = false then none
      else if slaveTermios ∧ calls.tcsetattr = false then none
      else if slaveWS ∧ calls.setWinsize = false then none
      else
        let t ← t.dup2 slaveFd STDIN_FILENO
        let t ← t.dup2 slaveFd STDOUT_FILENO
        let t ← t.dup2 slaveFd STDERR_FILENO
        return if slaveFd > STDERR_FILENO then close t slaveFd else t

/-- What `ptyFork` returns to the parent, with `*masterFd` and the table; and the table of a child to which
it returns 0. -/
structure Forked (F : Type*) where
  rv : Int
  masterFd : Option Nat
  parent : Table F
  child : Option (Table F)

/-- `snLen` is `none` where `slaveName` is NULL. -/
def ptyFork (t : Table F) (pty : Pty F) (calls : Calls) (snLen : Option Nat)
    (slaveTermios slaveWS : Bool) : Forked F :=
  match ptyMasterOpen t pty calls MAX_SNAME with
  | (none, t) => ⟨-1, none, t, none⟩
  | (some (mfd, slname), t) =>
    if snLen.all fun snLen => decide (slname.length < snLen) then
      match calls.fork with
      | none => ⟨-1, none, close t mfd, none⟩
      | some pid => ⟨pid, some mfd, t, ptyChild t pty calls slaveTermios slaveWS mfd⟩
    else ⟨-1, none, close t mfd, none⟩

end Calls

end Tlpi.PtyFork
