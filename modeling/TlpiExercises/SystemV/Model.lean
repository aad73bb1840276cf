import Mathlib.Data.Finset.Insert
import Mathlib.Data.Finset.Erase

/-!
# 22_Signals_Advanced_Features/system_v_funcs.c

`imp_sigset`, `imp_sighold`, `imp_sigrelse` and `imp_sigignore`, on the signal mask, the dispositions
and the pending signals of a process. A handler that is called returns.
-/

namespace Tlpi.SystemV

/-- What becomes of a process that gets a signal whose disposition is `SIG_DFL`. -/
inductive DefaultAction where
  | terminate
  | ignore
  | stop
  | continue
  deriving DecidableEq

def SIGKILL : Nat := 9
def SIGCHLD : Nat := 17
def SIGCONT : Nat := 18
def SIGSTOP : Nat := 19
def SIGTSTP : Nat := 20
def SIGTTIN : Nat := 21
def SIGTTOU : Nat := 22
def SIGURG : Nat := 23
def SIGWINCH : Nat := 28

def defaultAction (sig : Nat) : DefaultAction :=
  if sig = SIGCHLD ∨ sig = SIGURG ∨ sig = SIGWINCH then .ignore
  else if sig = SIGCONT then .continue
  else if sig = SIGSTOP ∨ sig = SIGTSTP ∨ sig = SIGTTIN ∨ sig = SIGTTOU then .stop
  else .terminate

/-- A signal for which a handler can be set. 32 and 33 belong to the C library. -/
def Catchable (sig : Nat) : Prop :=
  1 ≤ sig ∧ sig ≤ 64 ∧ sig ≠ SIGKILL ∧ sig ≠ SIGSTOP ∧ sig ≠ 32 ∧ sig ≠ 33

instance : DecidablePred Catchable := fun sig => inferInstanceAs (Decidable (1 ≤ sig ∧ _))

abbrev Signal := { sig : Nat // Catchable sig }

/-- What the kernel keeps for a signal. A handler is given by its address. -/
inductive Disposition where
  | SIG_DFL
  | SIG_IGN
  | handler (function : Nat)
  deriving DecidableEq

/-- The argument of `sigset`. -/
inductive Disp where
  | SIG_HOLD
  | disposition (d : Disposition)
  deriving DecidableEq

/-- What `sigset` returns. -/
inductive Sighandler where
  | SIG_ERR
  | SIG_HOLD
  | disposition (d : Disposition)
  deriving DecidableEq

/-- A signal that is not blocked does not stay pending. `delivered` are the signals that the process has
got, each with the disposition that it had then. -/
structure Process where
  mask : Finset Nat
  disposition : Nat → Disposition
  pending : Finset Nat
  delivered : List (Nat × Disposition)
  held : pending ⊆ mask

/-- `error` is a call in which a signal has terminated the process. -/
abbrev Call (α : Type) := Process → Except Process (α × Process)

namespace Process

def block (s : Process) (sig : Nat) : Process where
  mask := insert sig s.mask
  disposition := s.disposition
  pending := s.pending
  delivered := s.delivered
  held := s.held.trans (Finset.subset_insert sig s.mask)

/-- A pending signal is delivered. -/
def unblock (s : Process) (sig : Nat) : Process where
  mask := s.mask.erase sig
  disposition := s.disposition
  pending := s.pending.erase sig
  delivered := if sig ∈ s.pending then s.delivered ++ [(sig, s.disposition sig)] else s.delivered
  held := Finset.erase_subset_erase sig s.held

/-- The delivery of the signal terminates the process. -/
def Fatal (s : Process) (sig : Nat) : Prop :=
  sig ∈ s.pending ∧ s.disposition sig = .SIG_DFL ∧ defaultAction sig = .terminate

instance (s : Process) (sig : Nat) : Decidable (s.Fatal sig) :=
  inferInstanceAs (Decidable (sig ∈ s.pending ∧ _))

/-- A pending signal that is ignored from now on is discarded. -/
def setDisposition (s : Process) (sig : Nat) (d : Disposition) : Process where
  mask := s.mask
  disposition := fun other => if other = sig then d else s.disposition other
  pending :=
    if d = .SIG_IGN ∨ (d = .SIG_DFL ∧ defaultAction sig = .ignore) then s.pending.erase sig
    else s.pending
  delivered := s.delivered
  held := by
    split
    · exact (Finset.erase_subset sig s.pending).trans s.held
    · exact s.held

end Process

/-! ### The system calls -/

inductive How where
  | SIG_BLOCK
  | SIG_UNBLOCK
  deriving DecidableEq

/-- `sigprocmask` with the set that `sigaddset` has made of `sig`. It does not block what cannot be
caught. -/
def sigprocmask (how : How) (sig : Nat) : Call Int := fun s =>
  if ¬ Catchable sig then .ok (0, s)
  else
    match how with
    | .SIG_BLOCK => .ok (0, s.block sig)
    | .SIG_UNBLOCK =>
      if s.Fatal sig then .error (s.unblock sig) else .ok (0, s.unblock sig)

/-- `sigaction`, with the old disposition where it does not fail. -/
def sigaction (sig : Nat) (d : Disposition) : Call (Option Disposition) := fun s =>
  if Catchable sig then .ok (some (s.disposition sig), s.setDisposition sig d) else .ok (none, s)

/-! ### The functions -/

def impSigset (sig : Nat) (disp : Disp) : Call Sighandler := fun s => do
  let set : How := if disp = .SIG_HOLD then .SIG_BLOCK else .SIG_UNBLOCK
  let (rv, s) ← sigprocmask set sig s
  if rv = -1 then return (.SIG_ERR, s)
  match disp with
  | .SIG_HOLD => return (.SIG_HOLD, s)
  | .disposition d =>
    let (osa, s) ← sigaction sig d s
    match osa with
    | none => return (.SIG_ERR, s)
    | some old => return (.disposition old, s)

def impSighold (sig : Nat) : Call Int := fun s => do
  let (rv, s) ← sigprocmask .SIG_BLOCK sig s
  if rv = -1 then return (-1, s) else return (0, s)

def impSigrelse (sig : Nat) : Call Int := fun s => do
  let (rv, s) ← sigprocmask .SIG_UNBLOCK sig s
  if rv = -1 then return (-1, s) else return (0, s)

def impSigignore (sig : Nat) : Call Int := fun s => do
  let (old, s) ← sigaction sig .SIG_IGN s
  if old.isNone then return (-1, s) else return (0, s)

/-! ### Sequences of calls -/

inductive Request where
  | sigset (sig : Signal) (disp : Disp)
  | sighold (sig : Signal)
  | sigrelse (sig : Signal)
  | sigignore (sig : Signal)

inductive Returned where
  | handler (handler : Sighandler)
  | status (rv : Int)
  deriving DecidableEq

/-- An implementation of the four functions. -/
structure Functions where
  sigset : Nat → Disp → Call Sighandler
  sighold : Nat → Call Int
  sigrelse : Nat → Call Int
  sigignore : Nat → Call Int

def Functions.call (f : Functions) (request : Request) : Call Returned := fun s =>
  match request with
  | .sigset sig disp => (f.sigset sig.1 disp s).map fun r => (.handler r.1, r.2)
  | .sighold sig => (f.sighold sig.1 s).map fun r => (.status r.1, r.2)
  | .sigrelse sig => (f.sigrelse sig.1 s).map fun r => (.status r.1, r.2)
  | .sigignore sig => (f.sigignore sig.1 s).map fun r => (.status r.1, r.2)

/-- What the calls have returned, and the process behind them, as far as it has come. -/
def Functions.run (f : Functions) : List Request → Process → List Returned × Except Process Process
  | [], s => ([], .ok s)
  | request :: rest, s =>
    match f.call request s with
    | .error killed => ([], .error killed)
    | .ok (returned, s) => (returned :: (f.run rest s).1, (f.run rest s).2)

def imp : Functions := ⟨impSigset, impSighold, impSigrelse, impSigignore⟩

end Tlpi.SystemV
