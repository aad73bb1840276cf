import TlpiExercises.Library.Runs

/-!
# 60_Sockets_Server_Design/inetd_echo_sv.c

The parent from its loop on, with its children and SIGCHLD. `main` never sets `sa.sa_flags`, so that
the flags of the handler are whatever stands there.
-/

namespace Tlpi.InetdEcho

/-- The bits of `sa_flags` that matter here. -/
structure Flags where
  noCldWait : Bool
  resetHand : Bool
  restart : Bool

/-- The next statement of the loop. In `accept` it has been called, or is about to be. -/
inductive Pc where
  | testCaught
  | clearCaught
  | reap
  | accept
  | testCount
  | fork
  | closeFailed
  | closeParent
  | countChild
  | exited
  deriving DecidableEq

/-- `handler` is whether `grimReaper` is still installed. `openFds` are the accepted descriptors that
the parent has open; `zombies` are the children that have ended and were not waited for. -/
structure Server where
  pc : Pc
  sigchildCaught : Bool
  pending : Bool
  handler : Bool
  childCount : Nat
  running : Nat
  zombies : Nat
  openFds : Nat
  deriving DecidableEq

def Server.initial : Server := ⟨.testCaught, false, false, true, 0, 0, 0, 0⟩

/-- `main` is a statement that can only go one way. A signal that is delivered may find `accept`
waiting. -/
inductive Event where
  | main
  | connection
  | acceptFails
  | forked
  | forkFails
  | childExits
  | deliver (waiting : Bool)

structure NotPossible

def advance (s : Server) : Except NotPossible Server :=
  match s.pc with
  | .testCaught =>
    if s.sigchildCaught then .ok { s with pc := .clearCaught } else .ok { s with pc := .accept }
  | .clearCaught => .ok { s with sigchildCaught := false, pc := .reap }
  | .reap =>
    match s.zombies with
    | zombies + 1 =>
      .ok { s with
        zombies
        childCount := if s.childCount > 0 then s.childCount - 1 else s.childCount }
    | 0 => .ok { s with pc := .accept }
  | .testCount =>
    if s.childCount ≤ 2 then .ok { s with pc := .fork } else .ok { s with pc := .testCaught }
  | .closeFailed => .ok { s with openFds := s.openFds - 1, pc := .testCaught }
  | .closeParent => .ok { s with openFds := s.openFds - 1, pc := .countChild }
  | .countChild => .ok { s with childCount := s.childCount + 1, pc := .testCaught }
  | .accept | .fork | .exited => .error {}

/-- With `SA_NOCLDWAIT` a child leaves nothing to wait for. -/
def childExits (flags : Flags) (s : Server) : Except NotPossible Server :=
  match s.running with
  | 0 => .error {}
  | running + 1 =>
    .ok { s with
      running
      zombies := if flags.noCldWait then s.zombies else s.zombies + 1
      pending := s.pending || s.handler }

/-- `grimReaper`, and the `EINTR` of an `accept` that waits and is not restarted. -/
def deliver (flags : Flags) (s : Server) (waiting : Bool) : Except NotPossible Server :=
  if s.pending then
    .ok { s with
      pending := false
      sigchildCaught := true
      handler := !flags.resetHand
      pc := if s.pc = .accept ∧ waiting ∧ !flags.restart then .testCaught else s.pc }
  else .error {}

def step (flags : Flags) (s : Server) (e : Event) : Except NotPossible Server :=
  if s.pc = .exited then .error {}
  else
    match e with
    | .main => advance s
    | .connection =>
      if s.pc = .accept then .ok { s with openFds := s.openFds + 1, pc := .testCount }
      else .error {}
    | .acceptFails => if s.pc = .accept then .ok { s with pc := .exited } else .error {}
    | .forked =>
      if s.pc = .fork then .ok { s with running := s.running + 1, pc := .closeParent }
      else .error {}
    | .forkFails => if s.pc = .fork then .ok { s with pc := .closeFailed } else .error {}
    | .childExits => childExits flags s
    | .deliver waiting => deliver flags s waiting

end Tlpi.InetdEcho
