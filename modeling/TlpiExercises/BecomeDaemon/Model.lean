import TlpiExercises.Dup.Open

/-!
# lib/become_daemon.c

The process that calls `becomeDaemon` and the two that it forks.
-/

namespace Tlpi.BecomeDaemon

open Dup

def BD_NO_CHDIR : Nat := 1

def BD_NO_CLOSE_FILES : Nat := 2

def BD_NO_REOPEN_STD_FDS : Nat := 4

def BD_NO_UMASK0 : Nat := 8

def BD_MAX_CLOSE : Nat := 8192

/-- `F` are the open files, `D` the directories. -/
structure Process (F D : Type*) where
  pid : Nat
  pgid : Nat
  sid : Nat
  controllingTty : Bool
  umask : Nat
  cwd : D
  table : Table F

/-- What the system calls do: the PIDs of the forked processes, whether `chdir` succeeds, the limit that
`sysconf` knows, and whether `/dev/null` can be opened. -/
structure Calls where
  fork : Option Nat
  forkAgain : Option Nat
  chdir : Bool
  sysconf : Option Nat
  openNull : Bool

/-- The end of a process in `becomeDaemon`. -/
inductive End where
  | exited
  | returned (rv : Int)
  deriving DecidableEq

section Calls

variable {F D : Type*}

/-- `setsid` fails for a process group leader. -/
def setsid (p : Process F D) : Option (Process F D) :=
  if p.pgid = p.pid then none else some { p with pgid := p.pid, sid := p.pid, controllingTty := false }

def isSet (flags bit : Nat) : Bool := flags &&& bit ≠ 0

/-- `for (fd = 0; fd < maxfd; fd++) close(fd)` -/
def closeAll (t : Table F) (maxfd : Nat) : Table F := (List.range maxfd).foldl (fun t fd => close t fd) t

/-- The standard descriptors on `/dev/null`; `none` where -1 is returned, with the table up to there. -/
def reopen (null : F) (openNull : Bool) (t : Table F) : Bool × Table F :=
  let t := close t 0
  match if openNull then t.openFile null else none with
  | none => (false, t)
  | some (fd, t) =>
    if fd ≠ 0 then (false, t)
    else
      match t.dup2 0 1 with
      | none => (false, t)
      | some t =>
        match t.dup2 0 2 with
        | none => (false, t)
        | some t => (true, t)

/-- From `umask` to the closing of all files. -/
def prepare (flags : Nat) (root : D) (calls : Calls) (p : Process F D) : Process F D :=
  let p := if isSet flags BD_NO_UMASK0 then p else { p with umask := 0 }
  let p := if isSet flags BD_NO_CHDIR then p else if calls.chdir then { p with cwd := root } else p
  if isSet flags BD_NO_CLOSE_FILES then p
  else { p with table := closeAll p.table (calls.sysconf.getD BD_MAX_CLOSE) }

/-- What the second child does. -/
def setUp (flags : Nat) (null : F) (root : D) (calls : Calls) (p : Process F D) : End × Process F D :=
  let p := prepare flags root calls p
  if isSet flags BD_NO_REOPEN_STD_FDS then (.returned 0, p)
  else
    let (done, table) := reopen null calls.openNull p.table
    (.returned (if done then 0 else -1), { p with table })

/-- The processes in the order of their creation, each with how it leaves the function. -/
def becomeDaemon (flags : Nat) (null : F) (root : D) (calls : Calls) (p : Process F D) :
    List (End × Process F D) :=
  match calls.fork with
  | none => [(.returned (-1), p)]
  | some pid =>
    (.exited, p) ::
      match setsid { p with pid } with
      | none => [(.returned (-1), { p with pid })]
      | some leader =>
        match calls.forkAgain with
        | none => [(.returned (-1), leader)]
        | some pid => [(.exited, leader), setUp flags null root calls { leader with pid }]

end Calls

end Tlpi.BecomeDaemon
