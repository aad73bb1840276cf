import TlpiExercises.C.Fault
import TlpiExercises.Library.Loop
import TlpiExercises.Library.Resolution

/-!
# 18_Directories_And_Links/imp_getcwd.c

A system call does what the file system says, or fails for another reason. The file system does not
change during the call, and the allocations of the array succeed.
-/

namespace Tlpi.Getcwd

open FileSystem Loop

/-- The calls of one round that fail for another reason. `readdir` and `stat` of an entry are counted
from the beginning of the directory. -/
structure Climb where
  statCurrent : Option Error
  chdirUp : Option Error
  statParent : Option Error
  opendir : Option Error
  readdir : Nat → Option Error
  statEntry : Nat → Option Error
  closedir : Option Error

structure Failures where
  getcwd : Option Error
  climb : Nat → Climb
  chdirBack : Option Error

def noFailures : Failures :=
  ⟨none, fun _ => ⟨none, none, none, none, fun _ => none, fun _ => none, none⟩, none⟩

/-- How the search of a directory ends: in a return, with `errno` set, or with the entry if it is
found. -/
inductive Scan where
  | null (errno : Error)
  | failed
  | done (component : Option Name)

/-- `pathComponents` has the name of the directory itself first. -/
structure State where
  cwd : Position
  level : Nat
  pathComponents : List Name

inductive Ending where
  | null (errno : Error) (cwd : Position)
  | exit
  | root (cwd : Position) (pathComponents : List Name)

/-- How a call of `imp_getcwd` ends. When it returns, the process is in `cwd`. -/
inductive Outcome where
  | returned (result : Except Error (List UInt8)) (cwd : Position)
  | exited
  | undefined (fault : Fault)

section Calls

variable (v : Volumes)

/-- The loop over the entries of the directory, with the current directory to be found. -/
def scan (climb : Climb) (cwd current : Position) : Nat → List Name → Scan
  | i, entries =>
    match climb.readdir i with
    | some _ => .failed
    | none =>
      match entries with
      | [] => .done none
      | d_name :: rest =>
        if d_name = dot ∨ d_name = dotDot then scan climb cwd current (i + 1) rest
        else
          match attempt (climb.statEntry i) (stat v.toTree cwd d_name) with
          | .error errno => .null errno
          | .ok entry =>
            if v.ino entry = v.ino current ∧ v.dev entry = v.dev current then .done (some d_name)
            else scan climb cwd current (i + 1) rest
termination_by structural _ entries => entries

/-- The end of a round. -/
def afterScan (closedir : Option Error) (s : State) (cwd : Position) : Scan → Except Ending State
  | .null errno => .error (.null errno cwd)
  | .failed => .error .exit
  | .done component =>
    if closedir ≠ none then .error .exit
    else .ok ⟨cwd, s.level + 1, s.pathComponents ++ component.toList⟩

/-- One round of the loop. -/
def round (climb : Nat → Climb) (s : State) : Except Ending State :=
  let calls := climb s.level
  match attempt calls.statCurrent (stat v.toTree s.cwd dot) with
  | .error errno => .error (.null errno s.cwd)
  | .ok current =>
    match attempt calls.chdirUp (chdir v.toTree s.cwd dotDot) with
    | .error errno => .error (.null errno s.cwd)
    | .ok cwd =>
      match attempt calls.statParent (stat v.toTree cwd dot) with
      | .error errno => .error (.null errno cwd)
      | .ok parent =>
        if v.ino current = v.ino parent ∧ v.dev current = v.dev parent then
          .error (.root cwd s.pathComponents)
        else
          match calls.opendir with
          | some errno => .error (.null errno cwd)
          | none =>
            afterScan calls.closedir s cwd (scan v calls cwd current 0 (v.readdir cwd))

/-- `strcat`, on the bytes of the strings. -/
def strcat (size : Nat) (dest source : List UInt8) : Except Fault (List UInt8) :=
  if dest.length + source.length < size then .ok (dest ++ source) else .error .outOfBounds

/-- The components behind the first `/`, with one `/` between each two. -/
def putComponents (size : Nat) : List UInt8 → List Name → Except Fault (List UInt8)
  | cwdbuf, [] => .ok cwdbuf
  | cwdbuf, component :: rest => do
    let cwdbuf ← strcat size cwdbuf component
    let cwdbuf ← (if rest = [] then .ok cwdbuf else strcat size cwdbuf [slash])
    putComponents size cwdbuf rest

/-- The length with the NUL, as the loop counts it: from 1, and one more for each `/`. -/
def pathLength (pathComponents : List Name) : Nat :=
  1 + (pathComponents.map fun component => component.length + 1).sum

/-- What follows the loop. -/
def finish (chdirBack : Option Error) (size : Nat) (cwd : List UInt8) (here : Position)
    (pathComponents : List Name) : Outcome :=
  if size < pathLength pathComponents then .returned (.error .ERANGE) here
  else if PATH_MAX ≤ pathLength pathComponents then .returned (.error .ENAMETOOLONG) here
  else
    match (do
      let cwdbuf ← strcat size [] [slash]
      putComponents size cwdbuf pathComponents.reverse) with
    | .error fault => .undefined fault
    | .ok cwdbuf =>
      match attempt chdirBack (chdir v.toTree here cwd) with
      | .error _ => .exited
      | .ok back => .returned (.ok cwdbuf) back

/-- What the loop ends with, as the end of the call. -/
def afterLoop (chdirBack : Option Error) (size : Nat) (cwd : List UInt8) : Ending → Outcome
  | .null errno here => .returned (.error errno) here
  | .exit => .exited
  | .root here pathComponents => finish v chdirBack size cwd here pathComponents

/-- `imp_getcwd` in the directory `here`; the loop makes at most `fuel` rounds. -/
def impGetcwd (failures : Failures) (here : Position) (size fuel : Nat) : Option Outcome :=
  match attempt failures.getcwd (getcwd here PATH_MAX) with
  | .error errno => some (.returned (.error errno) here)
  | .ok cwd =>
    (loop (round v failures.climb) fuel ⟨here, 0, []⟩).map
      (afterLoop v failures.chdirBack size cwd)

end Calls

end Tlpi.Getcwd
