import TlpiExercises.C.Strings
import TlpiExercises.Lib.GetNum
import TlpiExercises.Library.Transitions

/-!
# 55_File_Locking/lockfile_imp.c

The program makes its lock files one after another while other processes make and remove files. A file
that exists is there because of this run or because of someone else.
-/

namespace Tlpi.Lockfile

open Transitions

inductive Owner where
  | run
  | other
  deriving DecidableEq

inductive Exit where
  | success
  | failure
  deriving DecidableEq

/-- Before a round of the inner loop for the file number `file_n`, or after the end. -/
inductive Pc where
  | trying (file_n retry_n : Nat)
  | exited (status : Exit)
  deriving DecidableEq

/-- `created` are the files that `open` has created for the program, and `removed` those that other
processes have removed. -/
structure State (Path : Type*) where
  retries : Int
  fs : Path → Option Owner
  pc : Pc
  created : List Path
  removed : List Path

inductive Event (Path : Type*) where
  | create (path : Path)
  | remove (path : Path)
  /-- The program goes on, and its `open` fails only where the file exists. -/
  | turn
  /-- The program goes on, and its `open` fails for another reason. -/
  | openFails

variable {Path : Type*} [DecidableEq Path]

def step (names : List Path) (s : State Path) : Event Path → Option (State Path)
  | .create path =>
    match s.fs path with
    | some _ => none
    | none => some { s with fs := Function.update s.fs path (some .other) }
  | .remove path =>
    match s.fs path with
    | none => none
    | some _ => some { s with fs := Function.update s.fs path none, removed := path :: s.removed }
  | .turn =>
    match s.pc with
    | .exited _ => none
    | .trying file_n retry_n =>
      match names[file_n]? with
      | none => some { s with pc := .exited .success }
      | some path =>
        if (retry_n : Int) < s.retries then
          match s.fs path with
          | some _ => some { s with pc := .trying file_n (retry_n + 1) }
          | none => some { s with
              fs := Function.update s.fs path (some .run)
              created := s.created ++ [path]
              pc := .trying (file_n + 1) 0 }
        else some { s with pc := .exited .failure }
  | .openFails =>
    match s.pc with
    | .exited _ => none
    | .trying file_n retry_n =>
      if file_n < names.length ∧ (retry_n : Int) < s.retries then some { s with pc := .exited .failure }
      else none

def GN_GT_0 : GetNum.Flags := { gt0 := true }

/-- The count that the inner loop uses. -/
def retriesOf (argv2 : List UInt8) : Option Int :=
  match GetNum.getInt argv2 {} with
  | none => none
  | some retries =>
    if retries < 0 then if retries = -1 then some INT_MAX else none
    else some retries

/-- The arguments are `argv1`, `argv2` and the names. -/
def start (argv1 argv2 : List UInt8) (names : List Path) (existing : Path → Bool) : State Path :=
  let fs := fun path => if existing path then some Owner.other else none
  let failed : State Path := ⟨0, fs, .exited .failure, [], []⟩
  if names = [] ∨ argv1 = HELP then failed
  else
    match GetNum.getInt argv1 GN_GT_0 with
    | none => failed
    | some _ =>
      match retriesOf argv2 with
      | none => failed
      | some retries => ⟨retries, fs, .trying 0 0, [], []⟩

end Tlpi.Lockfile
