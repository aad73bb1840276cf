import TlpiExercises.C.Fault
import TlpiExercises.C.Libgen

/-!
# 18_Directories_And_Links/imp_realpath.c

A system call does what the file system says, or fails for another reason. The file system does not
change during the call.
-/

namespace Tlpi.Realpath

open FileSystem

/-- The calls of one level of the recursion that fail for another reason. Only for `chdir` is the
reason looked at: that something is not a directory is up to the file system. -/
structure Failures where
  getcwd : Option Error
  chdir : Option Error
  lstat : Option Error
  readlink : Option Error
  chdirDirpart : Option Error
  chDirChdir : Option Error
  chDirGetcwd : Option Error
  getcwdReal : Option Error
  chdirBack : Option Error
  chdir_other : chdir ≠ some .ENOTDIR

def noFailures : Failures :=
  ⟨none, none, none, none, none, none, none, none, none, nofun⟩

/-- The current directory, and the string that the call has written to `resolved_path`. -/
structure Process where
  cwd : Position
  resolved_path : Option (List UInt8)

/-- A function returns a pointer that is NULL or not. -/
abbrev Outcome := Except Fault (Bool × Process)

section Calls

variable (fs : Tree)

/-- The three copies into `resolved_path`, of which the header asks `PATH_MAX + 1` bytes. -/
def putName (realpath basepart : List UInt8) : Except Fault (List UInt8) :=
  if (realpath ++ slash :: basepart).length ≤ PATH_MAX then .ok (realpath ++ slash :: basepart)
  else .error .outOfBounds

def chDir (calls : Failures) (pathname : List UInt8) (s : Process) : Outcome :=
  match attempt calls.chDirChdir (chdir fs s.cwd (dirname pathname)) with
  | .error _ => .ok (false, s)
  | .ok cwd =>
    match attempt calls.chDirGetcwd (getcwd cwd (PATH_MAX + 1)) with
    | .error _ => .ok (false, { s with cwd := cwd })
    | .ok realpath => do
      let written ← putName realpath (basename pathname)
      .ok (true, ⟨cwd, some written⟩)

/-- The last `chdir`. -/
def back (calls : Failures) (cwd : List UInt8) (s : Process) : Outcome :=
  match attempt calls.chdirBack (chdir fs s.cwd cwd) with
  | .error _ => .ok (false, s)
  | .ok cwd => .ok (true, { s with cwd := cwd })

/-- `imp_realpath` at a level of its recursion; the stack has room for that many. -/
def impRealpath (failures : Nat → Failures) : Nat → Nat → List UInt8 → Process → Outcome
  | 0, _, _, _ => .error .stackOverflow
  | fuel + 1, level, pathname, s =>
    let calls := failures level
    match attempt calls.getcwd (getcwd s.cwd (PATH_MAX + 1)) with
    | .error _ => .ok (false, s)
    | .ok cwd =>
      match attempt calls.chdir (chdir fs s.cwd pathname) with
      | .error errno =>
        if errno = .ENOTDIR then
          match attempt calls.lstat (lstat fs s.cwd pathname) with
          | .error _ => .ok (false, s)
          | .ok sb =>
            match fs.kind sb with
            | some (.link _) =>
              match attempt calls.readlink (readlink fs s.cwd pathname) with
              | .error _ => .ok (false, s)
              | .ok link_content =>
                match attempt calls.chdirDirpart (chdir fs s.cwd (dirname pathname)) with
                | .error _ => .ok (false, s)
                | .ok dirpart => do
                  -- what the inner call returns is ignored
                  let (_, s) ← impRealpath failures fuel (level + 1) link_content
                    { s with cwd := dirpart }
                  back fs calls cwd s
            | _ => do
              let (_, s) ← chDir fs calls pathname s
              back fs calls cwd s
        else .ok (false, s)
      | .ok here =>
        match attempt calls.getcwdReal (getcwd here (PATH_MAX + 1)) with
        | .error _ => .ok (false, { s with cwd := here })
        | .ok realpath => back fs calls cwd ⟨here, some realpath⟩

end Calls

end Tlpi.Realpath
