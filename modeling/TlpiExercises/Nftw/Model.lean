import TlpiExercises.C.Strings
import TlpiExercises.Library.FileSystem

/-!
# 18_Directories_And_Links/imp_nftw.c

A tree is what `readdir` gives, in its order. `opendir` and `lstat` fail when the pathname is too long,
`opendir` also when no more than `openMax` directories can be open, and both for reasons of the tree,
such as `EACCES`.
-/

namespace Tlpi.Nftw

def PATH_MAX : Nat := 4096

def ENAMETOOLONG : Int := 36

def EMFILE : Int := 24

/-- `sb` is what `lstat` says about the entry, `lstat` the `errno` if it fails. -/
structure Entry (A : Type) where
  name : CStr
  sb : A
  lstat : Option Int
  deriving DecidableEq

/-- The `d_type` of a directory. -/
inductive DType where
  | dir
  | unknown
  deriving DecidableEq

/-- `opendir` is the `errno` if it fails. -/
structure Directory where
  dType : DType
  opendir : Option Int
  deriving DecidableEq

/-- The rest of a directory. Entries that are no directories have other `d_type`s than `DT_DIR`. -/
inductive Entries (A : Type) where
  | nil
  | other (entry : Entry A) (rest : Entries A)
  | dir (entry : Entry A) (directory : Directory) (children rest : Entries A)

/-- What a call of `fn` returns, the `errno` that it sets, and what it remembers. -/
structure Reply (S : Type) where
  rv : Int
  errno : Option Int
  state : S

/-- A call of `fn` for an entry, with the directories on the way to it, the last one first. -/
structure Visit (A : Type) where
  path : CStr
  entry : Entry A
  dirs : List Directory
  deriving DecidableEq

structure Progress (S A : Type) where
  state : S
  errno : Int
  calls : List (Visit A)

def dot : CStr := ⟨[46], by decide⟩

def dotDot : CStr := ⟨[46, 46], by decide⟩

def slash : CStr := ⟨[FileSystem.slash], by decide⟩

/-- The pathname of an entry, in a buffer of `PATH_MAX + 1` bytes. -/
def entryPath (dirpath name : CStr) : Except Fault CStr := do
  let path ← strcpy (PATH_MAX + 1) dirpath
  let path ← (if strcmp dirpath slash ≠ 0 then strcat (PATH_MAX + 1) path slash else .ok path)
  strcat (PATH_MAX + 1) path name

/-- With the directory itself, `dirs` are open. -/
def opendir (openMax : Nat) (directory : Directory) (dirs : List Directory) (dirpath : CStr) :
    Option Int :=
  if PATH_MAX ≤ dirpath.length then some ENAMETOOLONG
  else if openMax < (directory :: dirs).length then some EMFILE
  else directory.opendir

def lstat {A : Type} (entry : Entry A) (path : CStr) : Option Int :=
  if PATH_MAX ≤ path.length then some ENAMETOOLONG else entry.lstat

/-- A call of `imp_nftw`, by what `opendir` and the loop do. -/
def openAndRead {S A : Type} (opened : Option Int)
    (loop : Progress S A → Except Fault (Progress S A)) (s : Progress S A) :
    Except Fault (Int × Progress S A) :=
  match opened with
  | some errno => .ok (-1, { s with errno })
  | none => do
    let s ← loop s
    return (if s.errno ≠ 0 then -1 else 1, s)

/-- The recursive call, for what `readdir` says is a directory. -/
def descend {S A : Type} (directory : Directory) (opened : Option Int)
    (loop : Progress S A → Except Fault (Progress S A)) (s : Progress S A) :
    Except Fault (Int × Progress S A) :=
  if directory.dType = .dir then openAndRead opened loop s else .ok (0, s)

section Walk

variable {S A : Type} (fn : S → CStr → A → Reply S) (openMax : Nat)

def callFn (v : Visit A) (s : Progress S A) : Int × Progress S A :=
  let reply := fn s.state v.path v.entry.sb
  (reply.rv, ⟨reply.state, reply.errno.getD s.errno, s.calls ++ [v]⟩)

/-- The loop over the entries of a directory. -/
def readEntries (dirpath : CStr) (dirs : List Directory) :
    Entries A → Progress S A → Except Fault (Progress S A)
  | .nil, s => .ok { s with errno := 0 }
  | .other entry rest, s =>
    let s := { s with errno := 0 }
    if strcmp entry.name dot = 0 ∨ strcmp entry.name dotDot = 0 then readEntries dirpath dirs rest s
    else do
      let path ← entryPath dirpath entry.name
      match lstat entry path with
      | some errno => return { s with errno }
      | none =>
        let (rv, s) := callFn fn ⟨path, entry, dirs⟩ s
        if rv = 1 then return s
        readEntries dirpath dirs rest s
  | .dir entry directory children rest, s =>
    let s := { s with errno := 0 }
    if strcmp entry.name dot = 0 ∨ strcmp entry.name dotDot = 0 then readEntries dirpath dirs rest s
    else do
      let path ← entryPath dirpath entry.name
      match lstat entry path with
      | some errno => return { s with errno }
      | none =>
        let (_, s) ← descend directory (opendir openMax directory dirs path)
          (fun s => readEntries path (directory :: dirs) children s) s
        let (rv, s) := callFn fn ⟨path, entry, dirs⟩ s
        if rv = 1 then return s
        readEntries dirpath dirs rest s

/-- `opened` is the `errno` if `dirpath` cannot be opened. -/
def impNftw (dirpath : CStr) (opened : Option Int) (tree : Entries A) (s : Progress S A) :
    Except Fault (Int × Progress S A) :=
  openAndRead (opendir openMax ⟨.dir, opened⟩ [] dirpath)
    (readEntries fn openMax dirpath [⟨.dir, opened⟩] tree) s

end Walk

end Tlpi.Nftw
