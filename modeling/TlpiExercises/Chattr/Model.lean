import Mathlib.Logic.Function.Basic

/-!
# 15_File_Attributes/imp_chattr.c
-/

namespace Tlpi.Chattr

abbrev Flags := BitVec 32

def FS_SECRM_FL : Flags := 0x00000001
def FS_UNRM_FL : Flags := 0x00000002
def FS_COMPR_FL : Flags := 0x00000004
def FS_SYNC_FL : Flags := 0x00000008
def FS_IMMUTABLE_FL : Flags := 0x00000010
def FS_APPEND_FL : Flags := 0x00000020
def FS_NODUMP_FL : Flags := 0x00000040
def FS_NOATIME_FL : Flags := 0x00000080
def FS_NOCOMP_FL : Flags := 0x00000400
def FS_JOURNAL_DATA_FL : Flags := 0x00004000
def FS_NOTAIL_FL : Flags := 0x00008000
def FS_DIRSYNC_FL : Flags := 0x00010000
def FS_TOPDIR_FL : Flags := 0x00020000
def FS_EXTENT_FL : Flags := 0x00080000
def FS_NOCOW_FL : Flags := 0x00800000
def FS_DAX_FL : Flags := 0x02000000
def FS_PROJINHERIT_FL : Flags := 0x20000000
def FS_CASEFOLD_FL : Flags := 0x40000000

/-- The inode that a name of `argv` stands for, and which calls on it fail. -/
structure File (Inode : Type*) where
  inode : Inode
  openFails : Bool
  getFails : Bool
  setFails : Bool

inductive Call where
  | open
  | getFlags
  | setFlags
  deriving DecidableEq

/-- `failed` are the calls that have returned -1. -/
structure Run (Inode : Type*) where
  files : Inode → Flags
  errFnd : Bool
  failed : List Call

structure Exit (Inode : Type*) extends Run Inode where
  status : Nat

def EXIT_SUCCESS : Nat := 0
def EXIT_FAILURE : Nat := 1

/-- `switch (argv[1][i])` -/
def letterFlag : Char → Option Flags
  | 'a' => some FS_APPEND_FL
  | 'c' => some FS_COMPR_FL
  | 'D' => some FS_DIRSYNC_FL
  | 'i' => some FS_IMMUTABLE_FL
  | 'j' => some FS_JOURNAL_DATA_FL
  | 'A' => some FS_NOATIME_FL
  | 'd' => some FS_NODUMP_FL
  | 't' => some FS_NOTAIL_FL
  | 's' => some FS_SECRM_FL
  | 'S' => some FS_SYNC_FL
  | 'T' => some FS_TOPDIR_FL
  | 'u' => some FS_UNRM_FL
  | _ => none

/-- The loop over the letters. `none` stands for `usageErr`. -/
def requestedFlags (flags : Flags) : List Char → Option Flags
  | [] => some flags
  | letter :: rest =>
    match letterFlag letter with
    | some flag => requestedFlags (flags ||| flag) rest
    | none => none

/-- `switch (argv[1][0])` -/
def changedFlags (currentFlags flags : Flags) : Char → Option Flags
  | '+' => some (currentFlags ||| flags)
  | '-' => some (currentFlags &&& ~~~flags)
  | '=' => some flags
  | _ => none

variable {Inode : Type*}

def usageErr (s : Run Inode) : Exit Inode := { s with status := EXIT_FAILURE }

variable [DecidableEq Inode]

/-- A round of the loop over the files. `junk` is what is in `currentFlags` before the call that is to
fill it. -/
def changeFile (operator : Char) (flags junk : Flags) (file : File Inode) (s : Run Inode) :
    Except (Exit Inode) (Run Inode) :=
  if file.openFails then .ok { s with errFnd := true, failed := s.failed ++ [.open] }
  else
    let (currentFlags, s) :=
      if file.getFails then (junk, { s with errFnd := true, failed := s.failed ++ [.getFlags] })
      else (s.files file.inode, s)
    match changedFlags currentFlags flags operator with
    | none => .error (usageErr s)
    | some currentFlags =>
      if file.setFails then .ok { s with errFnd := true, failed := s.failed ++ [.setFlags] }
      else .ok { s with files := Function.update s.files file.inode currentFlags }

/-- `for (int i = 2; i < argc; ++i)` -/
def changeFiles (operator : Char) (flags : Flags) (junk : Nat → Flags) :
    Nat → List (File Inode) → Run Inode → Except (Exit Inode) (Run Inode)
  | _, [], s => .ok s
  | i, file :: rest, s =>
    match changeFile operator flags (junk i) file s with
    | .error exit => .error exit
    | .ok s => changeFiles operator flags junk (i + 1) rest s

/-- `mode` is `argv[1]`, and `files` are the arguments after it. -/
def main (mode : List Char) (files : List (File Inode)) (junk : Nat → Flags) (fs : Inode → Flags) :
    Exit Inode :=
  let start : Run Inode := { files := fs, errFnd := false, failed := [] }
  if files.isEmpty then usageErr start
  else if mode.length = 1 then usageErr start
  else
    match requestedFlags 0 mode.tail with
    | none => usageErr start
    | some flags =>
      match changeFiles (mode.headD '\x00') flags junk 2 files start with
      | .error exit => exit
      | .ok s => { s with status := if s.errFnd then EXIT_FAILURE else EXIT_SUCCESS }

/-! ### The modes that the program documents -/

inductive Operator where
  | add
  | remove
  | set
  deriving DecidableEq

def Operator.char : Operator → Char
  | .add => '+'
  | .remove => '-'
  | .set => '='

def Operator.apply (op : Operator) (old requested : Flags) : Flags :=
  match op with
  | .add => old ||| requested
  | .remove => old &&& ~~~requested
  | .set => requested

inductive Attribute where
  | appendOnly
  | noAtime
  | compressed
  | noCopyOnWrite
  | noDump
  | directorySync
  | extents
  | caseFold
  | immutable
  | dataJournal
  | noCompress
  | projectHierarchy
  | secureDeletion
  | synchronous
  | noTail
  | topDirectory
  | undeletable
  | directAccess
  deriving DecidableEq

namespace Attribute

def letter : Attribute → Char
  | appendOnly => 'a'
  | noAtime => 'A'
  | compressed => 'c'
  | noCopyOnWrite => 'C'
  | noDump => 'd'
  | directorySync => 'D'
  | extents => 'e'
  | caseFold => 'F'
  | immutable => 'i'
  | dataJournal => 'j'
  | noCompress => 'm'
  | projectHierarchy => 'P'
  | secureDeletion => 's'
  | synchronous => 'S'
  | noTail => 't'
  | topDirectory => 'T'
  | undeletable => 'u'
  | directAccess => 'x'

def flag : Attribute → Flags
  | appendOnly => FS_APPEND_FL
  | noAtime => FS_NOATIME_FL
  | compressed => FS_COMPR_FL
  | noCopyOnWrite => FS_NOCOW_FL
  | noDump => FS_NODUMP_FL
  | directorySync => FS_DIRSYNC_FL
  | extents => FS_EXTENT_FL
  | caseFold => FS_CASEFOLD_FL
  | immutable => FS_IMMUTABLE_FL
  | dataJournal => FS_JOURNAL_DATA_FL
  | noCompress => FS_NOCOMP_FL
  | projectHierarchy => FS_PROJINHERIT_FL
  | secureDeletion => FS_SECRM_FL
  | synchronous => FS_SYNC_FL
  | noTail => FS_NOTAIL_FL
  | topDirectory => FS_TOPDIR_FL
  | undeletable => FS_UNRM_FL
  | directAccess => FS_DAX_FL

/-- The program has a `case` for the letter. -/
def Known (a : Attribute) : Prop := (letterFlag a.letter).isSome

end Attribute

/-- `+-=[aAcCdDeFijmPsStTux]`, with at least one letter -/
structure Mode where
  operator : Operator
  attributes : List Attribute
  some_letter : attributes ≠ []

namespace Mode

def argument (mode : Mode) : List Char := mode.operator.char :: mode.attributes.map Attribute.letter

def requested (mode : Mode) : Flags := mode.attributes.foldl (fun flags a => flags ||| a.flag) 0

end Mode

/-- No call on the file fails. -/
def File.succeeds (file : File Inode) : Bool := !file.openFails && !file.getFails && !file.setFails

/-- The flags are set although they have not been got. -/
def File.leaks (file : File Inode) : Bool := !file.openFails && file.getFails && !file.setFails

/-- A file has the operation done, or its old flags. The program fails if a call of it has. -/
structure Conforms (mode : Mode) (files : List (File Inode)) (fs : Inode → Flags) (exit : Exit Inode) :
    Prop where
  changed : ∀ i, exit.files i =
    if ∃ file ∈ files, file.inode = i ∧ file.succeeds then mode.operator.apply (fs i) mode.requested
    else fs i
  failure : exit.status = EXIT_FAILURE ↔ exit.failed ≠ []

end Tlpi.Chattr
