import TlpiExercises.C.Strings
import TlpiExercises.Library.Loop

/-!
# 12_System_And_Process_Info/proc_tree_view.c

Pointers to entries are indices into `dirList`, which does not grow any more when the tree is drawn.
Allocations succeed, and the tree is not so deep that a column of the output exceeds `int`.
-/

namespace Tlpi.ProcTree

open Loop

structure ProcessInfo where
  pid : CStr
  ppid : CStr
  taken : Bool
  parent : Bool
  deriving DecidableEq

/-- What `printf` puts out: the pid of a process, or what is drawn around the pids. -/
inductive Piece where
  | pid (pid : CStr)
  | text (chars : List Char)
  deriving DecidableEq

structure State where
  dirList : List ProcessInfo
  indentLevels : List Nat
  out : List Piece

def State.print (s : State) (pieces : List Piece) : State := { s with out := s.out ++ pieces }

/-- `da_pop`. -/
def State.pop (s : State) : State := { s with indentLevels := s.indentLevels.dropLast }

def untakenChild (pid : CStr) (entry : ProcessInfo) : Bool :=
  decide (strcmp entry.ppid pid = 0) && !entry.taken

def hasChildren (pid : CStr) (dirList : List ProcessInfo) : Bool := dirList.any (untakenChild pid)

def ProcessInfo.take (entry : ProcessInfo) : ProcessInfo := { entry with taken := true }

def ProcessInfo.makeParent (entry : ProcessInfo) : ProcessInfo := { entry with parent := true }

/-- The first child that is not taken, which is taken then. -/
def findChild (pid : CStr) (dirList : List ProcessInfo) : Option (Nat × List ProcessInfo) :=
  (dirList.findIdx? (untakenChild pid)).map fun i => (i, dirList.modify i ProcessInfo.take)

/-- A round of the loop that collects the children. -/
def takeChild (pid : CStr) (s : List ProcessInfo × List Nat) :
    Except (Option (List ProcessInfo × List Nat)) (List ProcessInfo × List Nat) :=
  match findChild pid s.1 with
  | none => .error (some s)
  | some (child, dirList) =>
    match dirList[child]? with
    | none => .error none
    | some info =>
      if hasChildren info.pid dirList then
        .ok (dirList.modify child ProcessInfo.makeParent, s.2 ++ [child])
      else .ok (dirList, s.2 ++ [child])

def getSpacing (size : Nat) : List Char := List.replicate size ' '

/-- The lines of the levels above; `none` for one outside of the spacing. -/
def drawLevels (childSpacing : List Char) : List Nat → Option (List Char)
  | [] => some childSpacing
  | level :: levels =>
    if level > 2 then
      if level - 2 < childSpacing.length then drawLevels (childSpacing.set (level - 2) '|') levels
      else none
    else drawLevels childSpacing levels

def headerFirstSingle : List Char := ['-', '-', '-']

def headerFirstMulti : List Char := ['-', '+', '-']

def headerMiddle : List Char := [' ', '|', '-']

def headerLast : List Char := [' ', Char.ofNat 96, '-']

/-- What stands before a child that has no children. -/
def leafHeader (childSpacing : List Char) (size : Nat) (first : Bool) (i : Nat) : List Piece :=
  if first then []
  else if i = 0 then
    if size > 1 then [.text childSpacing, .text headerFirstMulti]
    else if size = 1 then [.text childSpacing, .text headerFirstSingle]
    else []
  else if size - 1 ≠ i then [.text childSpacing, .text headerMiddle]
  else [.text childSpacing, .text headerLast]

/-- The loop that prints the children; `visit` is the recursive call. -/
def printChildren (visit : State → Nat → Nat → Bool → Bool → Bool → Option State)
    (childLength : Nat) (childSpacing : List Char) (size : Nat) :
    Bool → Nat → List Nat → State → Option State
  | _, _, [], s => some s
  | first, i, child :: rest, s =>
    match s.dirList[child]? with
    | none => none
    | some info =>
      if info.parent then
        let s := if first then s else s.print [.text childSpacing]
        match visit s child childLength first (i = size - 1) (size > 1) with
        | none => none
        | some s =>
          let s := if size > 1 then s.pop else s
          printChildren visit childLength childSpacing size false (i + 1) rest s
      else
        printChildren visit childLength childSpacing size false (i + 1) rest
          (s.print (leafHeader childSpacing size first i ++ [.pid info.pid, .text ['\n']]))

/-- `printHierarchy`, with at most `fuel` calls inside of each other. -/
def printHierarchy : Nat → State → Nat → Nat → Bool → Bool → Bool → Option State
  | 0, _, _, _, _, _, _ => none
  | fuel + 1, s, parent, initSpacing, firstChild, lastChild, multiChild =>
    let s := if multiChild then { s with indentLevels := s.indentLevels ++ [initSpacing] } else s
    match s.dirList[parent]? with
    | none => none
    | some info =>
      let childLength := initSpacing + 3 + info.pid.length
      match drawLevels (getSpacing (childLength - 3)) s.indentLevels with
      | none => none
      | some childSpacing =>
        match loop (takeChild info.pid) (s.dirList.length + 1) (s.dirList, []) with
        | none => none
        | some none => none
        | some (some (dirList, children)) =>
          let s := { s with dirList }
          let s :=
            if firstChild then s else s.print [.text (if lastChild then headerLast else headerMiddle)]
          let s := s.print [.pid info.pid,
            .text (if children.length > 1 then headerFirstMulti else headerFirstSingle)]
          printChildren (printHierarchy fuel) childLength childSpacing children.length true 0
            children s

/-! ### main -/

/-- A process that the directory stream gives. -/
structure Process where
  pid : CStr
  ppid : CStr
  deriving DecidableEq

/-- What a fresh element of the array has in the fields that `main` does not assign. -/
structure Flags where
  taken : Bool
  parent : Bool
  deriving DecidableEq

def pushProcess (junk : Flags) (process : Process) : ProcessInfo :=
  ⟨process.pid, process.ppid, junk.taken, junk.parent⟩

/-- Each process is pushed with the flags that its element happens to have. -/
def scan (snapshot : List (Process × Flags)) : List ProcessInfo :=
  snapshot.map fun element => pushProcess element.2 element.1

def one : CStr := ⟨[49], by decide⟩

/-- The loop that looks for init; the pointer is not initialised where there is none. -/
def findInit : Nat → Option Nat → List ProcessInfo → Option Nat
  | _, initProcess, [] => initProcess
  | i, initProcess, element :: rest =>
    findInit (i + 1) (if strcmp element.pid one = 0 then some i else initProcess) rest

/-- What `main` prints. -/
def main (fuel : Nat) (snapshot : List (Process × Flags)) : Option (List Piece) :=
  match findInit 0 none (scan snapshot) with
  | none => none
  | some initProcess =>
    (printHierarchy fuel ⟨scan snapshot, [], []⟩ initProcess 0 true true true).map State.out

end Tlpi.ProcTree
