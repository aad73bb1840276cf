import TlpiExercises.C.Strings
import TlpiExercises.Library.Directories
import TlpiExercises.Library.Runs

/-!
# 19_Monitoring_File_Events/tree_watch.c

The program beside the directory tree that it watches. Directories come and go between any two of its
steps; a step is one `read`, one event handled, or one directory that `nftw` reports and lists. A
watch belongs to the directory and not to its path, and ends with the directory.
-/

namespace Tlpi.TreeWatch

open Directories

inductive Kind where
  | create
  | delete
  | movedFrom
  | movedTo
  | deleteSelf
  deriving DecidableEq

/-- An event with `IN_ISDIR`; `handleEvent` ignores the others. -/
structure InotifyEvent where
  wd : Nat
  kind : Kind
  name : Option CStr
  deriving DecidableEq

/-- In `handling` the events are in the buffer, in `walking` the paths are those that `nftw` has
still to report. The program has `exited` through `errExit`. -/
inductive Pc where
  | reading
  | handling (buffer : List InotifyEvent)
  | walking (paths : List (List CStr))
  | exited

structure State where
  tree : DirTree CStr
  watches : Nat → Option Nat
  nextWd : Nat
  queue : List InotifyEvent
  pc : Pc

/-- The type flag that `nftw` passes for a directory: `dnr` is one that it cannot read, `ns` one that
it cannot stat. -/
inductive FtwType where
  | d
  | dnr
  | ns
  deriving DecidableEq

/-- The outcomes when `nftw` comes to a path: it goes on, unless an error ends it, and
`inotify_add_watch` succeeds or not. -/
structure Report where
  nftw : Bool
  type : FtwType
  inotifyAddWatch : Bool

/-- `read` returns `count` events, or fails. -/
inductive Action where
  | mkdir (dir : Dir CStr)
  | rmdir (id : Nat)
  | rename (id parent : Nat) (name : CStr)
  | read (count : Option Nat)
  | handle
  | visit (report : Report)

structure NotPossible

/-- `inotify_init`, and `refreshWatches` up to the call of `nftw`. -/
def State.newInstance (s : State) : State :=
  { s with watches := fun _ => none, nextWd := 1, queue := [], pc := .walking [[]] }

def start (tree : DirTree CStr) : State :=
  State.newInstance ⟨tree, fun _ => none, 1, [], .reading⟩

/-- An event of the directory `dir`, if it has a watch. -/
def State.notify (s : State) (dir : Nat) (kind : Kind) (name : Option CStr) : State :=
  match s.watches dir with
  | some wd => { s with queue := s.queue ++ [⟨wd, kind, name⟩] }
  | none => s

def State.unwatch (s : State) (id : Nat) : State :=
  { s with watches := Function.update s.watches id none }

/-- `inotify_add_watch` returns the watch that the directory already has. -/
def State.inotifyAddWatch (s : State) (id : Nat) : State :=
  match s.watches id with
  | some _ => s
  | none => { s with
      watches := Function.update s.watches id (some s.nextWd)
      nextWd := s.nextWd + 1 }

/-- `inotify_rm_watch` fails for a watch that is gone. -/
def State.rmWatch (s : State) (wd : Nat) : State :=
  { s with watches := fun id => if s.watches id = some wd then none else s.watches id }

/-- `errExit`: the watches end with the process. -/
def State.errExit (s : State) : State := { s with watches := fun _ => none, queue := [], pc := .exited }

def mkdir (s : State) (dir : Dir CStr) : Except NotPossible State :=
  if fresh : s.tree.Fresh dir.id then
    if free : s.tree.Free dir.parent dir.name then
      if s.tree.Exists dir.parent then
        .ok ({ s with tree := s.tree.make dir fresh free }.notify dir.parent .create dir.name)
      else .error {}
    else .error {}
  else .error {}

def rmdir (s : State) (id : Nat) : Except NotPossible State :=
  match s.tree.find id with
  | none => .error {}
  | some dir =>
    if s.tree.Leaf id then
      let s := { s with tree := s.tree.remove id }
      .ok (((s.notify id .deleteSelf none).unwatch id).notify dir.parent .delete dir.name)
    else .error {}

/-- A directory cannot be moved below itself. -/
def rename (s : State) (id parent : Nat) (name : CStr) : Except NotPossible State :=
  match s.tree.find id with
  | none => .error {}
  | some dir =>
    if free : s.tree.Free parent name then
      if s.tree.Exists parent ∧ id ∉ s.tree.above s.tree.dirs.length parent then
        let s := { s with tree := s.tree.move id parent name free }
        .ok ((s.notify dir.parent .movedFrom dir.name).notify parent .movedTo name)
      else .error {}
    else .error {}

def handleEvent (s : State) (event : InotifyEvent) : State :=
  if event.kind = .create ∧ event.name.isSome then s.newInstance
  else if event.kind = .deleteSelf then s.rmWatch event.wd
  else s

/-- The paths of the subdirectories of `id`, which `path` leads to. -/
def children (tree : DirTree CStr) (path : List CStr) (id : Nat) : List (List CStr) :=
  (tree.dirs.filter fun dir => dir.parent = id).map fun dir => path ++ [dir.name]

def addWatch (s : State) (id : Nat) (type : FtwType) (inotifyAddWatch : Bool) : State :=
  if type ≠ .d then s
  else if inotifyAddWatch then s.inotifyAddWatch id
  else s.errExit

/-- `addWatch` takes no notice of a path that has come to lead nowhere. Only a directory that can be
read is listed. -/
def visit (s : State) (path : List CStr) (rest : List (List CStr)) (report : Report) : State :=
  match resolve s.tree.dirs root path with
  | some id =>
    let inside := if report.type = .d then children s.tree path id else []
    addWatch { s with pc := .walking (inside ++ rest) } id report.type report.inotifyAddWatch
  | none => { s with pc := .walking rest }

def step (s : State) (a : Action) : Except NotPossible State :=
  match a with
  | .mkdir dir => mkdir s dir
  | .rmdir id => rmdir s id
  | .rename id parent name => rename s id parent name
  | .read count =>
    match s.pc with
    | .reading =>
      match count with
      | none => .ok s.errExit
      | some count =>
        if 0 < count ∧ s.queue ≠ [] then
          .ok { s with queue := s.queue.drop count, pc := .handling (s.queue.take count) }
        else .error {}
    | _ => .error {}
  | .handle =>
    match s.pc with
    | .handling [] => .ok { s with pc := .reading }
    | .handling (event :: rest) => .ok (handleEvent { s with pc := .handling rest } event)
    | _ => .error {}
  | .visit report =>
    match s.pc with
    | .walking paths =>
      if ¬ report.nftw then .ok s.errExit
      else
        match paths with
        | [] => .ok { s with pc := .reading }
        | path :: rest => .ok (visit s path rest report)
    | _ => .error {}

end Tlpi.TreeWatch
