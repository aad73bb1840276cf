import TlpiExercises.Library.Pathnames
import Mathlib.Tactic.ByContra

/-!
# File systems with symbolic links

A position is the names on the way up to the root, so that its parent is its tail. A walk resolves
the names of a pathname one by one and goes on with the target's names at a symbolic link, of which
it follows a bounded number.
-/

namespace FileSystem

open Pathnames

abbrev Name := List UInt8

abbrev Position := List Name

def slash : UInt8 := 47

def dot : Name := [46]

def dotDot : Name := [46, 46]

def PATH_MAX : Nat := 4096

def NAME_MAX : Nat := 255

/-- The symbolic links that the resolution of a pathname follows. -/
def MAXSYMLINKS : Nat := 40

inductive Error where
  | ENOENT
  | ENOTDIR
  | ELOOP
  | ENAMETOOLONG
  | ERANGE
  | EINVAL
  | other (errno : Nat)
  deriving DecidableEq

inductive Kind where
  | dir
  | file
  | link (target : List UInt8)
  deriving DecidableEq

structure ValidName (n : Name) : Prop where
  nonempty : n ≠ []
  short : n.length ≤ NAME_MAX
  free : slash ∉ n
  not_dot : n ≠ dot
  not_dotDot : n ≠ dotDot

structure Tree where
  kind : Position → Option Kind
  root : kind [] = some .dir
  parent : ∀ {n p k}, kind (n :: p) = some k → kind p = some .dir
  name : ∀ {n p k}, kind (n :: p) = some k → ValidName n
  target : ∀ {p t}, kind p = some (.link t) → t ≠ [] ∧ t.length < PATH_MAX

/-- What `readdir` lists, in any order, and the device and the i-node of everything. Several devices may
be mounted, and only things that are not directories have several links. -/
structure Volumes extends Tree where
  readdir : Position → List Name
  listed : ∀ {n p}, kind (n :: p) ≠ none → n ∈ readdir p
  exist : ∀ {n p}, n ∈ readdir p → n = dot ∨ n = dotDot ∨ kind (n :: p) ≠ none
  ino : Position → Nat
  dev : Position → Nat
  distinct : ∀ {p q}, kind p = some .dir → kind q ≠ none → ino q = ino p → dev q = dev p → q = p

/-- The names that a pathname leads through. A separator at its end asks for a directory. -/
def path (s : List UInt8) : List Name :=
  names slash s ++ if s.getLast? = some slash then [dot] else []

def start (cwd : Position) (s : List UInt8) : Position :=
  if s.head? = some slash then [] else cwd

variable (fs : Tree) (follow : Bool)

/-- The walk up to a symbolic link that is to be followed. -/
def walkFrom (onLink : Position → List UInt8 → List Name → Except Error Position) :
    Position → List Name → Except Error Position
  | p, [] => .ok p
  | p, n :: rest =>
    if n = dot then walkFrom onLink p rest
    else if n = dotDot then walkFrom onLink p.tail rest
    else
      match fs.kind (n :: p) with
      | none => .error .ENOENT
      | some .dir => walkFrom onLink (n :: p) rest
      | some .file => if rest = [] then .ok (n :: p) else .error .ENOTDIR
      | some (.link target) =>
        if rest = [] ∧ follow = false then .ok (n :: p) else onLink p target rest

/-- The walk that follows at most that many links; without `follow` not the last name. -/
def walk : Nat → Position → List Name → Except Error Position
  | 0 => walkFrom fs follow fun _ _ _ => .error .ELOOP
  | links + 1 => walkFrom fs follow fun p target rest =>
      walk links (start p target) (path target ++ rest)

def resolve (cwd : Position) (s : List UInt8) : Except Error Position :=
  if s = [] then .error .ENOENT
  else if PATH_MAX ≤ s.length then .error .ENAMETOOLONG
  else walk fs follow MAXSYMLINKS (start cwd s) (path s)

/-! ### System calls -/

def stat (cwd : Position) (s : List UInt8) : Except Error Position := resolve fs true cwd s

def lstat (cwd : Position) (s : List UInt8) : Except Error Position := resolve fs false cwd s

def chdir (cwd : Position) (s : List UInt8) : Except Error Position :=
  match resolve fs true cwd s with
  | .error errno => .error errno
  | .ok p => if fs.kind p = some .dir then .ok p else .error .ENOTDIR

/-- The content of a symbolic link. -/
def readlink (cwd : Position) (s : List UInt8) : Except Error (List UInt8) :=
  match lstat fs cwd s with
  | .error errno => .error errno
  | .ok p =>
    match fs.kind p with
    | some (.link target) => .ok target
    | _ => .error .EINVAL

/-- The absolute pathname of a position. -/
def absolute (p : Position) : List UInt8 := render slash p.reverse

def getcwd (cwd : Position) (size : Nat) : Except Error (List UInt8) :=
  if (absolute cwd).length < size then .ok (absolute cwd) else .error .ERANGE

/-- A call that may also fail for a reason outside of the file system. -/
def attempt {α : Type} (failure : Option Error) (result : Except Error α) : Except Error α :=
  match failure with
  | some errno => .error errno
  | none => result

@[simp] theorem attempt_none {α : Type} (result : Except Error α) : attempt none result = result :=
  rfl

@[simp] theorem attempt_some {α : Type} (errno : Error) (result : Except Error α) :
    attempt (some errno) result = .error errno := rfl

/-! ### A file system with everything in its root -/

instance (n : Name) : Decidable (ValidName n) :=
  decidable_of_iff (n ≠ [] ∧ n.length ≤ NAME_MAX ∧ slash ∉ n ∧ n ≠ dot ∧ n ≠ dotDot)
    ⟨fun ⟨nonempty, short, free, not_dot, not_dotDot⟩ =>
      ⟨nonempty, short, free, not_dot, not_dotDot⟩,
      fun valid => ⟨valid.nonempty, valid.short, valid.free, valid.not_dot, valid.not_dotDot⟩⟩

def Kind.valid : Kind → Bool
  | .link target => target ≠ [] ∧ target.length < PATH_MAX
  | _ => true

structure Flat where
  entries : List (Name × Kind)
  valid : ∀ e ∈ entries, ValidName e.1 ∧ e.2.valid = true

namespace Flat

variable (flat : Flat)

def kind : Position → Option Kind
  | [] => some .dir
  | [n] => flat.entries.lookup n
  | _ => none

variable {flat}

theorem kind_cons {n : Name} {p : Position} {k : Kind} (there : flat.kind (n :: p) = some k) :
    p = [] ∧ (n, k) ∈ flat.entries := by
  cases p with
  | nil =>
    obtain ⟨before, after, whole, _⟩ := List.lookup_eq_some_iff.mp there
    refine ⟨rfl, ?_⟩
    rw [whole]
    exact List.mem_append_cons_self
  | cons m p => cases there

variable (flat)

def tree : Tree where
  kind := flat.kind
  root := rfl
  parent := fun there => by
    rw [(kind_cons there).1]
    rfl
  name := fun there => (flat.valid _ (kind_cons there).2).1
  target := fun {p t} there => by
    cases p with
    | nil => cases there
    | cons n p => exact of_decide_eq_true (flat.valid _ (kind_cons there).2).2

/-- All of it on one device. -/
def volumes : Volumes where
  toTree := flat.tree
  readdir p := if p = [] then flat.entries.map Prod.fst else []
  listed := fun there => by
    obtain ⟨kind, there⟩ := Option.ne_none_iff_exists'.mp there
    obtain ⟨rfl, member⟩ := kind_cons there
    exact List.mem_map_of_mem member
  exist := fun {n p} listed => by
    refine Or.inr (Or.inr fun missing => ?_)
    split at listed
    · rename_i root
      subst root
      obtain ⟨e, member, rfl⟩ := List.mem_map.mp listed
      have other := List.lookup_eq_none_iff.mp missing e member
      exact bne_iff_ne.mp other rfl
    · cases listed
  ino
    | [] => 0
    | n :: _ => (flat.entries.map Prod.fst).idxOf n + 1
  dev _ := 0
  distinct := fun {p q} dir there ino _ => by
    obtain ⟨kind, there⟩ := Option.ne_none_iff_exists'.mp there
    cases p with
    | nil =>
      cases q with
      | nil => rfl
      | cons m q => cases ino
    | cons n p =>
      cases q with
      | nil => cases ino
      | cons m q =>
        obtain ⟨rfl, first⟩ := kind_cons dir
        obtain ⟨rfl, second⟩ := kind_cons there
        have places : (flat.entries.map Prod.fst).idxOf m = (flat.entries.map Prod.fst).idxOf n :=
          Nat.succ.inj ino
        have listed : m ∈ flat.entries.map Prod.fst := List.mem_map_of_mem second
        rw [(List.idxOf_inj listed).mp places]

end Flat

end FileSystem
