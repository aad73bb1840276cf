import Mathlib.Data.List.Basic

/-!
# Directory trees

Directories with a parent and a name, and the three operations that change a tree. A directory keeps
its number when it moves, so that a path may come to mean another directory.
-/

namespace Tlpi.Directories

variable {α : Type*}

structure Dir (α : Type*) where
  id : Nat
  parent : Nat
  name : α
  deriving DecidableEq

def root : Nat := 0

/-- Stands for every place that is not in the list. -/
def outside : Nat := 1

structure DirTree (α : Type*) where
  dirs : List (Dir α)
  ids : ∀ d ∈ dirs, ∀ e ∈ dirs, d.id = e.id → d = e
  names : ∀ d ∈ dirs, ∀ e ∈ dirs, d.parent = e.parent → d.name = e.name → d = e
  tops : ∀ d ∈ dirs, d.id ≠ root ∧ d.id ≠ outside

/-- `d` is the directory `a`, or lies below it. -/
inductive Under (dirs : List (Dir α)) (a : Nat) : Nat → Prop where
  | here : Under dirs a a
  | child {d : Dir α} (member : d ∈ dirs) (parent : Under dirs a d.parent) : Under dirs a d.id

/-- The path leads from `a` to `b`. -/
def Path (dirs : List (Dir α)) (a b : Nat) : List α → Prop
  | [] => a = b
  | name :: rest => ∃ d ∈ dirs, d.parent = a ∧ d.name = name ∧ Path dirs d.id b rest

section Paths

variable {dirs dirs' : List (Dir α)} {a b c : Nat} {path : List α}

theorem under_trans (first : Under dirs a b) (second : Under dirs b c) : Under dirs a c := by
  induction second with
  | here => exact first
  | child member _ ih => exact .child member ih

theorem under_top (under : Under dirs a b) :
    b = a ∨ ∃ d ∈ dirs, d.parent = a ∧ Under dirs d.id b := by
  induction under with
  | here => exact Or.inl rfl
  | @child d member _ ih =>
    rcases ih with same | ⟨top, topMember, parent, above⟩
    · exact Or.inr ⟨d, member, same, .here⟩
    · exact Or.inr ⟨top, topMember, parent, .child member above⟩

theorem path_child (leads : Path dirs a b path) {d : Dir α} (member : d ∈ dirs)
    (parent : d.parent = b) : Path dirs a d.id (path ++ [d.name]) := by
  induction path generalizing a with
  | nil =>
    cases leads
    exact ⟨d, member, parent, rfl, rfl⟩
  | cons name rest ih =>
    obtain ⟨e, eMember, eParent, eName, leads⟩ := leads
    exact ⟨e, eMember, eParent, eName, ih leads⟩

theorem path_under (leads : Path dirs a b path) : Under dirs a b := by
  induction path generalizing a with
  | nil =>
    cases leads
    exact .here
  | cons name rest ih =>
    obtain ⟨d, member, rfl, _, leads⟩ := leads
    exact under_trans (.child member .here) (ih leads)

/-- The directories with the property are the same, and so are those above them. -/
def Keeps (Q : Nat → Prop) (dirs dirs' : List (Dir α)) : Prop :=
  ∀ d ∈ dirs, Q d.id → d ∈ dirs' ∧ Q d.parent

variable {Q : Nat → Prop}

theorem under_keeps (keeps : Keeps Q dirs dirs') (property : Q b) (under : Under dirs a b) :
    Under dirs' a b ∧ Q a := by
  induction under with
  | here => exact ⟨.here, property⟩
  | child member _ ih =>
    obtain ⟨kept, above⟩ := keeps _ member property
    obtain ⟨under, top⟩ := ih above
    exact ⟨.child kept under, top⟩

theorem path_keeps (keeps : Keeps Q dirs dirs') (property : Q b) (leads : Path dirs a b path) :
    Path dirs' a b path ∧ Q a := by
  induction path generalizing a with
  | nil =>
    cases leads
    exact ⟨rfl, property⟩
  | cons name rest ih =>
    obtain ⟨d, member, rfl, same, leads⟩ := leads
    obtain ⟨leads, here⟩ := ih leads
    obtain ⟨kept, above⟩ := keeps d member here
    exact ⟨⟨d, kept, rfl, same, leads⟩, above⟩

/-- One of the paths leads to the directory, or to one above it. -/
def Ahead (dirs : List (Dir α)) (paths : List (List α)) (d : Nat) : Prop :=
  ∃ path ∈ paths, ∃ a, Path dirs root a path ∧ Under dirs a d

theorem ahead_keeps (keeps : Keeps Q dirs dirs') {paths : List (List α)} (property : Q b)
    (ahead : Ahead dirs paths b) : Ahead dirs' paths b := by
  obtain ⟨path, member, a, leads, under⟩ := ahead
  obtain ⟨under, top⟩ := under_keeps keeps property under
  exact ⟨path, member, a, (path_keeps keeps top leads).1, under⟩

theorem ahead_under {paths : List (List α)} (ahead : Ahead dirs paths a)
    (under : Under dirs a b) : Ahead dirs paths b := by
  obtain ⟨path, member, top, leads, above⟩ := ahead
  exact ⟨path, member, top, leads, under_trans above under⟩

end Paths

/-! ### Looking up -/

section Resolve

variable [DecidableEq α]

def lookup (dirs : List (Dir α)) (parent : Nat) (name : α) : Option (Dir α) :=
  dirs.find? fun d => d.parent = parent ∧ d.name = name

def resolve (dirs : List (Dir α)) (a : Nat) : List α → Option Nat
  | [] => some a
  | name :: rest =>
    match lookup dirs a name with
    | some d => resolve dirs d.id rest
    | none => none

theorem lookup_iff (tree : DirTree α) {parent : Nat} {name : α} {d : Dir α} :
    lookup tree.dirs parent name = some d ↔
      d ∈ tree.dirs ∧ d.parent = parent ∧ d.name = name := by
  unfold lookup
  constructor
  · intro found
    have here := List.find?_some found
    exact ⟨List.mem_of_find?_eq_some found, by simpa using here⟩
  · rintro ⟨member, rfl, rfl⟩
    cases found : tree.dirs.find? fun e => e.parent = d.parent ∧ e.name = d.name with
    | none =>
      have missing := List.find?_eq_none.mp found d member
      simp at missing
    | some e =>
      have here := List.find?_some found
      have same : e.parent = d.parent ∧ e.name = d.name := by simpa using here
      rw [tree.names e (List.mem_of_find?_eq_some found) d member same.1 same.2]

theorem resolve_iff (tree : DirTree α) {a b : Nat} {path : List α} :
    resolve tree.dirs a path = some b ↔ Path tree.dirs a b path := by
  induction path generalizing a with
  | nil => exact Option.some_inj
  | cons name rest ih =>
    rw [resolve]
    constructor
    · intro resolved
      split at resolved
      · rename_i d found
        obtain ⟨member, parent, same⟩ := (lookup_iff tree).mp found
        exact ⟨d, member, parent, same, ih.mp resolved⟩
      · cases resolved
    · rintro ⟨d, member, parent, same, leads⟩
      rw [(lookup_iff tree).mpr ⟨member, parent, same⟩]
      exact ih.mpr leads

end Resolve

/-! ### Changes -/

namespace DirTree

def Exists (t : DirTree α) (id : Nat) : Prop := id = root ∨ id = outside ∨ ∃ d ∈ t.dirs, d.id = id

def Fresh (t : DirTree α) (id : Nat) : Prop :=
  id ≠ root ∧ id ≠ outside ∧ ∀ d ∈ t.dirs, d.id ≠ id ∧ d.parent ≠ id

def Free (t : DirTree α) (parent : Nat) (name : α) : Prop :=
  ∀ d ∈ t.dirs, ¬ (d.parent = parent ∧ d.name = name)

def Leaf (t : DirTree α) (id : Nat) : Prop := ∀ d ∈ t.dirs, d.parent ≠ id

def find (t : DirTree α) (id : Nat) : Option (Dir α) := t.dirs.find? fun d => d.id = id

/-- The directory and those above it, as far as the fuel goes. -/
def above (t : DirTree α) : Nat → Nat → List Nat
  | 0, id => [id]
  | fuel + 1, id =>
    match t.find id with
    | some d => id :: t.above fuel d.parent
    | none => [id]

instance (t : DirTree α) (id : Nat) : Decidable (t.Exists id) :=
  inferInstanceAs (Decidable (id = root ∨ id = outside ∨ ∃ d ∈ t.dirs, d.id = id))

instance (t : DirTree α) (id : Nat) : Decidable (t.Fresh id) :=
  inferInstanceAs (Decidable (id ≠ root ∧ id ≠ outside ∧ ∀ d ∈ t.dirs, d.id ≠ id ∧ d.parent ≠ id))

instance [DecidableEq α] (t : DirTree α) (parent : Nat) (name : α) :
    Decidable (t.Free parent name) :=
  inferInstanceAs (Decidable (∀ d ∈ t.dirs, ¬ (d.parent = parent ∧ d.name = name)))

instance (t : DirTree α) (id : Nat) : Decidable (t.Leaf id) :=
  inferInstanceAs (Decidable (∀ d ∈ t.dirs, d.parent ≠ id))

/-- The new directory hangs from `parent`. -/
def make (t : DirTree α) (d : Dir α) (fresh : t.Fresh d.id) (free : t.Free d.parent d.name) :
    DirTree α where
  dirs := d :: t.dirs
  ids := by
    intro e eMember f fMember same
    rcases List.mem_cons.mp eMember with rfl | eOld <;>
      rcases List.mem_cons.mp fMember with rfl | fOld
    · rfl
    · exact absurd same.symm (fresh.2.2 f fOld).1
    · exact absurd same (fresh.2.2 e eOld).1
    · exact t.ids e eOld f fOld same
  names := by
    intro e eMember f fMember parent name
    rcases List.mem_cons.mp eMember with rfl | eOld <;>
      rcases List.mem_cons.mp fMember with rfl | fOld
    · rfl
    · exact absurd ⟨parent.symm, name.symm⟩ (free f fOld)
    · exact absurd ⟨parent, name⟩ (free e eOld)
    · exact t.names e eOld f fOld parent name
  tops := by
    intro e member
    rcases List.mem_cons.mp member with rfl | old
    · exact ⟨fresh.1, fresh.2.1⟩
    · exact t.tops e old

def remove (t : DirTree α) (id : Nat) : DirTree α where
  dirs := t.dirs.filter fun d => d.id ≠ id
  ids d dMember e eMember :=
    t.ids d (List.mem_of_mem_filter dMember) e (List.mem_of_mem_filter eMember)
  names d dMember e eMember :=
    t.names d (List.mem_of_mem_filter dMember) e (List.mem_of_mem_filter eMember)
  tops d member := t.tops d (List.mem_of_mem_filter member)

def moved (id parent : Nat) (name : α) (d : Dir α) : Dir α :=
  if d.id = id then { d with parent, name } else d

theorem moved_id (id parent : Nat) (name : α) (d : Dir α) : (moved id parent name d).id = d.id := by
  unfold moved
  split <;> rfl

def move (t : DirTree α) (id parent : Nat) (name : α) (free : t.Free parent name) : DirTree α where
  dirs := t.dirs.map (moved id parent name)
  ids := by
    intro d dMember e eMember same
    obtain ⟨d, dOld, rfl⟩ := List.mem_map.mp dMember
    obtain ⟨e, eOld, rfl⟩ := List.mem_map.mp eMember
    rw [moved_id, moved_id] at same
    rw [t.ids d dOld e eOld same]
  names := by
    intro d dMember e eMember sameParent sameName
    obtain ⟨d, dOld, rfl⟩ := List.mem_map.mp dMember
    obtain ⟨e, eOld, rfl⟩ := List.mem_map.mp eMember
    unfold moved at sameParent sameName ⊢
    by_cases dMoves : d.id = id <;> by_cases eMoves : e.id = id
    · rw [t.ids d dOld e eOld (dMoves.trans eMoves.symm)]
    · rw [if_pos dMoves, if_neg eMoves] at sameParent sameName
      exact absurd ⟨sameParent.symm, sameName.symm⟩ (free e eOld)
    · rw [if_neg dMoves, if_pos eMoves] at sameParent sameName
      exact absurd ⟨sameParent, sameName⟩ (free d dOld)
    · rw [if_neg dMoves, if_neg eMoves] at sameParent sameName ⊢
      exact t.names d dOld e eOld sameParent sameName
  tops := by
    intro d member
    obtain ⟨d, old, rfl⟩ := List.mem_map.mp member
    rw [moved_id]
    exact t.tops d old

variable {t : DirTree α} {d : Dir α} {id parent : Nat} {name : α}

theorem under_parent {a : Nat} (member : d ∈ t.dirs) (other : d.id ≠ a)
    (under : Under t.dirs a d.id) : Under t.dirs a d.parent := by
  generalize same : d.id = b at under
  cases under with
  | here => exact absurd same other
  | child found parent =>
    rw [t.ids d member _ found same]
    exact parent

theorem find_some (found : t.find id = some d) : d ∈ t.dirs ∧ d.id = id :=
  ⟨List.mem_of_find?_eq_some found, by simpa using List.find?_some found⟩

theorem under_remove {a b : Nat} (other : a ≠ id) (under : Under (t.remove id).dirs a b) :
    b ≠ id := by
  cases under with
  | here => exact other
  | child member _ => exact of_decide_eq_true (List.mem_filter.mp member).2

theorem exists_not_fresh (present : t.Exists parent) (fresh : t.Fresh id) : parent ≠ id := by
  rintro rfl
  rcases present with top | top | ⟨d, member, same⟩
  · exact fresh.1 top
  · exact fresh.2.1 top
  · exact (fresh.2.2 d member).1 same

/-! What a change leaves alone, in both directions. -/

theorem keeps_make (fresh : t.Fresh d.id) (free : t.Free d.parent d.name) :
    Keeps (fun _ => True) t.dirs (t.make d fresh free).dirs :=
  fun _ member _ => ⟨List.mem_cons_of_mem _ member, trivial⟩

theorem make_keeps (fresh : t.Fresh d.id) (free : t.Free d.parent d.name) :
    Keeps (· ≠ d.id) (t.make d fresh free).dirs t.dirs := by
  intro e member other
  rcases List.mem_cons.mp member with rfl | old
  · exact absurd rfl other
  · exact ⟨old, (fresh.2.2 e old).2⟩

theorem keeps_remove (leaf : t.Leaf id) : Keeps (· ≠ id) t.dirs (t.remove id).dirs :=
  fun d member other => ⟨List.mem_filter.mpr ⟨member, decide_eq_true other⟩, leaf d member⟩

theorem remove_keeps : Keeps (fun _ => True) (t.remove id).dirs t.dirs :=
  fun _ member _ => ⟨List.mem_of_mem_filter member, trivial⟩

theorem moved_other (other : d.id ≠ id) : moved id parent name d = d := if_neg other

theorem keeps_move (free : t.Free parent name) :
    Keeps (fun d => ¬ Under t.dirs id d) t.dirs (t.move id parent name free).dirs := by
  intro d member outside
  have other : d.id ≠ id := fun same => outside (same ▸ .here)
  refine ⟨List.mem_map.mpr ⟨d, member, moved_other other⟩, fun under => outside ?_⟩
  exact .child member under

theorem move_keeps (free : t.Free parent name) :
    Keeps (fun d => ¬ Under t.dirs id d) (t.move id parent name free).dirs t.dirs := by
  intro d member outside
  obtain ⟨d, old, rfl⟩ := List.mem_map.mp member
  rw [moved_id] at outside
  have other : d.id ≠ id := fun same => outside (same ▸ .here)
  rw [moved_other other]
  exact ⟨old, fun under => outside (.child old under)⟩

end DirTree

end Tlpi.Directories
