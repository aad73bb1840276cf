import TlpiExercises.Library.Visitor
import TlpiExercises.Nftw.Model

/-!
# Which calls are made

Behind everything below a directory there is a call for the directory itself, whatever the call
before it has returned. So the last call is always for an entry of `dirpath`.
-/

namespace Tlpi.Nftw

open Visitor

variable {S A : Type} {fn : S → CStr → A → Reply S} {openMax : Nat} {dirs : List Directory}
  {dirpath name : CStr} {s s' : Progress S A} {tree : Entries A} {state : S} {errno : Int}

/-! ### The calls that are due -/

def below (dirpath name : CStr) : CStr :=
  (if dirpath = slash then dirpath else dirpath.append slash).append name

/-- The entries below `dirpath`, each behind everything below it. -/
def postOrder (dirpath : CStr) (dirs : List Directory) : Entries A → List (Visit A)
  | .nil => []
  | .other entry rest =>
    if entry.name = dot ∨ entry.name = dotDot then postOrder dirpath dirs rest
    else ⟨below dirpath entry.name, entry, dirs⟩ :: postOrder dirpath dirs rest
  | .dir entry directory children rest =>
    if entry.name = dot ∨ entry.name = dotDot then postOrder dirpath dirs rest
    else postOrder (below dirpath entry.name) (directory :: dirs) children ++
      ⟨below dirpath entry.name, entry, dirs⟩ :: postOrder dirpath dirs rest

/-- `fn`, which asks to stop by returning 1. -/
def visitor (fn : S → CStr → A → Reply S) (s : S) (v : Visit A) : Bool × S :=
  ((fn s v.path v.entry.sb).rv = 1, (fn s v.path v.entry.sb).state)

def top (opened : Option Int) : List Directory := [⟨.dir, opened⟩]

/-- `imp_nftw` returns, after the calls in post-order up to the first that returns 1. -/
def CallsInPostOrder (fn : S → CStr → A → Reply S) (openMax : Nat) (dirpath : CStr)
    (opened : Option Int) (tree : Entries A) (state : S) (errno : Int) : Prop :=
  ∃ rv s, impNftw fn openMax dirpath opened tree ⟨state, errno, []⟩ = .ok (rv, s) ∧
    s.calls = visits (visitor fn) state (postOrder dirpath (top opened) tree)

/-- These directories are known as such, and can be opened one after the other. -/
def Opened (openMax : Nat) (dirs : List Directory) : Prop :=
  dirs.length ≤ openMax ∧ ∀ d ∈ dirs, d.dType = .dir ∧ d.opendir = none

/-- A call that can be made. -/
def Reachable (openMax : Nat) (v : Visit A) : Prop :=
  v.path.length < PATH_MAX ∧ v.entry.lstat = none ∧ Opened openMax v.dirs

theorem postOrder_dirs : ∀ v ∈ postOrder dirpath dirs tree, dirs <:+ v.dirs := by
  induction tree generalizing dirpath dirs with
  | nil => nofun
  | other entry rest ih =>
    rw [postOrder]
    split
    · exact ih
    · exact List.forall_mem_cons.mpr ⟨List.suffix_refl _, ih⟩
  | dir entry directory children rest children_ih ih =>
    rw [postOrder]
    split
    · exact ih
    · refine List.forall_mem_append.mpr ⟨fun v member => ?_,
        List.forall_mem_cons.mpr ⟨List.suffix_refl _, ih⟩⟩
      exact (List.suffix_cons _ _).trans (children_ih v member)

theorem Opened.suffix {inner : List Directory} (opened : Opened openMax inner)
    (outer : dirs <:+ inner) : Opened openMax dirs :=
  ⟨outer.length_le.trans opened.1, fun d member => opened.2 d (outer.mem member)⟩

/-! ### The pathname of an entry -/

theorem strcmp_dots : (strcmp name dot = 0 ∨ strcmp name dotDot = 0) ↔
    (name = dot ∨ name = dotDot) := by
  rw [strcmp_eq_zero, strcmp_eq_zero]

theorem entryPath_short (short : (below dirpath name).length < PATH_MAX) :
    entryPath dirpath name = .ok (below dirpath name) := by
  unfold below at short ⊢
  unfold entryPath
  by_cases root : dirpath = slash
  · rw [if_pos root, CStr.length_append] at short
    have same : ¬ strcmp dirpath slash ≠ 0 := not_not_intro (strcmp_eq_zero.mpr root)
    rw [if_pos root, strcpy_fits (by omega), ok_bind, if_neg same, ok_bind]
    exact if_pos (by omega)
  · rw [if_neg root, CStr.length_append, CStr.length_append] at short
    have other : strcmp dirpath slash ≠ 0 := fun same => root (strcmp_eq_zero.mp same)
    have added : strcat (PATH_MAX + 1) dirpath slash = .ok (dirpath.append slash) :=
      if_pos (by omega)
    rw [if_neg root, strcpy_fits (by omega), ok_bind, if_pos other, added, ok_bind]
    refine if_pos ?_
    rw [CStr.length_append]
    omega

theorem lstat_none {entry : Entry A} {path : CStr} :
    lstat entry path = none ↔ path.length < PATH_MAX ∧ entry.lstat = none := by
  unfold lstat
  by_cases long : PATH_MAX ≤ path.length
  · rw [if_pos long]
    exact iff_of_false nofun fun short => absurd short.1 (Nat.not_lt.mpr long)
  · rw [if_neg long]
    exact (and_iff_right (Nat.not_le.mp long)).symm

theorem opendir_none {directory : Directory} {path : CStr} :
    opendir openMax directory dirs path = none ↔
      path.length < PATH_MAX ∧ (directory :: dirs).length ≤ openMax ∧ directory.opendir = none := by
  unfold opendir
  by_cases long : PATH_MAX ≤ path.length
  · rw [if_pos long]
    exact iff_of_false nofun fun short => absurd short.1 (Nat.not_lt.mpr long)
  · rw [if_neg long, and_iff_right (Nat.not_le.mp long)]
    by_cases full : openMax < (directory :: dirs).length
    · rw [if_pos full]
      exact iff_of_false nofun fun room => absurd room.1 (Nat.not_le.mpr full)
    · rw [if_neg full, and_iff_right (Nat.not_lt.mp full)]

/-! ### The calls that are made -/

/-- More calls, the last of them for an entry of this directory. -/
def Made (openMax : Nat) (dirs : List Directory) (before after : List (Visit A)) : Prop :=
  ∃ more, after = before ++ more ∧ (∀ v ∈ more, Reachable openMax v) ∧
    ∀ v ∈ more.getLast?, v.dirs = dirs

theorem Made.refl {calls : List (Visit A)} : Made openMax dirs calls calls :=
  ⟨[], (List.append_nil _).symm, nofun, nofun⟩

theorem Made.trans {first second third : List (Visit A)} (one : Made openMax dirs first second)
    (two : Made openMax dirs second third) : Made openMax dirs first third := by
  obtain ⟨more, rfl, good, last⟩ := one
  obtain ⟨later, rfl, later_good, later_last⟩ := two
  refine ⟨more ++ later, List.append_assoc _ _ _, List.forall_mem_append.mpr ⟨good, later_good⟩, ?_⟩
  rw [List.getLast?_append]
  cases ends : later.getLast? with
  | none => exact last
  | some v =>
    rw [ends] at later_last
    exact later_last

/-- The call for an entry of this directory, behind calls for entries below it. -/
theorem Made.call {inner : List Directory} {first second : List (Visit A)} {v : Visit A}
    (inside : Made openMax inner first second) (good : Reachable openMax v)
    (here : v.dirs = dirs) : Made openMax dirs first (second ++ [v]) := by
  obtain ⟨more, rfl, all, -⟩ := inside
  refine ⟨more ++ [v], List.append_assoc _ _ _,
    List.forall_mem_append.mpr ⟨all, List.forall_mem_singleton.mpr good⟩, ?_⟩
  rw [List.getLast?_concat]
  rintro _ ⟨⟩
  exact here

theorem openAndRead_made {rv : Int} {directory : Directory} {path : CStr}
    {loop : Progress S A → Except Fault (Progress S A)} (outer : Opened openMax dirs)
    (listed : directory.dType = .dir)
    (inside : ∀ s', Opened openMax (directory :: dirs) → loop s = .ok s' →
      Made openMax (directory :: dirs) s.calls s'.calls)
    (call : openAndRead (opendir openMax directory dirs path) loop s = .ok (rv, s')) :
    Made openMax (directory :: dirs) s.calls s'.calls := by
  unfold openAndRead at call
  cases opened : opendir openMax directory dirs path with
  | some errno =>
    rw [opened] at call
    cases call
    exact Made.refl
  | none =>
    rw [opened] at call
    obtain ⟨t, read, call⟩ := bind_ok call
    cases call
    obtain ⟨_, room, opens⟩ := opendir_none.mp opened
    exact inside _ ⟨room, List.forall_mem_cons.mpr ⟨⟨listed, opens⟩, outer.2⟩⟩ read

theorem readEntries_made (opened : Opened openMax dirs)
    (call : readEntries fn openMax dirpath dirs tree s = .ok s') :
    Made openMax dirs s.calls s'.calls := by
  induction tree generalizing dirpath dirs s s' with
  | nil =>
    cases call
    exact Made.refl
  | other entry rest ih =>
    rw [readEntries] at call
    dsimp only at call
    split at call
    · have made := ih opened call
      exact made
    obtain ⟨path, _, call⟩ := bind_ok call
    split at call
    · cases call
      exact Made.refl
    rename_i found
    obtain ⟨short, found⟩ := lstat_none.mp found
    have none : Made openMax dirs s.calls s.calls := Made.refl
    have made : Made openMax dirs s.calls (s.calls ++ [⟨path, entry, dirs⟩]) :=
      none.call ⟨short, found, opened⟩ rfl
    split at call
    · cases call
      exact made
    · exact made.trans (ih opened call)
  | dir entry directory children rest children_ih ih =>
    rw [readEntries] at call
    dsimp only at call
    split at call
    · have made := ih opened call
      exact made
    obtain ⟨path, _, call⟩ := bind_ok call
    split at call
    · cases call
      exact Made.refl
    rename_i found
    obtain ⟨short, found⟩ := lstat_none.mp found
    obtain ⟨⟨rv, t⟩, recursion, call⟩ := bind_ok call
    have inside : Made openMax (directory :: dirs) s.calls t.calls := by
      unfold descend at recursion
      split at recursion
      next listed =>
        have made := openAndRead_made opened listed (fun s' opened read => children_ih opened read)
          recursion
        exact made
      next =>
        cases recursion
        exact Made.refl
    have made : Made openMax dirs s.calls (t.calls ++ [⟨path, entry, dirs⟩]) :=
      inside.call ⟨short, found, opened⟩ rfl
    dsimp only at call
    split at call
    · cases call
      exact made
    · exact made.trans (ih opened call)

/-! ### The calls that are due are made -/

/-- Every call that is due can be made, and one that returns 1 is for an entry of this directory. -/
structure Due (fn : S → CStr → A → Reply S) (openMax : Nat) (dirs : List Directory) (state : S)
    (calls : List (Visit A)) : Prop where
  reachable : ∀ v ∈ visits (visitor fn) state calls, Reachable openMax v
  top : stopped (visitor fn) state calls = true →
    ∀ v ∈ (visits (visitor fn) state calls).getLast?, v.dirs = dirs

variable {v : Visit A} {first rest : List (Visit A)}

theorem Due.head (due : Due fn openMax dirs state (v :: rest)) : Reachable openMax v :=
  due.reachable v List.mem_cons_self

theorem Due.tail (due : Due fn openMax dirs state (v :: rest))
    (goes_on : (visitor fn state v).1 = false) :
    Due fn openMax dirs (visitor fn state v).2 rest := by
  obtain ⟨reachable, top⟩ := due
  rw [visits, goes_on] at reachable top
  rw [stopped, goes_on, Bool.false_or] at top
  refine ⟨fun w member => reachable w (List.mem_cons_of_mem _ member), fun stops w last => ?_⟩
  refine top stops w ?_
  simp only [Bool.false_eq_true, if_false]
  rw [List.getLast?_cons, Option.mem_def.mp last]
  rfl

theorem visits_ne_nil (stops : stopped (visitor fn) state first = true) :
    visits (visitor fn) state first ≠ [] := by
  cases first with
  | nil => cases stops
  | cons v first => exact List.cons_ne_nil _ _

theorem visits_subset : ∀ w ∈ visits (visitor fn) state first, w ∈ first := by
  induction first generalizing state with
  | nil => nofun
  | cons v first ih =>
    intro w member
    rw [visits] at member
    split at member
    · exact List.mem_cons.mpr (Or.inl (List.mem_singleton.mp member))
    · exact List.cons_subset_cons v (fun w inside => ih w inside) member

/-- What is due below an entry does not stop, or it would have to go on from there. -/
theorem Due.inside {directory : Directory} (due : Due fn openMax dirs state (first ++ rest))
    (deeper : ∀ w ∈ first, directory :: dirs <:+ w.dirs) :
    stopped (visitor fn) state first = false ∧ (∀ w ∈ first, Reachable openMax w) ∧
      Due fn openMax dirs (after (visitor fn) state first) rest := by
  obtain ⟨reachable, top⟩ := due
  cases stops : stopped (visitor fn) state first with
  | true =>
    obtain ⟨same, _, still⟩ := append_stopped rest stops
    rw [same] at top
    obtain ⟨w, last⟩ : ∃ w, (visits (visitor fn) state first).getLast? = some w :=
      ⟨_, List.getLast?_eq_some_getLast (visits_ne_nil stops)⟩
    have here := top still w last
    have longer := (deeper w (visits_subset w (List.mem_of_getLast? last))).length_le
    rw [here, List.length_cons] at longer
    omega
  | false =>
    obtain ⟨same, _, later⟩ := append_goes_on rest stops
    rw [same] at reachable top
    rw [later] at top
    rw [List.forall_mem_append] at reachable
    refine ⟨rfl, reachable.1, reachable.2, fun rest_stops w last => top rest_stops w ?_⟩
    rw [List.getLast?_append, Option.mem_def.mp last]
    rfl

/-- A call of `fn`, and what follows it unless it returns 1. -/
theorem call_visits {loop : Progress S A → Except Fault (Progress S A)}
    (next : (visitor fn s.state v).1 = false → ∃ s', loop (callFn fn v s).2 = .ok s' ∧
      s'.calls = s.calls ++ [v] ++ visits (visitor fn) (visitor fn s.state v).2 rest ∧
      s'.state = after (visitor fn) (visitor fn s.state v).2 rest) :
    ∃ s', (if (callFn fn v s).1 = 1 then .ok (callFn fn v s).2 else loop (callFn fn v s).2) =
        .ok s' ∧
      s'.calls = s.calls ++ visits (visitor fn) s.state (v :: rest) ∧
      s'.state = after (visitor fn) s.state (v :: rest) := by
  rw [visits, after]
  cases stops : (visitor fn s.state v).1 with
  | true => exact ⟨_, if_pos (of_decide_eq_true stops), rfl, rfl⟩
  | false =>
    obtain ⟨s', call, calls, state⟩ := next stops
    refine ⟨s', (if_neg (of_decide_eq_false stops)).trans call, ?_, state⟩
    rw [calls, List.append_assoc]
    rfl

/-- Where calls are due in a directory, it is opened. -/
theorem openAndRead_due {directory : Directory} {path : CStr}
    {loop : Progress S A → Except Fault (Progress S A)} {calls : List (Visit A)}
    (short : path.length < PATH_MAX) (opens : calls ≠ [] → Opened openMax (directory :: dirs))
    (inside : ∃ s', loop s = .ok s' ∧ s'.calls = s.calls ++ calls ∧
      s'.state = after (visitor fn) s.state calls) :
    ∃ rv s', openAndRead (opendir openMax directory dirs path) loop s = .ok (rv, s') ∧
      s'.calls = s.calls ++ calls ∧ s'.state = after (visitor fn) s.state calls := by
  cases opened : opendir openMax directory dirs path with
  | some errno =>
    have nothing : calls = [] := by
      by_contra some_calls
      obtain ⟨room, all⟩ := opens some_calls
      have none := opendir_none.mpr ⟨short, room, (all directory List.mem_cons_self).2⟩
      rw [none] at opened
      cases opened
    rw [nothing]
    exact ⟨_, _, rfl, (List.append_nil _).symm, rfl⟩
  | none =>
    obtain ⟨s', call, rest⟩ := inside
    rw [openAndRead, call]
    exact ⟨_, s', rfl, rest⟩

/-- The recursive call, which is made where the directory is known as one. -/
theorem descend_due {directory : Directory} {path : CStr}
    {loop : Progress S A → Except Fault (Progress S A)} {calls : List (Visit A)}
    (short : path.length < PATH_MAX) (opens : calls ≠ [] → Opened openMax (directory :: dirs))
    (inside : ∃ s', loop s = .ok s' ∧ s'.calls = s.calls ++ calls ∧
      s'.state = after (visitor fn) s.state calls) :
    ∃ rv s', descend directory (opendir openMax directory dirs path) loop s = .ok (rv, s') ∧
      s'.calls = s.calls ++ calls ∧ s'.state = after (visitor fn) s.state calls := by
  unfold descend
  by_cases listed : directory.dType = .dir
  · rw [if_pos listed]
    exact openAndRead_due short opens inside
  · have nothing : calls = [] := by
      by_contra some_calls
      exact listed ((opens some_calls).2 directory List.mem_cons_self).1
    rw [if_neg listed, nothing]
    exact ⟨_, _, rfl, (List.append_nil _).symm, rfl⟩

theorem readEntries_due (due : Due fn openMax dirs s.state (postOrder dirpath dirs tree)) :
    ∃ s', readEntries fn openMax dirpath dirs tree s = .ok s' ∧
      s'.calls = s.calls ++ visits (visitor fn) s.state (postOrder dirpath dirs tree) ∧
      s'.state = after (visitor fn) s.state (postOrder dirpath dirs tree) := by
  induction tree generalizing dirpath dirs s with
  | nil => exact ⟨_, rfl, (List.append_nil _).symm, rfl⟩
  | other entry rest ih =>
    rw [readEntries]
    dsimp only
    by_cases dots : entry.name = dot ∨ entry.name = dotDot
    · rw [postOrder, if_pos dots] at due ⊢
      rw [if_pos (strcmp_dots.mpr dots)]
      have later := ih (s := { s with errno := 0 }) due
      exact later
    rw [postOrder, if_neg dots] at due ⊢
    obtain ⟨short, found, _⟩ := due.head
    rw [if_neg (strcmp_dots.not.mpr dots), entryPath_short short, ok_bind,
      lstat_none.mpr ⟨short, found⟩]
    exact call_visits (s := { s with errno := 0 }) fun goes_on => ih (due.tail goes_on)
  | dir entry directory children rest children_ih ih =>
    rw [readEntries]
    dsimp only
    by_cases dots : entry.name = dot ∨ entry.name = dotDot
    · rw [postOrder, if_pos dots] at due ⊢
      rw [if_pos (strcmp_dots.mpr dots)]
      have later := ih (s := { s with errno := 0 }) due
      exact later
    rw [postOrder, if_neg dots] at due ⊢
    obtain ⟨goes_on, reachable, later⟩ := due.inside fun w => postOrder_dirs w
    obtain ⟨same_visits, same_after, _⟩ := append_goes_on
      (⟨below dirpath entry.name, entry, dirs⟩ :: postOrder dirpath dirs rest) goes_on
    rw [same_visits, same_after]
    obtain ⟨short, found, _⟩ := later.head
    have all : visits (visitor fn) s.state
        (postOrder (below dirpath entry.name) (directory :: dirs) children) = _ := visits_all goes_on
    have due_below : Due fn openMax (directory :: dirs) s.state
        (postOrder (below dirpath entry.name) (directory :: dirs) children) := by
      refine ⟨fun w member => reachable w (all ▸ member), fun stops => ?_⟩
      rw [goes_on] at stops
      cases stops
    have inside := children_ih (s := { s with errno := 0 }) due_below
    rw [all] at inside
    obtain ⟨rv, t, recursion, calls, state⟩ := descend_due short (fun some_calls => by
      obtain ⟨w, member⟩ := List.exists_mem_of_ne_nil _ some_calls
      exact (reachable w member).2.2.suffix (postOrder_dirs w member)) inside
    rw [if_neg (strcmp_dots.not.mpr dots), entryPath_short short, ok_bind,
      lstat_none.mpr ⟨short, found⟩]
    dsimp only
    rw [recursion, ok_bind, ← state, ← List.append_assoc]
    dsimp only at calls
    rw [← calls]
    rw [← state] at later
    exact call_visits fun goes_on => ih (later.tail goes_on)

theorem below_length : dirpath.length ≤ (below dirpath name).length := by
  unfold below
  rw [CStr.length_append]
  split
  · exact Nat.le_add_right _ _
  · rw [CStr.length_append]
    omega

theorem postOrder_path : ∀ v ∈ postOrder dirpath dirs tree, dirpath.length ≤ v.path.length := by
  induction tree generalizing dirpath dirs with
  | nil => nofun
  | other entry rest ih =>
    rw [postOrder]
    split
    · exact ih
    · exact List.forall_mem_cons.mpr ⟨below_length, ih⟩
  | dir entry directory children rest children_ih ih =>
    rw [postOrder]
    split
    · exact ih
    · refine List.forall_mem_append.mpr ⟨fun v member => ?_, List.forall_mem_cons.mpr
        ⟨below_length, ih⟩⟩
      exact below_length.trans (children_ih v member)

theorem opened_nil : Opened openMax [] := ⟨Nat.zero_le _, nofun⟩

variable {opened : Option Int}

theorem calls_only (made : CallsInPostOrder fn openMax dirpath opened tree state errno) :
    Due fn openMax (top opened) state (postOrder dirpath (top opened) tree) := by
  obtain ⟨rv, s, call, calls⟩ := made
  obtain ⟨more, same, reachable, last⟩ :=
    openAndRead_made opened_nil rfl (fun _ opened read => readEntries_made opened read) call
  rw [List.nil_append] at same
  rw [same] at calls
  rw [calls] at reachable last
  exact ⟨reachable, fun _ => last⟩

/-- The calls are those in post-order up to the first that returns 1, exactly if that one is for an
entry of `dirpath` itself, every directory on the way can be read, and no pathname or nesting exceeds
its limit. -/
theorem postOrder_iff (fn : S → CStr → A → Reply S) (openMax : Nat) (dirpath : CStr)
    (opened : Option Int) (tree : Entries A) (state : S) (errno : Int) :
    CallsInPostOrder fn openMax dirpath opened tree state errno ↔
      Due fn openMax (top opened) state (postOrder dirpath (top opened) tree) := by
  refine ⟨calls_only, fun due => ?_⟩
  cases entries : postOrder dirpath (top opened) tree with
  | nil =>
    have read := readEntries_due (s := ⟨state, errno, []⟩) due
    obtain ⟨s, call, calls, _⟩ := read
    rw [entries] at calls
    unfold CallsInPostOrder impNftw openAndRead
    rw [entries]
    cases opendir openMax ⟨.dir, opened⟩ [] dirpath with
    | some errno => exact ⟨_, _, rfl, rfl⟩
    | none =>
      dsimp only
      rw [top] at call
      rw [call]
      exact ⟨_, s, rfl, calls⟩
  | cons v rest =>
    have member : v ∈ postOrder dirpath (top opened) tree := entries ▸ List.mem_cons_self
    obtain ⟨short, _, reached⟩ := due.reachable v (entries ▸ List.mem_cons_self)
    have opens : opendir openMax ⟨.dir, opened⟩ [] dirpath = none := by
      have path := postOrder_path v member
      obtain ⟨room, all⟩ := reached.suffix (postOrder_dirs v member)
      exact opendir_none.mpr ⟨by omega, room, (all _ List.mem_cons_self).2⟩
    obtain ⟨s, call, calls, _⟩ := readEntries_due (s := ⟨state, errno, []⟩) due
    refine ⟨if s.errno ≠ 0 then -1 else 1, s, ?_, calls⟩
    unfold impNftw openAndRead
    rw [opens]
    dsimp only
    rw [top] at call
    rw [call]
    rfl

/-- A file f in a directory d: the call for ./d/f returns 1, and there is one for ./d all the same. -/
theorem stop_not_passed_up : ¬ ∀ (fn : Unit → CStr → Unit → Reply Unit) (openMax : Nat)
    (dirpath : CStr) (tree : Entries Unit) (errno : Int), 2 ≤ openMax →
    CallsInPostOrder fn openMax dirpath none tree () errno := by
  intro all
  have made := all (fun _ _ _ => ⟨1, none, ()⟩) 2 dot
    (.dir ⟨⟨[100], by decide⟩, (), none⟩ ⟨.dir, none⟩
      (.other ⟨⟨[102], by decide⟩, (), none⟩ .nil) .nil) 0 (le_refl _)
  have here := (calls_only made).top rfl _ rfl
  revert here
  decide

end Tlpi.Nftw
