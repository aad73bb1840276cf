import TlpiExercises.TreeWatch.Model

/-!
# Which directories have a watch

A new directory is announced by an event, and all watches are made again when that event is handled.
Nothing is done for a directory that was moved in, which therefore needs its watches already, or for
one that `nftw` cannot read.
-/

namespace Tlpi.TreeWatch

open Directories Runs

def State.buffer (s : State) : List InotifyEvent :=
  match s.pc with
  | .handling buffer => buffer
  | .reading | .walking _ | .exited => []

/-- Events that are read or queued, and not handled. -/
def State.pending (s : State) : List InotifyEvent := s.buffer ++ s.queue

def InotifyEvent.isCreate (event : InotifyEvent) : Bool :=
  event.kind = .create ∧ event.name.isSome

def State.CreatePending (s : State) : Prop := ∃ event ∈ s.pending, event.isCreate

def State.Watched (s : State) (d : Nat) : Prop := (s.watches d).isSome

/-- The walk under way will come to the directory, if the tree is and stays this one. -/
def State.WillVisit (s : State) (dirs : List (Dir CStr)) (d : Nat) : Prop :=
  ∃ paths, s.pc = .walking paths ∧ Ahead dirs paths d

/-- The directory is watched, or will be. -/
def State.Covers (s : State) (dirs : List (Dir CStr)) (d : Nat) : Prop :=
  s.Watched d ∨ s.WillVisit dirs d ∨ s.CreatePending

/-- After a move into the tree, what was moved is covered at its new place. -/
def MoveCovered (s : State) : Action → Prop
  | .rename id parent name => ∀ free : s.tree.Free parent name, ∀ d, Under s.tree.dirs id d →
      Under (s.tree.move id parent name free).dirs root d →
      s.Covers (s.tree.move id parent name free).dirs d
  | _ => True

/-- No call fails, and a directory that is reported gets its watch, or all of it is covered
otherwise. -/
def CallsCovered (s : State) : Action → Prop
  | .visit report => report.nftw = true ∧ ∀ path rest id, s.pc = .walking (path :: rest) →
      resolve s.tree.dirs root path = some id →
      (report.type = .d ∧ report.inotifyAddWatch = true ∨
        report.type ≠ .d ∧ ∀ d, Under s.tree.dirs id d →
          State.Covers { s with pc := .walking rest } s.tree.dirs d)
  | .read count => count.isSome
  | _ => True

def Covered (s : State) (a : Action) : Prop := MoveCovered s a ∧ CallsCovered s a

/-- The numbers of the watches: a removal meets the watch that it is meant for. -/
structure Numbered (s : State) : Prop where
  below : ∀ d wd, s.watches d = some wd → wd < s.nextWd
  distinct : ∀ d e wd, s.watches d = some wd → s.watches e = some wd → d = e
  stale : ∀ event ∈ s.pending, event.kind = .deleteSelf →
    event.wd < s.nextWd ∧ ∀ d, s.watches d ≠ some event.wd

structure Inv (s : State) : Prop where
  covered : ∀ d, Under s.tree.dirs root d → s.Covers s.tree.dirs d
  numbered : Numbered s

section Pending

variable {s : State}

theorem pending_handling {buffer : List InotifyEvent} (handling : s.pc = .handling buffer) :
    s.pending = buffer ++ s.queue := by
  unfold State.pending State.buffer
  rw [handling]

theorem pending_walking {paths : List (List CStr)} (walking : s.pc = .walking paths) :
    s.pending = s.queue := by
  unfold State.pending State.buffer
  rw [walking]
  rfl

theorem pending_reading (reading : s.pc = .reading) : s.pending = s.queue := by
  unfold State.pending State.buffer
  rw [reading]
  rfl

theorem not_walking {pc : Pc} (at_ : s.pc = pc) (other : ∀ paths, pc ≠ .walking paths)
    (dirs : List (Dir CStr)) (d : Nat) : ¬ s.WillVisit dirs d := by
  rintro ⟨paths, walking, _⟩
  exact other paths (at_.symm.trans walking)

end Pending

/-! ### One event more -/

section Notify

variable {s : State} {dir : Nat} {kind : Kind} {name : Option CStr}

@[simp] theorem notify_tree : (s.notify dir kind name).tree = s.tree := by
  unfold State.notify
  split <;> rfl

@[simp] theorem notify_watches : (s.notify dir kind name).watches = s.watches := by
  unfold State.notify
  split <;> rfl

@[simp] theorem notify_nextWd : (s.notify dir kind name).nextWd = s.nextWd := by
  unfold State.notify
  split <;> rfl

@[simp] theorem notify_pc : (s.notify dir kind name).pc = s.pc := by
  unfold State.notify
  split <;> rfl

theorem notify_pending : (s.notify dir kind name).pending = s.pending ++
    match s.watches dir with
    | some wd => [⟨wd, kind, name⟩]
    | none => [] := by
  cases watch : s.watches dir <;> simp [State.notify, State.pending, State.buffer, watch]

theorem covers_notify {dirs : List (Dir CStr)} {d : Nat} (covers : s.Covers dirs d) :
    (s.notify dir kind name).Covers dirs d := by
  rcases covers with watched | ⟨paths, walking, ahead⟩ | ⟨event, member, create⟩
  · exact Or.inl (by simpa [State.Watched] using watched)
  · exact Or.inr (Or.inl ⟨paths, by simpa using walking, ahead⟩)
  · refine Or.inr (Or.inr ⟨event, ?_, create⟩)
    rw [notify_pending]
    exact List.mem_append_left _ member

/-- A subdirectory that is made below a watch is announced. -/
theorem notify_create {created : CStr} (watched : s.Watched dir) :
    (s.notify dir .create created).CreatePending := by
  obtain ⟨wd, watch⟩ := Option.isSome_iff_exists.mp watched
  refine ⟨⟨wd, .create, created⟩, ?_, by simp [InotifyEvent.isCreate]⟩
  rw [notify_pending, watch]
  exact List.mem_append_right _ (List.mem_singleton_self _)

theorem numbered_notify (numbered : Numbered s) (other : kind ≠ .deleteSelf) :
    Numbered (s.notify dir kind name) := by
  refine ⟨by simpa using numbered.below, by simpa using numbered.distinct, ?_⟩
  intro event member self
  rw [notify_pending] at member
  rw [notify_watches, notify_nextWd]
  rcases List.mem_append.mp member with old | new
  · exact numbered.stale event old self
  · split at new
    · rw [List.mem_singleton.mp new] at self
      exact absurd self other
    · cases new

end Notify

/-! ### Changes of the tree -/

section Changes

variable {s : State}

/-- Where a change keeps a directory and those above it, it stays covered. -/
theorem covers_keeps {dirs dirs' : List (Dir CStr)} {Q : Nat → Prop}
    (keeps : Keeps Q dirs dirs') {d : Nat} (property : Q d) (covers : s.Covers dirs d) :
    s.Covers dirs' d := by
  rcases covers with watched | ⟨paths, walking, ahead⟩ | create
  · exact Or.inl watched
  · exact Or.inr (Or.inl ⟨paths, walking, ahead_keeps keeps property ahead⟩)
  · exact Or.inr (Or.inr create)

theorem mkdir_ok {dir : Dir CStr} {t : State} (h : mkdir s dir = .ok t) :
    ∃ (fresh : s.tree.Fresh dir.id) (free : s.tree.Free dir.parent dir.name), s.tree.Exists dir.parent ∧
      t = { s with tree := s.tree.make dir fresh free }.notify dir.parent .create dir.name := by
  unfold mkdir at h
  split at h
  · rename_i fresh
    split at h
    · rename_i free
      split at h
      · rename_i present
        exact ⟨fresh, free, present, (Except.ok.inj h).symm⟩
      · cases h
    · cases h
  · cases h

theorem rmdir_ok {id : Nat} {t : State} (h : rmdir s id = .ok t) :
    ∃ dir, s.tree.find id = some dir ∧ s.tree.Leaf id ∧
      t = ((State.notify { s with tree := s.tree.remove id } id .deleteSelf none).unwatch id).notify
        dir.parent .delete dir.name := by
  unfold rmdir at h
  split at h
  · cases h
  · rename_i dir found
    split at h
    · rename_i leaf
      exact ⟨dir, found, leaf, (Except.ok.inj h).symm⟩
    · cases h

theorem rename_ok {id parent : Nat} {name : CStr} {t : State} (h : rename s id parent name = .ok t) :
    ∃ (dir : Dir CStr) (free : s.tree.Free parent name),
      t = (State.notify { s with tree := s.tree.move id parent name free } dir.parent .movedFrom
        dir.name).notify parent .movedTo name := by
  unfold rename at h
  split at h
  · cases h
  · rename_i dir _
    split at h
    · rename_i free
      split at h
      · exact ⟨dir, free, (Except.ok.inj h).symm⟩
      · cases h
    · cases h

theorem inv_mkdir (inv : Inv s) {dir : Dir CStr} {t : State} (h : mkdir s dir = .ok t) :
    Inv t := by
  obtain ⟨fresh, free, present, rfl⟩ := mkdir_ok h
  have grows := DirTree.keeps_make fresh free
  refine ⟨fun d under => ?_, numbered_notify ⟨inv.numbered.below, inv.numbered.distinct,
    inv.numbered.stale⟩ (by decide)⟩
  rw [notify_tree] at under ⊢
  have old : ∀ e, e ≠ dir.id → Under (s.tree.make dir fresh free).dirs root e →
      s.Covers (s.tree.make dir fresh free).dirs e := by
    intro e other under
    obtain ⟨under, _⟩ := under_keeps (DirTree.make_keeps fresh free) other under
    exact covers_keeps grows trivial (inv.covered e under)
  by_cases new : d = dir.id
  · subst new
    have above := DirTree.under_parent List.mem_cons_self fresh.1 under
    rcases old dir.parent (DirTree.exists_not_fresh present fresh) above with
      watched | ⟨paths, walking, ahead⟩ | create
    · exact Or.inr (Or.inr (notify_create watched))
    · refine covers_notify (Or.inr (Or.inl ⟨paths, walking, ahead_under ahead ?_⟩))
      exact .child List.mem_cons_self .here
    · exact covers_notify (Or.inr (Or.inr create))
  · exact covers_notify (old d new under)

theorem numbered_unwatch (numbered : Numbered s) (id : Nat) : Numbered (s.unwatch id) := by
  have kept : ∀ d wd, (s.unwatch id).watches d = some wd → s.watches d = some wd := by
    intro d wd watch
    have watch : Function.update s.watches id none d = some wd := watch
    by_cases same : d = id
    · rw [same, Function.update_self] at watch
      cases watch
    · rwa [Function.update_of_ne same] at watch
  refine ⟨fun d wd watch => numbered.below d wd (kept d wd watch),
    fun d e wd first second => numbered.distinct d e wd (kept d wd first) (kept e wd second),
    fun event member self => ?_⟩
  obtain ⟨below, gone⟩ := numbered.stale event member self
  exact ⟨below, fun d watch => gone d (kept d event.wd watch)⟩

/-- The watch of a removed directory ends, so that its last event names no watch. -/
theorem numbered_removed (numbered : Numbered s) (id : Nat) :
    Numbered ((s.notify id .deleteSelf none).unwatch id) := by
  have old := numbered_unwatch numbered id
  cases watch : s.watches id with
  | none =>
    have same : s.notify id .deleteSelf none = s := by
      unfold State.notify
      rw [watch]
    rw [same]
    exact old
  | some wd =>
    refine ⟨by simpa [State.unwatch] using old.below, by simpa [State.unwatch] using old.distinct,
      ?_⟩
    intro event member self
    have member : event ∈ (s.notify id .deleteSelf none).pending := member
    rw [notify_pending, watch] at member
    have watches : ((s.notify id .deleteSelf none).unwatch id).watches =
        (s.unwatch id).watches := by
      simp [State.unwatch]
    have nextWd : ((s.notify id .deleteSelf none).unwatch id).nextWd = s.nextWd := by
      simp [State.unwatch]
    rw [watches, nextWd]
    rcases List.mem_append.mp member with before | last
    · exact old.stale event before self
    · rw [List.mem_singleton.mp last]
      refine ⟨numbered.below id wd watch, fun d again => ?_⟩
      have again : Function.update s.watches id none d = some wd := again
      by_cases same : d = id
      · rw [same, Function.update_self] at again
        cases again
      · rw [Function.update_of_ne same] at again
        exact same (numbered.distinct d id wd again watch)

theorem covers_unwatch {dirs : List (Dir CStr)} {d id : Nat} (other : d ≠ id)
    (covers : s.Covers dirs d) : (s.unwatch id).Covers dirs d := by
  rcases covers with watched | later
  · refine Or.inl ?_
    show (Function.update s.watches id none d).isSome
    rw [Function.update_of_ne other]
    exact watched
  · exact Or.inr later

theorem inv_rmdir (inv : Inv s) {id : Nat} {t : State} (h : rmdir s id = .ok t) : Inv t := by
  obtain ⟨dir, found, leaf, rfl⟩ := rmdir_ok h
  have numbered : Numbered { s with tree := s.tree.remove id } :=
    ⟨inv.numbered.below, inv.numbered.distinct, inv.numbered.stale⟩
  refine ⟨fun d under => covers_notify ?_, numbered_notify (numbered_removed numbered id) (by decide)⟩
  rw [notify_tree] at under ⊢
  have under : Under (s.tree.remove id).dirs root d := by simpa [State.unwatch] using under
  obtain ⟨member, rfl⟩ := DirTree.find_some found
  have other := DirTree.under_remove (s.tree.tops dir member).1.symm under
  obtain ⟨before, _⟩ := under_keeps DirTree.remove_keeps trivial under
  have covers : State.Covers { s with tree := s.tree.remove dir.id } (s.tree.remove dir.id).dirs d :=
    covers_keeps (DirTree.keeps_remove leaf) other (inv.covered d before)
  simpa [State.unwatch] using covers_unwatch other (covers_notify covers)

theorem inv_rename (inv : Inv s) {id parent : Nat} {name : CStr}
    (covered : MoveCovered s (.rename id parent name)) {t : State}
    (h : rename s id parent name = .ok t) : Inv t := by
  obtain ⟨dir, free, rfl⟩ := rename_ok h
  have numbered : Numbered { s with tree := s.tree.move id parent name free } :=
    ⟨inv.numbered.below, inv.numbered.distinct, inv.numbered.stale⟩
  refine ⟨fun d under => covers_notify (covers_notify ?_),
    numbered_notify (numbered_notify numbered (by decide)) (by decide)⟩
  have under : Under (s.tree.move id parent name free).dirs root d := by simpa using under
  simp only [notify_tree]
  by_cases moves : Under s.tree.dirs id d
  · exact covered free d moves under
  · obtain ⟨before, _⟩ := under_keeps (DirTree.move_keeps free) moves under
    exact covers_keeps (DirTree.keeps_move free) moves (inv.covered d before)

end Changes

/-! ### Steps of the program -/

section Program

variable {s : State}

/-- The program goes on outside of a walk, without handling a creation. -/
theorem inv_goes_on (inv : Inv s) {queue : List InotifyEvent} {pc : Pc}
    (visited : ∀ d, ¬ s.WillVisit s.tree.dirs d)
    (creates : ∀ event ∈ s.pending, event.isCreate →
      event ∈ State.pending { s with queue := queue, pc := pc })
    (old : ∀ event ∈ State.pending { s with queue := queue, pc := pc }, event ∈ s.pending) :
    Inv { s with queue := queue, pc := pc } where
  covered d under := by
    rcases inv.covered d under with watched | will | ⟨event, member, create⟩
    · exact Or.inl watched
    · exact absurd will (visited d)
    · exact Or.inr (Or.inr ⟨event, creates event member create, create⟩)
  numbered :=
    ⟨inv.numbered.below, inv.numbered.distinct,
      fun event member => inv.numbered.stale event (old event member)⟩

theorem inv_newInstance (s : State) : Inv s.newInstance where
  covered d under := by
    refine Or.inr (Or.inl ⟨[[]], rfl, [], List.mem_singleton_self _, root, rfl, ?_⟩)
    exact under
  numbered := ⟨nofun, nofun, nofun⟩

/-- The watch that a removal names is gone already. -/
theorem rmWatch_stale {wd : Nat} (gone : ∀ d, s.watches d ≠ some wd) : s.rmWatch wd = s := by
  have same : (fun id => if s.watches id = some wd then none else s.watches id) = s.watches :=
    funext fun id => if_neg (gone id)
  unfold State.rmWatch
  rw [same]

theorem inv_handle (inv : Inv s) {event : InotifyEvent} {rest : List InotifyEvent}
    (handling : s.pc = .handling (event :: rest)) :
    Inv (handleEvent { s with pc := .handling rest } event) := by
  have pending : s.pending = event :: (rest ++ s.queue) := pending_handling handling
  have goes_on (other : event.isCreate = false) : Inv { s with pc := .handling rest } := by
    refine inv_goes_on inv (not_walking handling nofun _) (fun e member create => ?_)
      fun e member => ?_
    · rw [pending] at member
      rcases List.mem_cons.mp member with rfl | later
      · rw [other] at create
        cases create
      · exact later
    · rw [pending]
      exact List.mem_cons_of_mem _ member
  unfold handleEvent
  split
  · exact inv_newInstance _
  · rename_i other
    have inv' := goes_on (decide_eq_false other)
    split
    · rename_i self
      have member : event ∈ s.pending := by
        rw [pending]
        exact List.mem_cons_self
      have gone : ∀ d, State.watches { s with pc := .handling rest } d ≠ some event.wd :=
        (inv.numbered.stale event member self).2
      rw [rmWatch_stale gone]
      exact inv'
    · exact inv'

theorem inv_read (inv : Inv s) {count : Nat} (reading : s.pc = .reading) :
    Inv { s with queue := s.queue.drop count, pc := .handling (s.queue.take count) } := by
  have same : State.pending { s with
      queue := s.queue.drop count
      pc := .handling (s.queue.take count) } = s.pending := by
    rw [pending_reading reading]
    exact List.take_append_drop count s.queue
  refine inv_goes_on inv (not_walking reading nofun _) (fun event member _ => ?_)
    fun event member => ?_
  · rw [same]
    exact member
  · rw [same] at member
    exact member

/-- A walk that has come to its end, or a buffer. -/
theorem inv_reads_again (inv : Inv s) (ended : s.pc = .handling [] ∨ s.pc = .walking []) :
    Inv { s with pc := .reading } := by
  have pending : s.pending = s.queue := by
    rcases ended with handled | walked
    · exact pending_handling handled
    · exact pending_walking walked
  refine inv_goes_on inv ?_ (fun event member _ => ?_) fun event member => ?_
  · rintro d ⟨paths, walking, path, member, _⟩
    rcases ended with at_ | at_ <;> rw [at_] at walking <;> cases walking
    cases member
  · rw [pending] at member
    exact member
  · rw [pending]
    exact member

theorem inotifyAddWatch_cases (s : State) (id : Nat) :
    (s.watches id).isSome ∧ s.inotifyAddWatch id = s ∨
      s.inotifyAddWatch id = { s with
        watches := Function.update s.watches id (some s.nextWd)
        nextWd := s.nextWd + 1 } := by
  cases watch : s.watches id with
  | some wd =>
    refine Or.inl ⟨rfl, ?_⟩
    unfold State.inotifyAddWatch
    rw [watch]
  | none =>
    refine Or.inr ?_
    unfold State.inotifyAddWatch
    rw [watch]

theorem inotifyAddWatch_frame (s : State) (id : Nat) :
    (s.inotifyAddWatch id).tree = s.tree ∧ (s.inotifyAddWatch id).queue = s.queue ∧
      (s.inotifyAddWatch id).pc = s.pc := by
  rcases inotifyAddWatch_cases s id with ⟨_, same⟩ | added
  · rw [same]
    exact ⟨rfl, rfl, rfl⟩
  · rw [added]
    exact ⟨rfl, rfl, rfl⟩

theorem inotifyAddWatch_watched {id d : Nat} : (s.inotifyAddWatch id).Watched d ↔ d = id ∨ s.Watched d := by
  rcases inotifyAddWatch_cases s id with ⟨here, same⟩ | added
  · rw [same]
    refine ⟨Or.inr, fun watched => ?_⟩
    rcases watched with rfl | watched
    · exact here
    · exact watched
  · rw [added]
    show (Function.update s.watches id (some s.nextWd) d).isSome ↔ d = id ∨ s.Watched d
    by_cases same : d = id
    · rw [same, Function.update_self]
      exact iff_of_true rfl (Or.inl rfl)
    · rw [Function.update_of_ne same, or_iff_right same]
      exact Iff.rfl

theorem numbered_inotifyAddWatch (numbered : Numbered s) (id : Nat) : Numbered (s.inotifyAddWatch id) := by
  rcases inotifyAddWatch_cases s id with ⟨_, same⟩ | added
  · rw [same]
    exact numbered
  · have cases_on : ∀ d wd, Function.update s.watches id (some s.nextWd) d = some wd →
        d = id ∧ wd = s.nextWd ∨ s.watches d = some wd := by
      intro d wd found
      by_cases same : d = id
      · rw [same, Function.update_self] at found
        exact Or.inl ⟨same, (Option.some.inj found).symm⟩
      · rw [Function.update_of_ne same] at found
        exact Or.inr found
    rw [added]
    refine ⟨fun d wd found => ?_, fun d e wd first second => ?_, fun event member self => ?_⟩
    · show wd < s.nextWd + 1
      rcases cases_on d wd found with ⟨_, rfl⟩ | old
      · exact Nat.lt_succ_self _
      · exact Nat.lt_succ_of_lt (numbered.below d wd old)
    · rcases cases_on d wd first with ⟨rfl, rfl⟩ | old <;>
        rcases cases_on e _ second with ⟨rfl, same⟩ | other
      · rfl
      · exact absurd (numbered.below e _ other) (Nat.lt_irrefl _)
      · rw [same] at old
        exact absurd (numbered.below d _ old) (Nat.lt_irrefl _)
      · exact numbered.distinct d e wd old other
    · obtain ⟨below, gone⟩ := numbered.stale event member self
      refine ⟨Nat.lt_succ_of_lt below, fun d found => ?_⟩
      rcases cases_on d event.wd found with ⟨_, same⟩ | old
      · omega
      · exact gone d old

theorem mem_children {tree : DirTree CStr} {path : List CStr} {dir : Dir CStr}
    (member : dir ∈ tree.dirs) : path ++ [dir.name] ∈ children tree path dir.parent :=
  List.mem_map.mpr ⟨dir, List.mem_filter.mpr ⟨member, decide_eq_true rfl⟩, rfl⟩

/-- A path leads nowhere, to a directory that is listed or left out, or to the end of the program. -/
theorem visit_cases (s : State) (path : List CStr) (rest : List (List CStr)) (report : Report) :
    (resolve s.tree.dirs root path = none ∧ visit s path rest report = { s with pc := .walking rest }) ∨
    ∃ id, resolve s.tree.dirs root path = some id ∧
      (report.type ≠ .d ∧ visit s path rest report = { s with pc := .walking rest } ∨
      report.type = .d ∧ report.inotifyAddWatch = false ∧ visit s path rest report = s.errExit ∨
      report.type = .d ∧ report.inotifyAddWatch = true ∧ visit s path rest report =
        State.inotifyAddWatch { s with pc := .walking (children s.tree path id ++ rest) } id) := by
  unfold visit addWatch
  cases resolved : resolve s.tree.dirs root path with
  | none => exact Or.inl ⟨rfl, rfl⟩
  | some id =>
    refine Or.inr ⟨id, rfl, ?_⟩
    dsimp only
    by_cases listed : report.type = .d
    · rw [if_neg (not_not.mpr listed), if_pos listed]
      cases added : report.inotifyAddWatch with
      | true => exact Or.inr (Or.inr ⟨listed, rfl, rfl⟩)
      | false => exact Or.inr (Or.inl ⟨listed, rfl, rfl⟩)
    · rw [if_pos listed, if_neg listed]
      exact Or.inl ⟨listed, rfl⟩

section Visit

variable {path : List CStr} {rest : List (List CStr)}

/-- The walk goes on without the directory. -/
theorem inv_skip (inv : Inv s) (walking : s.pc = .walking (path :: rest))
    (below : ∀ id, resolve s.tree.dirs root path = some id → ∀ d, Under s.tree.dirs id d →
      State.Covers { s with pc := .walking rest } s.tree.dirs d) :
    Inv { s with pc := .walking rest } := by
  have same_pending : State.pending { s with pc := .walking rest } = s.pending :=
    (pending_walking walking).symm
  refine ⟨fun d under => ?_, inv.numbered.below, inv.numbered.distinct, fun event member => ?_⟩
  · rcases inv.covered d under with watched | ⟨paths, walks, path', member, a, leads, under'⟩ |
      ⟨event, member, create⟩
    · exact Or.inl watched
    · rw [walking] at walks
      cases walks
      rcases List.mem_cons.mp member with rfl | later
      · exact below a ((resolve_iff s.tree).mpr leads) d under'
      · exact Or.inr (Or.inl ⟨_, rfl, path', later, a, leads, under'⟩)
    · exact Or.inr (Or.inr ⟨event, same_pending ▸ member, create⟩)
  · exact inv.numbered.stale event (same_pending ▸ member)

/-- The directory gets its watch, and its subdirectories come next. -/
theorem inv_listed (inv : Inv s) (walking : s.pc = .walking (path :: rest)) {id : Nat}
    (resolved : resolve s.tree.dirs root path = some id) :
    Inv (State.inotifyAddWatch { s with pc := .walking (children s.tree path id ++ rest) } id) := by
  have pending := pending_walking walking
  have leads := (resolve_iff s.tree).mp resolved
  have numbered : Numbered { s with pc := .walking (children s.tree path id ++ rest) } := by
    refine ⟨inv.numbered.below, inv.numbered.distinct, fun event member => ?_⟩
    exact inv.numbered.stale event (pending ▸ member)
  refine ⟨fun d under => ?_, numbered_inotifyAddWatch numbered id⟩
  obtain ⟨tree, queue, pc⟩ :=
    inotifyAddWatch_frame { s with pc := .walking (children s.tree path id ++ rest) } id
  rw [tree] at under ⊢
  rcases inv.covered d under with watched | ⟨paths, walks, path', member, a, leads', under'⟩ |
    ⟨event, member, create⟩
  · exact Or.inl (inotifyAddWatch_watched.mpr (Or.inr watched))
  · rw [walking] at walks
    cases walks
    rcases List.mem_cons.mp member with rfl | later
    · -- this path leads to one directory only
      have again := (resolve_iff s.tree).mpr leads'
      rw [resolved] at again
      cases again
      rcases under_top under' with rfl | ⟨dir, dirMember, rfl, below⟩
      · exact Or.inl (inotifyAddWatch_watched.mpr (Or.inl rfl))
      · exact Or.inr (Or.inl ⟨_, pc, path' ++ [dir.name],
          List.mem_append_left _ (mem_children dirMember), dir.id,
          path_child leads dirMember rfl, below⟩)
    · exact Or.inr (Or.inl ⟨_, pc, path', List.mem_append_right _ later, a, leads', under'⟩)
  · refine Or.inr (Or.inr ⟨event, ?_, create⟩)
    rw [pending_walking pc, queue, ← pending]
    exact member

/-- One directory is reported. -/
theorem inv_visit (inv : Inv s) {report : Report} (walking : s.pc = .walking (path :: rest))
    (covered : CallsCovered s (.visit report)) : Inv (visit s path rest report) := by
  rcases visit_cases s path rest report with ⟨nowhere, left⟩ | ⟨id, resolved, left⟩
  · rw [left]
    refine inv_skip inv walking fun id found => ?_
    rw [nowhere] at found
    cases found
  · rcases covered.2 path rest id walking resolved with ⟨listed, added⟩ | ⟨skipped, below⟩
    · rcases left with ⟨skipped, _⟩ | ⟨_, failed, _⟩ | ⟨_, _, left⟩
      · exact absurd listed skipped
      · rw [added] at failed
        cases failed
      · rw [left]
        exact inv_listed inv walking resolved
    · rcases left with ⟨_, left⟩ | ⟨listed, _⟩ | ⟨listed, _⟩
      · rw [left]
        refine inv_skip inv walking fun id' found => ?_
        rw [resolved] at found
        cases found
        exact below
      · exact absurd listed skipped
      · exact absurd listed skipped

end Visit

end Program

end Tlpi.TreeWatch
