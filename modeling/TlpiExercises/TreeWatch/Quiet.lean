import TlpiExercises.TreeWatch.Coverage

/-!
# When everything was read and handled

With every move covered nothing is left without a watch. A move that is not covered leaves a
directory that the program by itself never comes to.
-/

namespace Tlpi.TreeWatch

open Directories Runs

/-- No event is read or queued, and no walk is under way. -/
def State.Quiet (s : State) : Prop := (s.pc = .reading ∨ s.pc = .exited) ∧ s.queue = []

def Action.ofProgram : Action → Bool
  | .read _ | .handle | .visit _ => true
  | .mkdir _ | .rmdir _ | .rename _ _ _ => false

theorem visit_ok {s t : State} {report : Report} (h : step s (.visit report) = .ok t) :
    ∃ paths, s.pc = .walking paths ∧ (report.nftw = false ∧ t = s.errExit ∨
      report.nftw = true ∧ (paths = [] ∧ t = { s with pc := .reading } ∨
        ∃ path rest, paths = path :: rest ∧ t = visit s path rest report)) := by
  rw [step] at h
  cases pc : s.pc with
  | walking paths =>
    rw [pc] at h
    dsimp only at h
    refine ⟨paths, rfl, ?_⟩
    cases ended : report.nftw with
    | false =>
      rw [ended, if_pos Bool.false_ne_true] at h
      exact Or.inl ⟨rfl, (Except.ok.inj h).symm⟩
    | true =>
      rw [ended, if_neg (not_not.mpr rfl)] at h
      cases paths with
      | nil => exact Or.inr ⟨rfl, Or.inl ⟨rfl, (Except.ok.inj h).symm⟩⟩
      | cons path rest => exact Or.inr ⟨rfl, Or.inr ⟨path, rest, rfl, (Except.ok.inj h).symm⟩⟩
  | reading | handling | exited =>
    rw [pc] at h
    cases h

/-- The program reads events, begins to read again, handles an event, visits a directory or ends. -/
theorem program_cases {s t : State} {a : Action} (program : a.ofProgram) (h : step s a = .ok t) :
    (∃ count, s.pc = .reading ∧
      t = { s with queue := s.queue.drop count, pc := .handling (s.queue.take count) }) ∨
    ((s.pc = .handling [] ∨ s.pc = .walking []) ∧ t = { s with pc := .reading }) ∨
    (∃ event rest, s.pc = .handling (event :: rest) ∧
      t = handleEvent { s with pc := .handling rest } event) ∨
    (∃ path rest report, a = .visit report ∧ s.pc = .walking (path :: rest) ∧
      t = visit s path rest report) ∨
    (a = .read none ∨ ∃ report, a = .visit report ∧ report.nftw = false) ∧ t = s.errExit := by
  unfold step at h
  cases a with
  | mkdir | rmdir | rename => cases program
  | read count =>
    cases pc : s.pc with
    | reading =>
      rw [pc] at h
      dsimp only at h
      split at h
      · cases h
        exact Or.inr (Or.inr (Or.inr (Or.inr ⟨Or.inl rfl, rfl⟩)))
      · rename_i count
        split at h
        · cases h
          exact Or.inl ⟨count, rfl, rfl⟩
        · cases h
    | handling | walking | exited =>
      rw [pc] at h
      cases h
  | handle =>
    cases pc : s.pc with
    | handling buffer =>
      rw [pc] at h
      cases buffer with
      | nil =>
        cases h
        exact Or.inr (Or.inl ⟨Or.inl rfl, rfl⟩)
      | cons event rest =>
        cases h
        exact Or.inr (Or.inr (Or.inl ⟨event, rest, rfl, rfl⟩))
    | reading | walking | exited =>
      rw [pc] at h
      cases h
  | visit report =>
    obtain ⟨paths, walking, ⟨failed, rfl⟩ | ⟨_, ⟨rfl, rfl⟩ | ⟨path, rest, rfl, rfl⟩⟩⟩ := visit_ok h
    · exact Or.inr (Or.inr (Or.inr (Or.inr ⟨Or.inr ⟨report, rfl, failed⟩, rfl⟩)))
    · exact Or.inr (Or.inl ⟨Or.inr walking, rfl⟩)
    · exact Or.inr (Or.inr (Or.inr (Or.inl ⟨path, rest, report, rfl, walking, rfl⟩)))

theorem inv_program {s t : State} {a : Action} (inv : Inv s) (covered : CallsCovered s a)
    (program : a.ofProgram) (h : step s a = .ok t) : Inv t := by
  rcases program_cases program h with
    ⟨count, reading, rfl⟩ | ⟨ended, rfl⟩ | ⟨event, rest, handling, rfl⟩ |
    ⟨path, rest, report, rfl, walking, rfl⟩ | ⟨rfl | ⟨report, rfl, failed⟩, _⟩
  · exact inv_read inv reading
  · exact inv_reads_again inv ended
  · exact inv_handle inv handling
  · exact inv_visit inv walking covered
  · cases covered
  · rw [covered.1] at failed
    cases failed

theorem inv_step (s : State) (a : Action) (t : State) (inv : Inv s) (covered : Covered s a)
    (h : step s a = .ok t) : Inv t := by
  cases a with
  | mkdir dir => exact inv_mkdir inv h
  | rmdir id => exact inv_rmdir inv h
  | rename id parent name => exact inv_rename inv covered.1 h
  | read count => exact inv_program inv covered.2 rfl h
  | handle => exact inv_program inv covered.2 rfl h
  | visit report => exact inv_program inv covered.2 rfl h

theorem quiet_watched {s : State} (inv : Inv s) (reading : s.pc = .reading) (empty : s.queue = [])
    (d : Nat) (under : Under s.tree.dirs root d) : s.Watched d := by
  rcases inv.covered d under with watched | will | ⟨event, member, _⟩
  · exact watched
  · exact absurd will (not_walking reading nofun _ d)
  · rw [pending_reading reading, empty] at member
    cases member

/-- A move inside of the tree takes the watches along. -/
theorem move_within {s : State} (inv : Inv s) (reading : s.pc = .reading) (empty : s.queue = [])
    {id : Nat} (within : Under s.tree.dirs root id) (parent : Nat) (name : CStr) :
    MoveCovered s (.rename id parent name) :=
  fun _ d below _ => Or.inl (quiet_watched inv reading empty d (under_trans within below))

/-- In the tree, and neither watched nor to be watched. -/
def State.Stranded (s : State) (d : Nat) : Prop :=
  Under s.tree.dirs root d ∧ ¬ s.Covers s.tree.dirs d

/-- Only a creation makes the program look at a directory that it would not come to. -/
theorem stranded_goes_on {s t : State} {d : Nat} (stranded : s.Stranded d)
    (tree : t.tree = s.tree) (watched : t.Watched d → s.Watched d)
    (visited : t.WillVisit s.tree.dirs d → s.WillVisit s.tree.dirs d)
    (old : ∀ event ∈ t.pending, event ∈ s.pending) : t.Stranded d := by
  unfold State.Stranded
  rw [tree]
  refine ⟨stranded.1, fun covers => stranded.2 ?_⟩
  rcases covers with here | will | ⟨event, member, create⟩
  · exact Or.inl (watched here)
  · exact Or.inr (Or.inl (visited will))
  · exact Or.inr (Or.inr ⟨event, old event member, create⟩)

theorem stranded_handle {s : State} {d : Nat} (stranded : s.Stranded d) {event : InotifyEvent}
    {rest : List InotifyEvent} (handling : s.pc = .handling (event :: rest)) :
    (handleEvent { s with pc := .handling rest } event).Stranded d := by
  have pending : s.pending = event :: (rest ++ s.queue) := pending_handling handling
  have later : ∀ e ∈ State.pending { s with pc := .handling rest }, e ∈ s.pending := by
    intro e member
    rw [pending]
    exact List.mem_cons_of_mem _ member
  unfold handleEvent
  split
  · rename_i create
    have member : event ∈ s.pending := by
      rw [pending]
      exact List.mem_cons_self
    exact absurd (Or.inr (Or.inr ⟨event, member, decide_eq_true create⟩)) stranded.2
  · split
    · refine stranded_goes_on stranded rfl (fun watched => ?_)
        (fun will => absurd will (not_walking rfl (by nofun) _ d)) later
      have watched : (if s.watches d = some event.wd then none else s.watches d).isSome := watched
      split at watched
      · cases watched
      · exact watched
    · exact stranded_goes_on stranded rfl id (fun will => absurd will (not_walking rfl (by nofun) _ d))
        later

/-- After `errExit` nothing is watched. -/
theorem errExit_strands (s : State) : s.errExit.Stranded root := by
  refine ⟨.here, fun covers => ?_⟩
  rcases covers with watched | ⟨paths, walks, _⟩ | ⟨event, member, _⟩
  · cases watched
  · cases walks
  · cases member

section Visit

variable {s : State} {d : Nat} {path : List CStr} {rest : List (List CStr)}

theorem later_visit (walking : s.pc = .walking (path :: rest)) {p : List CStr} (member : p ∈ rest)
    {a : Nat} (leads : Path s.tree.dirs root a p) (under : Under s.tree.dirs a d) :
    s.WillVisit s.tree.dirs d :=
  ⟨_, walking, _, List.mem_cons_of_mem _ member, _, leads, under⟩

theorem stranded_skip (stranded : s.Stranded d) (walking : s.pc = .walking (path :: rest)) :
    State.Stranded { s with pc := .walking rest } d := by
  refine stranded_goes_on stranded rfl id (fun will => ?_) fun event member => ?_
  · obtain ⟨paths, walks, p, member, a, leads, under⟩ := will
    cases walks
    exact later_visit walking member leads under
  · rw [pending_walking walking]
    exact member

theorem stranded_listed (stranded : s.Stranded d) (walking : s.pc = .walking (path :: rest))
    {id : Nat} (resolved : resolve s.tree.dirs root path = some id) :
    State.Stranded
      (State.inotifyAddWatch { s with pc := .walking (children s.tree path id ++ rest) } id) d := by
  have leads := (resolve_iff s.tree).mp resolved
  have apart : ¬ Under s.tree.dirs id d := fun under => stranded.2
    (Or.inr (Or.inl ⟨_, walking, path, List.mem_cons_self, id, leads, under⟩))
  have visited : ∀ p ∈ children s.tree path id ++ rest, ∀ a, Path s.tree.dirs root a p →
      Under s.tree.dirs a d → s.WillVisit s.tree.dirs d := by
    intro p member a leads' under
    rcases List.mem_append.mp member with child | old
    · obtain ⟨dir, dirMember, rfl⟩ := List.mem_map.mp child
      obtain ⟨dirMember, parent⟩ := List.mem_filter.mp dirMember
      have parent : dir.parent = id := of_decide_eq_true parent
      have here := (resolve_iff s.tree).mpr (path_child leads dirMember parent)
      rw [(resolve_iff s.tree).mpr leads'] at here
      cases here
      have below : Under s.tree.dirs id dir.id := .child dirMember (parent ▸ .here)
      exact absurd (under_trans below under) apart
    · exact later_visit walking old leads' under
  obtain ⟨tree, queue, pc⟩ :=
    inotifyAddWatch_frame { s with pc := .walking (children s.tree path id ++ rest) } id
  refine stranded_goes_on stranded tree (fun watched => ?_) (fun will => ?_)
    fun event member => ?_
  · rcases inotifyAddWatch_watched.mp watched with rfl | watched
    · exact absurd .here apart
    · exact watched
  · obtain ⟨paths, walks, p, member, a, leads', under⟩ := will
    rw [pc] at walks
    cases walks
    exact visited p member a leads' under
  · rw [pending_walking pc, queue] at member
    rw [pending_walking walking]
    exact member

theorem stranded_visit (stranded : s.Stranded d) (walking : s.pc = .walking (path :: rest))
    (report : Report) : ∃ e, (visit s path rest report).Stranded e := by
  rcases visit_cases s path rest report with ⟨_, left⟩ | ⟨id, resolved, left⟩
  · rw [left]
    exact ⟨d, stranded_skip stranded walking⟩
  · rcases left with ⟨_, left⟩ | ⟨_, _, left⟩ | ⟨_, _, left⟩
    · rw [left]
      exact ⟨d, stranded_skip stranded walking⟩
    · rw [left]
      exact ⟨root, errExit_strands s⟩
    · rw [left]
      exact ⟨d, stranded_listed stranded walking resolved⟩

end Visit

theorem stranded_step {s t : State} {a : Action} (stranded : ∃ d, s.Stranded d)
    (program : a.ofProgram) (h : step s a = .ok t) : ∃ d, t.Stranded d := by
  obtain ⟨d, stranded⟩ := stranded
  rcases program_cases program h with
    ⟨count, reading, rfl⟩ | ⟨ended, rfl⟩ | ⟨event, rest, handling, rfl⟩ |
    ⟨path, rest, report, _, walking, rfl⟩ | ⟨_, rfl⟩
  · refine ⟨d, stranded_goes_on stranded rfl id
      (fun will => absurd will (not_walking rfl (by nofun) _ d)) fun event member => ?_⟩
    have member : event ∈ s.queue.take count ++ s.queue.drop count := member
    rw [List.take_append_drop] at member
    exact List.mem_append_right _ member
  · exact ⟨d, stranded_goes_on stranded rfl id
      (fun will => absurd will (not_walking rfl (by nofun) _ d))
      fun event member => List.mem_append_right _ member⟩
  · exact ⟨d, stranded_handle stranded handling⟩
  · exact stranded_visit stranded walking report
  · exact ⟨root, errExit_strands s⟩

/-- The two events of a move announce nothing. -/
theorem covers_moved {s : State} {dir : Nat} {kind : Kind} {name : Option CStr}
    {dirs : List (Dir CStr)} {d : Nat} (other : kind ≠ .create)
    (covers : (s.notify dir kind name).Covers dirs d) : s.Covers dirs d := by
  rcases covers with watched | ⟨paths, walking, ahead⟩ | ⟨event, member, create⟩
  · exact Or.inl (by simpa [State.Watched] using watched)
  · exact Or.inr (Or.inl ⟨paths, by simpa using walking, ahead⟩)
  · rw [notify_pending] at member
    rcases List.mem_append.mp member with old | new
    · exact Or.inr (Or.inr ⟨event, old, create⟩)
    · split at new
      · rw [List.mem_singleton.mp new] at create
        exact absurd (of_decide_eq_true create).1 other
      · cases new

theorem rename_strands {s t : State} {id parent : Nat} {name : CStr}
    (uncovered : ¬ MoveCovered s (.rename id parent name)) (h : rename s id parent name = .ok t) :
    ∃ d, t.Stranded d := by
  obtain ⟨dir, free, rfl⟩ := rename_ok h
  simp only [MoveCovered, not_forall] at uncovered
  obtain ⟨_, d, _, under, bare⟩ := uncovered
  refine ⟨d, by simpa using under, fun covers => bare ?_⟩
  simp only [notify_tree] at covers
  exact covers_moved (s := { s with tree := s.tree.move id parent name free }) (by decide)
    (covers_moved (by decide) covers)

theorem visit_strands {s t : State} {report : Report}
    (uncovered : ¬ CallsCovered s (.visit report)) (h : step s (.visit report) = .ok t) :
    ∃ d, t.Stranded d := by
  obtain ⟨paths, walking, ⟨_, rfl⟩ | ⟨went, left⟩⟩ := visit_ok h
  · exact ⟨root, errExit_strands s⟩
  · simp only [CallsCovered, went, true_and, not_forall, not_or, not_and] at uncovered
    obtain ⟨path, rest, id, walks, resolved, failed, bare⟩ := uncovered
    rw [walking] at walks
    cases walks
    rcases left with ⟨empty, _⟩ | ⟨path', rest', same, rfl⟩
    · cases empty
    · cases same
      rcases visit_cases s path rest report with ⟨nowhere, _⟩ | ⟨id', found, left⟩
      · rw [resolved] at nowhere
        cases nowhere
      · rw [resolved] at found
        cases found
        rcases left with ⟨skipped, left⟩ | ⟨_, _, left⟩ | ⟨listed, added, _⟩
        · rw [left]
          obtain ⟨d, under, bare⟩ := bare skipped
          have above := path_under ((resolve_iff s.tree).mp resolved)
          exact ⟨d, under_trans above under, bare⟩
        · rw [left]
          exact ⟨root, errExit_strands s⟩
        · exact absurd added (failed listed)

theorem read_strands {s t : State} {count : Option Nat}
    (uncovered : ¬ CallsCovered s (.read count)) (h : step s (.read count) = .ok t) :
    ∃ d, t.Stranded d := by
  cases count with
  | some count => exact absurd rfl uncovered
  | none =>
    rw [step] at h
    split at h
    · cases h
      exact ⟨root, errExit_strands s⟩
    · cases h

/-- After a step that is not covered the program alone, however far it goes, leaves a directory of
the tree without a watch. -/
theorem uncovered_stays_unwatched {s t u : State} {a : Action} {actions : List Action}
    (uncovered : ¬ Covered s a) (stepped : step s a = .ok t) (program : ∀ a ∈ actions, a.ofProgram)
    (reached : run step t actions = .ok u) : ∃ d, Under u.tree.dirs root d ∧ ¬ u.Watched d := by
  have strands : ∃ d, t.Stranded d := by
    unfold Covered at uncovered
    cases a with
    | rename id parent name =>
      exact rename_strands (fun covered => uncovered ⟨covered, trivial⟩) stepped
    | visit report => exact visit_strands (fun covered => uncovered ⟨trivial, covered⟩) stepped
    | read count => exact read_strands (fun covered => uncovered ⟨trivial, covered⟩) stepped
    | mkdir | rmdir | handle => exact absurd ⟨trivial, trivial⟩ uncovered
  obtain ⟨d, stranded⟩ := run_invariant (I := fun s => ∃ d, s.Stranded d)
    (C := fun _ a => a.ofProgram) (fun _ _ _ inv program h => stranded_step inv program h) strands
    (each_of_all program) reached
  exact ⟨d, stranded.1, fun watched => stranded.2 (Or.inl watched)⟩

/-! ### Two runs -/

/-- One directory, in the tree or elsewhere. -/
def sampleTree (parent : Nat) : DirTree CStr where
  dirs := [⟨2, parent, .ofBytes [100]⟩]
  ids d dMember e eMember _ := by rw [List.mem_singleton.mp dMember, List.mem_singleton.mp eMember]
  names d dMember e eMember _ _ := by
    rw [List.mem_singleton.mp dMember, List.mem_singleton.mp eMember]
  tops d member := by
    rw [List.mem_singleton.mp member]
    show 2 ≠ 0 ∧ 2 ≠ 1
    omega

/-- The directory can be read, and the calls succeed. -/
def Report.listed : Report := ⟨true, .d, true⟩

end Tlpi.TreeWatch
