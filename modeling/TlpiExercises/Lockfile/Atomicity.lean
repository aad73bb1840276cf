import TlpiExercises.Lockfile.Model

/-!
# The locks that a run leaves

The program creates the files in the order of the list, and removes none. What it has created when it
ends are all the files of the list, or those before the one that it could not create. These stay, unless
other processes remove them.
-/

namespace Tlpi.Lockfile

open Transitions

variable {Path : Type*}

/-- All the locks after a success, and none of them after a failure. -/
def AllOrNothing (names : List Path) (s : State Path) : Prop :=
  (s.pc = .exited .success → ∀ path ∈ names, path ∈ s.created) ∧
    (s.pc = .exited .failure → ∀ path, s.fs path ≠ some .run)

/-- What has been created, by the place where the program is. -/
def Progress (names : List Path) (s : State Path) : Prop :=
  match s.pc with
  | .trying file_n _ => file_n ≤ names.length ∧ s.created = names.take file_n
  | .exited .success => s.created = names
  | .exited .failure => s.created <+: names ∧ (names = [] ∨ s.created.length < names.length)

/-- The files that are there because of the run are those that it has created and nobody has removed. -/
structure Owned (s : State Path) : Prop where
  created : ∀ path, s.fs path = some .run → path ∈ s.created
  left : ∀ path ∈ s.created, s.fs path = some .run ∨ path ∈ s.removed

variable {s t : State Path}

theorem failed_progress {names : List Path} {file_n retry_n : Nat} (pc : s.pc = .trying file_n retry_n)
    (inside : file_n < names.length) (progress : Progress names s) :
    Progress names { s with pc := .exited .failure } := by
  unfold Progress at progress ⊢
  rw [pc] at progress
  obtain ⟨_, created⟩ := progress
  refine ⟨created ▸ List.take_prefix file_n names, Or.inr ?_⟩
  dsimp only
  rw [created, List.length_take_of_le (Nat.le_of_lt inside)]
  exact inside

theorem start_cases (argv1 argv2 : List UInt8) (names : List Path) (existing : Path → Bool) :
    ∃ retries pc, start argv1 argv2 names existing =
      ⟨retries, fun path => if existing path then some .other else none, pc, [], []⟩ ∧
      (pc = .exited .failure ∨ pc = .trying 0 0) := by
  unfold start
  dsimp only
  split
  · exact ⟨0, _, rfl, Or.inl rfl⟩
  · cases GetNum.getInt argv1 GN_GT_0 with
    | none => exact ⟨0, _, rfl, Or.inl rfl⟩
    | some _ =>
      cases retriesOf argv2 with
      | none => exact ⟨0, _, rfl, Or.inl rfl⟩
      | some retries => exact ⟨retries, _, rfl, Or.inr rfl⟩

theorem start_foreign (argv1 argv2 : List UInt8) (names : List Path) (existing : Path → Bool)
    (path : Path) : (start argv1 argv2 names existing).fs path ≠ some .run := by
  obtain ⟨retries, pc, same, _⟩ := start_cases argv1 argv2 names existing
  rw [same]
  dsimp only
  split <;> decide

theorem start_inv (argv1 argv2 : List UInt8) (names : List Path) (existing : Path → Bool) :
    Progress names (start argv1 argv2 names existing) ∧ Owned (start argv1 argv2 names existing) := by
  have foreign := start_foreign argv1 argv2 names existing
  obtain ⟨retries, pc, same, place⟩ := start_cases argv1 argv2 names existing
  rw [same] at foreign ⊢
  refine ⟨?_, fun path run => absurd run (foreign path), fun _ member => absurd member List.not_mem_nil⟩
  rcases place with rfl | rfl
  · refine ⟨List.nil_prefix, ?_⟩
    cases names with
    | nil => exact Or.inl rfl
    | cons name rest => exact Or.inr (Nat.succ_pos rest.length)
  · exact ⟨Nat.zero_le _, rfl⟩

theorem start_allOrNothing (argv1 argv2 : List UInt8) {names : List Path} (existing : Path → Bool) :
    AllOrNothing names (start argv1 argv2 names existing) := by
  obtain ⟨progress, owned⟩ := start_inv argv1 argv2 names existing
  refine ⟨fun exited => ?_, fun _ path run => ?_⟩
  · unfold Progress at progress
    rw [exited] at progress
    exact fun path member => progress.symm ▸ member
  · exact start_foreign argv1 argv2 names existing path run

variable [DecidableEq Path]

/-- One file changes hands. -/
theorem owned_update {path : Path} {owner : Option Owner} (owned : Owned s)
    (fs : t.fs = Function.update s.fs path owner)
    (others : ∀ p, p ≠ path → (p ∈ t.created ↔ p ∈ s.created)) (removed : ∀ p ∈ s.removed, p ∈ t.removed)
    (mine : owner = some .run → path ∈ t.created)
    (left : path ∈ t.created → owner = some .run ∨ path ∈ t.removed) : Owned t := by
  refine ⟨fun p run => ?_, fun p member => ?_⟩
  · rw [fs] at run
    by_cases same : p = path
    · rw [same, Function.update_self] at run
      exact same ▸ mine run
    · rw [Function.update_of_ne same] at run
      exact (others p same).mpr (owned.created p run)
  · rw [fs]
    by_cases same : p = path
    · rw [same, Function.update_self]
      exact left (same ▸ member)
    · rw [Function.update_of_ne same]
      exact (owned.left p ((others p same).mp member)).imp_right (removed p)

theorem owned_create {path : Path} (owned : Owned s) (free : s.fs path = none) :
    Owned { s with fs := Function.update s.fs path (some .other) } := by
  refine owned_update owned rfl (fun _ _ => Iff.rfl) (fun _ member => member) (by rintro ⟨⟩) fun member => ?_
  refine Or.inr ((owned.left path member).resolve_left fun run => ?_)
  rw [free] at run
  cases run

theorem owned_remove (path : Path) (owned : Owned s) :
    Owned { s with fs := Function.update s.fs path none, removed := path :: s.removed } :=
  owned_update owned rfl (fun _ _ => Iff.rfl) (fun _ => List.mem_cons_of_mem path) (by rintro ⟨⟩)
    fun _ => Or.inr List.mem_cons_self

theorem owned_open (path : Path) (pc : Pc) (owned : Owned s) :
    Owned { s with
      fs := Function.update s.fs path (some .run), created := s.created ++ [path], pc := pc } := by
  refine owned_update owned rfl (fun p other => ?_) (fun _ member => member)
    (fun _ => List.mem_append_right _ (List.mem_singleton_self path)) fun _ => Or.inl rfl
  rw [List.mem_append, List.mem_singleton]
  exact or_iff_left other

/-- The step with which the program gives up, in the two ways that it has. -/
def GivesUp (names : List Path) (s : State Path) : Event Path → Prop
  | .turn => ∃ file_n retry_n, s.pc = .trying file_n retry_n ∧ file_n < names.length ∧
      ¬ (retry_n : Int) < s.retries
  | .openFails => ∃ file_n retry_n, s.pc = .trying file_n retry_n ∧ file_n < names.length ∧
      (retry_n : Int) < s.retries
  | .create _ => False
  | .remove _ => False

theorem create_cases {names : List Path} {path : Path} (stepped : step names s (.create path) = some t) :
    s.fs path = none ∧ t = { s with fs := Function.update s.fs path (some .other) } := by
  unfold step at stepped
  cases exists_ : s.fs path with
  | some owner =>
    simp only [exists_] at stepped
    cases stepped
  | none =>
    simp only [exists_] at stepped
    exact ⟨rfl, (Option.some.inj stepped).symm⟩

theorem remove_cases {names : List Path} {path : Path} (stepped : step names s (.remove path) = some t) :
    t = { s with fs := Function.update s.fs path none, removed := path :: s.removed } := by
  unfold step at stepped
  cases exists_ : s.fs path with
  | none =>
    simp only [exists_] at stepped
    cases stepped
  | some owner =>
    simp only [exists_] at stepped
    exact (Option.some.inj stepped).symm

theorem openFails_cases {names : List Path} (stepped : step names s .openFails = some t) :
    GivesUp names s .openFails ∧ t = { s with pc := .exited .failure } := by
  unfold step at stepped
  cases pc : s.pc with
  | exited status =>
    simp only [pc] at stepped
    cases stepped
  | trying file_n retry_n =>
    simp only [pc] at stepped
    split at stepped
    next possible => exact ⟨⟨file_n, retry_n, pc, possible⟩, (Option.some.inj stepped).symm⟩
    next => cases stepped

/-- What the program does in a turn of its own. -/
theorem turn_cases {names : List Path} (stepped : step names s .turn = some t) :
    ∃ file_n retry_n, s.pc = .trying file_n retry_n ∧
      (names.length ≤ file_n ∧ t = { s with pc := .exited .success } ∨
      file_n < names.length ∧ (t = { s with pc := .trying file_n (retry_n + 1) } ∨
        ¬ (retry_n : Int) < s.retries ∧ t = { s with pc := .exited .failure }) ∨
      ∃ path, names[file_n]? = some path ∧ s.fs path = none ∧ t = { s with
        fs := Function.update s.fs path (some .run)
        created := s.created ++ [path]
        pc := .trying (file_n + 1) 0 }) := by
  unfold step at stepped
  cases pc : s.pc with
  | exited status =>
    rw [pc] at stepped
    cases stepped
  | trying file_n retry_n =>
    rw [pc] at stepped
    dsimp only at stepped
    refine ⟨file_n, retry_n, rfl, ?_⟩
    cases found : names[file_n]? with
    | none =>
      rw [found] at stepped
      exact Or.inl ⟨List.getElem?_eq_none_iff.mp found, (Option.some.inj stepped).symm⟩
    | some path =>
      rw [found] at stepped
      dsimp only at stepped
      have inside : file_n < names.length := (List.getElem?_eq_some_iff.mp found).1
      split at stepped
      next =>
        cases exists_ : s.fs path with
        | some owner =>
          rw [exists_] at stepped
          exact Or.inr (Or.inl ⟨inside, Or.inl (Option.some.inj stepped).symm⟩)
        | none =>
          rw [exists_] at stepped
          exact Or.inr (Or.inr ⟨path, rfl, exists_, (Option.some.inj stepped).symm⟩)
      next used_up =>
        exact Or.inr (Or.inl ⟨inside, Or.inr ⟨used_up, (Option.some.inj stepped).symm⟩⟩)

theorem progress_turn {names : List Path} (progress : Progress names s)
    (stepped : step names s .turn = some t) : Progress names t := by
  obtain ⟨file_n, retry_n, pc, ⟨all, rfl⟩ | ⟨inside, rfl | ⟨_, rfl⟩⟩ | ⟨path, found, _, rfl⟩⟩ :=
    turn_cases stepped
  · unfold Progress at progress ⊢
    rw [pc] at progress
    exact progress.2.trans (List.take_of_length_le all)
  · unfold Progress at progress ⊢
    rw [pc] at progress
    exact progress
  · exact failed_progress pc inside progress
  · unfold Progress at progress ⊢
    rw [pc] at progress
    dsimp only
    refine ⟨(List.getElem?_eq_some_iff.mp found).1, ?_⟩
    rw [progress.2, List.take_add_one, found]
    rfl

theorem owned_turn {names : List Path} (owned : Owned s) (stepped : step names s .turn = some t) :
    Owned t := by
  obtain ⟨file_n, retry_n, pc, ⟨all, rfl⟩ | ⟨inside, rfl | ⟨_, rfl⟩⟩ | ⟨path, found, _, rfl⟩⟩ :=
    turn_cases stepped
  · exact ⟨owned.created, owned.left⟩
  · exact ⟨owned.created, owned.left⟩
  · exact ⟨owned.created, owned.left⟩
  · exact owned_open path _ owned

theorem inv_step {names : List Path} (s : State Path) (e : Event Path) (t : State Path)
    (inv : Progress names s ∧ Owned s) (stepped : step names s e = some t) :
    Progress names t ∧ Owned t := by
  obtain ⟨progress, owned⟩ := inv
  cases e with
  | create path =>
    obtain ⟨free, rfl⟩ := create_cases stepped
    exact ⟨progress, owned_create owned free⟩
  | remove path =>
    obtain rfl := remove_cases stepped
    exact ⟨progress, owned_remove path owned⟩
  | turn => exact ⟨progress_turn progress stepped, owned_turn owned stepped⟩
  | openFails =>
    obtain ⟨⟨file_n, retry_n, pc, inside, _⟩, rfl⟩ := openFails_cases stepped
    exact ⟨failed_progress pc inside progress, owned.created, owned.left⟩

/-- A failed run leaves what it has created: no file is ever removed by the program. -/
theorem exited_locks {argv1 argv2 : List UInt8} {names : List Path} {existing : Path → Bool}
    {s : State Path} (leads : Leads (step names) (start argv1 argv2 names existing) s) :
    (s.pc = .exited .success → s.created = names) ∧
      (s.pc = .exited .failure → s.created <+: names ∧ (names = [] ∨ s.created.length < names.length) ∧
        (∀ path, s.fs path = some .run → path ∈ s.created) ∧
        ∀ path ∈ s.created, s.fs path = some .run ∨ path ∈ s.removed) := by
  obtain ⟨progress, owned⟩ := leads_invariant inv_step leads (start_inv argv1 argv2 names existing)
  unfold Progress at progress
  refine ⟨fun exited => ?_, fun exited => ?_⟩
  · rw [exited] at progress
    exact progress
  · rw [exited] at progress
    exact ⟨progress.1, progress.2, owned.created, owned.left⟩

/-! ### The runs that leave nothing after a failure -/

/-- The program does not give up while there is a lock file of its own. -/
def Clean (names : List Path) (s : State Path) (e : Event Path) : Prop :=
  GivesUp names s e → ∀ path, s.fs path ≠ some .run

theorem step_givesUp {names : List Path} {e : Event Path} (givesUp : GivesUp names s e) :
    step names s e = some { s with pc := .exited .failure } := by
  cases e with
  | create path => exact givesUp.elim
  | remove path => exact givesUp.elim
  | turn =>
    obtain ⟨file_n, retry_n, pc, inside, used_up⟩ := givesUp
    unfold step
    simp only [pc, List.getElem?_eq_getElem inside, if_neg used_up]
  | openFails =>
    obtain ⟨file_n, retry_n, pc, inside, possible⟩ := givesUp
    unfold step
    simp only [pc, if_pos (And.intro inside possible)]

theorem foreign_update {path p : Path} {owner : Option Owner} (foreign : owner ≠ some .run)
    (run : Function.update s.fs path owner p = some .run) : s.fs p = some .run := by
  by_cases same : p = path
  · rw [same, Function.update_self] at run
    exact absurd run foreign
  · rwa [Function.update_of_ne same] at run

/-- A step to the failed exit is one of these, or one of another process. -/
theorem failed_step {names : List Path} {e : Event Path} (stepped : step names s e = some t)
    (failed : t.pc = .exited .failure) :
    GivesUp names s e ∧ t.fs = s.fs ∨
      s.pc = .exited .failure ∧ ∀ path, t.fs path = some .run → s.fs path = some .run := by
  cases e with
  | create path =>
    obtain ⟨_, rfl⟩ := create_cases stepped
    exact Or.inr ⟨failed, fun _ => foreign_update (by decide)⟩
  | remove path =>
    obtain rfl := remove_cases stepped
    exact Or.inr ⟨failed, fun _ => foreign_update (by decide)⟩
  | turn =>
    obtain ⟨file_n, retry_n, pc, ⟨_, rfl⟩ | ⟨inside, rfl | ⟨used_up, rfl⟩⟩ | ⟨path, _, _, rfl⟩⟩ :=
      turn_cases stepped
    · cases failed
    · cases failed
    · exact Or.inl ⟨⟨file_n, retry_n, pc, inside, used_up⟩, rfl⟩
    · cases failed
  | openFails =>
    obtain ⟨givesUp, rfl⟩ := openFails_cases stepped
    exact Or.inl ⟨givesUp, rfl⟩

theorem allOrNothing_step {names : List Path} (s : State Path) (e : Event Path) (t : State Path)
    (inv : (Progress names s ∧ Owned s) ∧ AllOrNothing names s) (clean : Clean names s e)
    (stepped : step names s e = some t) :
    (Progress names t ∧ Owned t) ∧ AllOrNothing names t := by
  have kept := inv_step s e t inv.1 stepped
  refine ⟨kept, fun exited path member => ?_, fun exited path run => ?_⟩
  · have progress := kept.1
    unfold Progress at progress
    rw [exited] at progress
    exact progress.symm ▸ member
  · rcases failed_step stepped exited with ⟨givesUp, same⟩ | ⟨before, foreign⟩
    · exact clean givesUp path (same ▸ run)
    · exact inv.2.2 before path (foreign path run)

/-- All states of a run are all-or-nothing if, and only if, the program gives up in none of them while
it has locks. -/
theorem allOrNothing_iff (argv1 argv2 : List UInt8) (names : List Path) (existing : Path → Bool)
    (events : List (Event Path)) :
    (∀ before after s, events = before ++ after →
      before.foldlM (step names) (start argv1 argv2 names existing) = some s → AllOrNothing names s) ↔
    ∀ before e after s, events = before ++ e :: after →
      before.foldlM (step names) (start argv1 argv2 names existing) = some s → Clean names s e := by
  constructor
  · intro all before e after s split run givesUp path
    have failed := step_givesUp givesUp
    have next : (before ++ [e]).foldlM (step names) (start argv1 argv2 names existing) =
        some { s with pc := .exited .failure } := by
      rw [List.foldlM_append, Option.bind_eq_bind, run, Option.bind_some, List.foldlM_cons, failed]
      rfl
    refine (all (before ++ [e]) after _ ?_ next).2 rfl path
    rw [split, List.append_assoc, List.singleton_append]
  · rintro clean before after s rfl run
    exact (run_invariant allOrNothing_step
      ⟨start_inv argv1 argv2 names existing, start_allOrNothing argv1 argv2 existing⟩ clean run).2

/-- `lockfile_imp 1 1 0 1` where file 1 exists: the lock that was made before the one that could not be
made stays. -/
theorem lock_left : ¬ ∀ (argv1 argv2 : List UInt8) (names : List Nat) (existing : Nat → Bool)
    (s : State Nat), Leads (step names) (start argv1 argv2 names existing) s → AllOrNothing names s := by
  intro all
  obtain ⟨s, run, exited, left⟩ : ∃ s, ([.turn, .turn, .turn] : List (Event Nat)).foldlM (step [0, 1])
      (start [49] [49] [0, 1] (· == 1)) = some s ∧ s.pc = .exited .failure ∧ s.fs 0 = some .run :=
    ⟨_, rfl, rfl, rfl⟩
  exact (all [49] [49] [0, 1] (· == 1) s (leads_events run)).2 exited 0 left

end Tlpi.Lockfile
