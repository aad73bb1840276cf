import TlpiExercises.ThreadMultijoin.Joined

/-!
# How the process ends

Every run ends, and it ends well only where `main` never has to wait.
-/

namespace Tlpi.ThreadMultijoin

open Transitions

variable {n : Nat} {args : Fin n → List UInt8} {s t : State n} {i : Fin n}

/-- How many threads have incremented `numUnjoined`. -/
def incremented (thread : Fin n → ThreadPc) : Nat :=
  (Finset.univ.filter fun i => (thread i).hasIncremented = true).card

theorem sum_incremented (thread : Fin n → ThreadPc) :
    ∑ i, ((thread i).hasIncremented.toNat : Int) = incremented thread := by
  unfold incremented
  rw [Finset.card_filter, Nat.cast_sum]
  apply Finset.sum_congr rfl
  intro i _
  cases (thread i).hasIncremented <;> rfl

theorem incremented_le (thread : Fin n → ThreadPc) : incremented thread ≤ n := by
  have bound := Finset.card_filter_le Finset.univ fun i => (thread i).hasIncremented = true
  rwa [Finset.card_univ, Fintype.card_fin] at bound

theorem reaped_card (running : Running args s) :
    s.reaped.length = (s.reaped.map Prod.fst).toFinset.card := by
  rw [List.toFinset_card_of_nodup running.printed.once, List.length_map]

/-- A joined thread has incremented `numUnjoined`. -/
theorem reaped_le (running : Running args s) : s.reaped.length ≤ incremented s.thread := by
  rw [reaped_card running]
  apply Finset.card_le_card
  intro i member
  rw [List.mem_toFinset, running.printed.joined] at member
  have phase := running.phase i
  rw [member] at phase
  rw [Finset.mem_filter]
  refine ⟨Finset.mem_univ i, ?_⟩
  cases at_ : s.thread i <;> rw [at_] at phase <;> first | rfl | cases phase

/-- At the end of the `for` every thread that has incremented `numUnjoined` is joined. -/
theorem incremented_le_reaped (running : Running args s) (holds : s.main.holds = true)
    (none : ∀ i, s.state i ≠ .terminated) : incremented s.thread ≤ s.reaped.length := by
  rw [reaped_card running]
  apply Finset.card_le_card
  intro i member
  have phase := running.phase i
  have outside : ¬ (s.thread i).holds = true := fun inside => main_outside running inside holds
  have past := (Finset.mem_filter.mp member).2
  rw [List.mem_toFinset, running.printed.joined]
  cases at_ : s.thread i with
  | absent | lock | increment =>
    rw [at_] at past
    cases past
  | setState | unlock =>
    rw [at_] at outside
    exact absurd rfl outside
  | signal =>
    rw [at_] at phase
    exact absurd phase (none i)
  | done =>
    rw [at_] at phase
    exact phase.resolve_left (none i)

/-! ### What is ahead -/

def ThreadPc.ahead : ThreadPc → Nat
  | .absent => 6
  | .lock => 5
  | .increment => 4
  | .setState => 3
  | .unlock => 2
  | .signal => 1
  | .done => 0

/-- More than one round of `main` takes. -/
def round (n : Nat) : Nat := 3 * n + 10

/-- The steps of `main` with `reaped` threads joined and `past` ones that have incremented `numUnjoined`. -/
def MainPc.ahead (reaped past : Nat) : MainPc n → Nat
  | .usage => n * round n + n + 9
  | .create k => n * round n + (n - k) + 8
  | .unlock => (n - reaped) * round n + 7
  | .live => (n - reaped) * round n + 6
  | .lock => (n - reaped) * round n + 5
  | .unjoined => (n - reaped) * round n + 4
  | .scan k => (n - past) * round n + 3 * (n - k) + 9
  | .join i => (n - past) * round n + 3 * (n - i) + 8
  | .waiting => 2
  | .woken => 1
  | .succeeded => 0
  | .failed => 0

def State.ahead (s : State n) : Nat :=
  s.main.ahead s.reaped.length (incremented s.thread) + ∑ i, (s.thread i).ahead

theorem ahead_start : (start n).ahead = n * round n + 7 * n + 9 := by
  show n * round n + n + 9 + ∑ _i : Fin n, 6 = _
  rw [Finset.sum_const, Finset.card_univ, Fintype.card_fin, smul_eq_mul]
  omega

/-- A step of `main` that leaves the threads where they are. -/
theorem ahead_main (same : t.thread = s.thread)
    (less : t.main.ahead t.reaped.length (incremented s.thread) <
      s.main.ahead s.reaped.length (incremented s.thread)) : t.ahead < s.ahead := by
  unfold State.ahead
  rw [same]
  omega

/-- While `numUnjoined` is not 0, a round of `main` gets further. -/
theorem scans_falls (running : Running args s) (some : s.numUnjoined ≠ 0) :
    (n - incremented s.thread) * round n + 3 * n + 9 < (n - s.reaped.length) * round n + 4 := by
  have counted := running.counted
  rw [sum_incremented] at counted
  have fewer := reaped_le running
  have bound := incremented_le s.thread
  have further : n - incremented s.thread + 1 ≤ n - s.reaped.length := by omega
  have rounds := Nat.mul_le_mul_right (round n) further
  rw [Nat.succ_mul] at rounds
  have long : round n = 3 * n + 10 := rfl
  omega

theorem scanned_falls (running : Running args s) {k : Nat} (at_ : s.main = .scan k) (all : n ≤ k) :
    (n - s.reaped.length) * round n ≤ (n - incremented s.thread) * round n := by
  have course := running.course
  rw [at_] at course
  apply Nat.mul_le_mul_right
  have more := incremented_le_reaped running (by rw [at_]; rfl) fun i => course.2.2 i (by omega)
  omega

theorem proceeds_falls (running : Running args s) (h : Proceeds args s t) : t.ahead < s.ahead := by
  cases h with
  | refuses at_ | begins at_ | rejects i at_ | leaves at_ | locks at_ | waits at_ | fails at_
  | unlocks at_ | again at_ | finds i at_ | passes i at_ =>
    refine ahead_main rfl ?_
    rw [at_]
    simp only [MainPc.ahead]
    omega
  | tests at_ free nonzero => exact absurd running.zero nonzero
  | creates i at_ =>
    have absent : s.thread i = .absent := by
      rw [running.absent i, at_]
      exact Nat.le_refl _
    have change := sum_update s.thread i .lock ThreadPc.ahead
    rw [absent] at change
    unfold State.ahead
    rw [at_]
    show n * round n + (n - (i.1 + 1)) + 8 + ∑ j, (Function.update s.thread i .lock j).ahead <
      n * round n + (n - i.1) + 8 + ∑ j, (s.thread j).ahead
    simp only [ThreadPc.ahead] at change ⊢
    omega
  | begun at_ all =>
    refine ahead_main rfl ?_
    have fewer : (n - s.reaped.length) * round n ≤ n * round n := Nat.mul_le_mul_right _ (Nat.sub_le _ _)
    rw [at_]
    simp only [MainPc.ahead]
    omega
  | scans at_ some =>
    refine ahead_main rfl ?_
    rw [at_]
    exact scans_falls running some
  | scanned at_ all =>
    refine ahead_main rfl ?_
    have falls := scanned_falls running at_ all
    rw [at_]
    simp only [MainPc.ahead]
    omega
  | joins i at_ done =>
    refine ahead_main rfl ?_
    rw [at_]
    simp only [MainPc.ahead]
    omega

theorem incremented_update {pc : ThreadPc} (same : pc.hasIncremented = (s.thread i).hasIncremented) :
    incremented (Function.update s.thread i pc) = incremented s.thread := by
  unfold incremented
  congr 2
  funext j
  by_cases here : j = i
  · rw [here, Function.update_self, same]
  · rw [Function.update_of_ne here]

theorem ahead_thread (pc : ThreadPc) (thread : t.thread = Function.update s.thread i pc)
    (less : pc.ahead < (s.thread i).ahead)
    (main : t.main.ahead t.reaped.length (incremented t.thread) ≤
      s.main.ahead s.reaped.length (incremented s.thread)) : t.ahead < s.ahead := by
  have change := sum_update s.thread i pc ThreadPc.ahead
  rw [← thread] at change
  unfold State.ahead
  omega

theorem ahead_same {pc : ThreadPc} (thread : t.thread = Function.update s.thread i pc)
    (less : pc.ahead < (s.thread i).ahead) (same : pc.hasIncremented = (s.thread i).hasIncremented)
    (main : t.main = s.main) (reaped : t.reaped = s.reaped) : t.ahead < s.ahead := by
  refine ahead_thread pc thread less ?_
  rw [thread, main, reaped, incremented_update same]

/-- Outside of the mutex `main` does not depend on who has incremented `numUnjoined`. -/
theorem ahead_outside {main : MainPc n} (outside : ¬ main.holds = true) (reaped past after : Nat) :
    main.ahead reaped past = main.ahead reaped after := by
  cases main with
  | scan k => exact absurd rfl outside
  | join i => exact absurd rfl outside
  | _ => rfl

theorem moves_falls (running : Running args s) (h : Moves s i t) : t.ahead < s.ahead := by
  cases h with
  | lock at_ free | setState at_ | unlock at_ | signals at_ busy =>
    refine ahead_same (s := s) (i := i) rfl ?_ ?_ rfl rfl
    · rw [at_]
      decide
    · rw [at_]
      rfl
  | wakes at_ waiting =>
    refine ahead_thread (s := s) (i := i) .done rfl ?_ ?_
    · rw [at_]
      decide
    · rw [waiting]
      exact Nat.le_succ 1
  | increment at_ =>
    have outside := main_outside running (i := i) (by rw [at_]; rfl)
    refine ahead_thread (s := s) (i := i) .setState rfl ?_ ?_
    · rw [at_]
      decide
    · exact Nat.le_of_eq (ahead_outside outside _ _ _)

/-! ### Every run -/

/-- What holds in every run. -/
def Inv (args : Fin n → List UInt8) (s : State n) : Prop := Failure args s ∨ Running args s

theorem step_inv (s : State n) (e : Event n) (t : State n) (inv : Inv args s) (h : step args s e = some t) :
    Inv args t ∧ t.ahead < s.ahead := by
  rcases inv with failure | running
  · have failed := failure.1
    cases e with
    | main => simp [step, stepMain, failed] at h
    | thread i => simp [step, State.ended, failed] at h
    | wake => simp [step, failed] at h
  · cases e with
    | main =>
      have proceeds := stepMain_proceeds h
      exact ⟨proceeds_running running proceeds, proceeds_falls running proceeds⟩
    | thread i =>
      change (if s.ended then none else stepThread s i) = some t at h
      split at h
      · cases h
      · have moves := stepThread_moves h
        exact ⟨.inr (moves_running running moves), moves_falls running moves⟩
    | wake =>
      change (if s.main = .waiting then some { s with main := .woken } else none) = some t at h
      split at h
      · rename_i waiting
        cases h
        refine ⟨.inr (running_woken running waiting), ahead_main rfl ?_⟩
        rw [waiting]
        exact Nat.lt_succ_self 1
      · cases h

/-! ### Where nothing is possible -/

/-- A thread that cannot go on has not been created, is done or waits for the mutex. -/
theorem stepThread_none (h : stepThread s i = none) :
    s.thread i = .absent ∨ s.thread i = .done ∨ s.thread i = .lock ∧ s.owner ≠ none := by
  unfold stepThread at h
  split at h
  case h_1 at_ => exact .inl at_
  case h_7 at_ => exact .inr (.inl at_)
  case h_2 at_ =>
    split at h
    · cases h
    · rename_i taken
      exact .inr (.inr ⟨at_, taken⟩)
  case h_3 | h_4 | h_5 | h_6 => cases h

/-- Where no thread can go on and `main` has not the mutex, nobody has. -/
theorem stuck_free (running : Running args s) (threads : ∀ i, stepThread s i = none)
    (outside : ¬ s.main.holds = true) : s.owner = none := by
  cases owner : s.owner with
  | none => rfl
  | some p =>
    have inside := (running.guards p).mp owner
    cases p with
    | main => exact absurd inside outside
    | thread i =>
      have holds : (s.thread i).holds = true := inside
      rcases stepThread_none (threads i) with at_ | at_ | ⟨at_, _⟩
      all_goals
        rw [at_] at holds
        cases holds

theorem stuck_ended (running : Running args s) (main : stepMain args s = none)
    (threads : ∀ i, stepThread s i = none) : s.main = .succeeded := by
  have course := running.course
  cases at_ : s.main with
  | succeeded => rfl
  | failed =>
    rw [at_] at course
    exact course.elim
  | usage | live | unlock => simp [stepMain, at_] at main
  | unjoined =>
    simp only [stepMain, at_] at main
    split at main <;> cases main
  | create k =>
    simp only [stepMain, at_] at main
    split at main <;> cases main
  | scan k =>
    simp only [stepMain, at_] at main
    split at main <;> cases main
  | lock =>
    have free := stuck_free running threads (by simp [at_, MainPc.holds])
    simp [stepMain, at_, free] at main
  | woken =>
    have free := stuck_free running threads (by simp [at_, MainPc.holds])
    simp [stepMain, at_, free] at main
  | waiting =>
    have free := stuck_free running threads (by simp [at_, MainPc.holds])
    rw [at_] at course
    obtain ⟨_, _, i, unfinished⟩ := course
    rcases stepThread_none (threads i) with absent | done | ⟨_, taken⟩
    · have early := (running.absent i).mp absent
      rw [at_] at early
      exact absurd i.isLt (Nat.not_lt.mpr early)
    · exact absurd done unfinished
    · exact absurd free taken
  | join i =>
    rw [at_] at course
    have phase := running.phase i
    rw [course.2.2.1] at phase
    rcases stepThread_none (threads i) with absent | done | ⟨waits, _⟩
    · rw [absent] at phase
      cases phase
    · simp [stepMain, join, at_, done] at main
    · rw [waits] at phase
      cases phase

theorem running_stuck (running : Running args s) (stuck : ∀ e, e ≠ .wake → step args s e = none) :
    s.main = .succeeded := by
  by_cases ended : s.ended
  · rcases ended with succeeded | failed
    · exact succeeded
    · have course := running.course
      rw [failed] at course
      exact course.elim
  · refine stuck_ended running (stuck .main (by simp)) fun i => ?_
    exact (if_neg ended).symm.trans (stuck (.thread i) (by simp))

theorem succeeded_stuck (succeeded : s.main = .succeeded) (e : Event n) (_ : e ≠ .wake) :
    step args s e = none := by
  cases e <;> simp [step, stepMain, State.ended, succeeded]

/-! ### The result -/

/-- At the end every thread has been joined, and what is printed counts down. -/
theorem succeeded_reaped (running : Running args s) (succeeded : s.main = .succeeded) :
    (s.reaped.map Prod.fst).Perm (List.finRange n) ∧
      s.reaped.map Prod.snd = (List.range n).map fun k : Nat => (n : Int) - 1 - k := by
  have course := running.course
  rw [succeeded] at course
  obtain ⟨⟨_, live⟩, _, none⟩ := course
  have bound := (reaped_le running).trans (incremented_le s.thread)
  have whole : s.reaped.length = n := by omega
  have all : (s.reaped.map Prod.fst).toFinset = Finset.univ := by
    apply Finset.eq_univ_of_card
    rw [← reaped_card running, whole, Fintype.card_fin]
  constructor
  · rw [List.perm_ext_iff_of_nodup running.printed.once (List.nodup_finRange n)]
    intro i
    rw [← List.mem_toFinset, all]
    simp
  · have countdown := running.printed.countdown
    rwa [whole] at countdown

/-- Every run ends, without a deadlock even if no wait ever ends by itself. The process then succeeds exactly if
the arguments are numbers and `main` has never called `pthread_cond_wait`, and it has joined every thread once. -/
theorem succeeds_iff_never_waits (args : Fin n → List UInt8) {events : List (Event n)} {s : State n}
    (run : events.foldlM (step args) (start n) = some s) :
    events.length ≤ n * (3 * n + 10) + 7 * n + 9 ∧
      ((∀ e, e ≠ .wake → step args s e = none) →
        (s.main = .succeeded ∨ s.main = .failed) ∧
        (s.main = .succeeded ↔ Accepted args ∧ s.waits = 0) ∧
        (s.main = .succeeded → (s.reaped.map Prod.fst).Perm (List.finRange n) ∧
          s.reaped.map Prod.snd = (List.range n).map fun k : Nat => (n : Int) - 1 - k)) := by
  obtain ⟨inv, few⟩ := run_falls (I := Inv args) (m := State.ahead) step_inv (.inr (running_start args)) run
  rw [ahead_start] at few
  refine ⟨(Nat.le_add_left _ _).trans few, fun stuck => ?_⟩
  rcases inv with ⟨failed, cause⟩ | running
  · refine ⟨.inr failed, iff_of_false ?_ ?_, ?_⟩
    · simp [failed]
    · rintro ⟨accepted, never⟩
      rcases cause with once | ⟨_, refused⟩
      · omega
      · exact refused accepted
    · simp [failed]
  · have succeeded : s.main = .succeeded := running_stuck running stuck
    have course := running.course
    rw [succeeded] at course
    exact ⟨.inl succeeded, iff_of_true succeeded ⟨course.1.1, course.2.1⟩,
      fun _ => succeeded_reaped running succeeded⟩

/-- Each thread is done before `main` takes the mutex, the second one for the first time. -/
theorem succeeds_iff_never_waits_sample : ∃ s : State 2, s.main = .succeeded ∧ s.waits = 0 ∧
    (s.reaped.map Prod.fst).Perm (List.finRange 2) := by
  obtain ⟨s, run, succeeded⟩ : ∃ s : State 2,
      ([.main, .main, .main, .main, .thread 1, .thread 1, .thread 1, .thread 1, .thread 1,
        .main, .main, .main, .main, .main, .main, .main, .main,
        .thread 0, .thread 0, .thread 0, .thread 0, .thread 0,
        .main, .main, .main, .main, .main, .main, .main, .main,
        .main] : List (Event 2)).foldlM (step fun _ => [49]) (start 2) = some s ∧
      s.main = .succeeded := ⟨_, rfl, rfl⟩
  obtain ⟨_, iff, joined⟩ := (succeeds_iff_never_waits _ run).2 (succeeded_stuck succeeded)
  exact ⟨s, succeeded, (iff.mp succeeded).2, (joined succeeded).1⟩

end Tlpi.ThreadMultijoin
