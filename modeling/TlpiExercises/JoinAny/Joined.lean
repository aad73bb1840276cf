import TlpiExercises.JoinAny.Model
import Mathlib.Algebra.Order.BigOperators.Group.Finset

/-!
# Every thread is joined

`total_unjoined` counts the threads that have incremented it and have not been joined. When `main`
goes to sleep there are none, and a thread that signals later wakes it.
-/

namespace Tlpi.JoinAny

open Transitions

def ThreadPc.hasIncremented : ThreadPc → Bool
  | .absent | .lockMtx | .increment => false
  | .unlockMtx | .lockOwn | .setUnjoined | .unlockOwn | .signal | .done => true

def ThreadPc.hasSet : ThreadPc → Bool
  | .absent | .lockMtx | .increment | .unlockMtx | .lockOwn | .setUnjoined => false
  | .unlockOwn | .signal | .done => true

/-- What the place of a thread says of its `state` and of how often it was joined. -/
def Phase : ThreadPc → ThreadState → Nat → Prop
  | .absent, _, joins => joins = 0
  | .lockMtx, state, joins => state = .alive ∧ joins = 0
  | .increment, state, joins => state = .alive ∧ joins = 0
  | .unlockMtx, state, joins => state = .alive ∧ joins = 0
  | .lockOwn, state, joins => state = .alive ∧ joins = 0
  | .setUnjoined, state, joins => state = .alive ∧ joins = 0
  | .unlockOwn, state, joins => state = .unjoined ∧ joins = 0
  | .signal, state, joins => state = .unjoined ∧ joins = 0
  | .done, state, joins => state = .unjoined ∧ joins = 0 ∨ state = .joined ∧ joins = 1

def MainPc.created {n : Nat} : MainPc n → Nat
  | .create k => k
  | _ => n

/-- What one thread has added to `total_unjoined`. -/
def owed (pc : ThreadPc) (joins : Nat) : Int :=
  (if pc.hasIncremented then 1 else 0) - joins

structure Inv {n : Nat} (s : State n) : Prop where
  phase : ∀ i, Phase (s.thread i) (s.state i) (s.joins i)
  absent : s.main ≠ .exited → ∀ i : Fin n, s.thread i = .absent ↔ s.main.created ≤ i
  joining : ∀ i, s.main = .join i → s.state i = .unjoined
  total : s.totalUnjoined = ∑ i, owed (s.thread i) (s.joins i)
  joined : s.totalJoined = ∑ i, (s.joins i : Int)
  asleep : s.main = .waiting → ∀ i, s.thread i = .done → s.joins i = 1
  left : s.main = .left → s.totalJoined = n

section Phases

variable {pc : ThreadPc} {state : ThreadState} {joins : Nat}

theorem phase_le (phase : Phase pc state joins) : joins ≤ 1 := by
  cases pc <;> simp only [Phase] at phase <;> omega

theorem phase_set (phase : Phase pc state joins) (some : 0 < joins) : pc.hasSet := by
  cases pc <;> simp only [Phase] at phase <;> first | omega | trivial

theorem phase_owed (phase : Phase pc state joins) : 0 ≤ owed pc joins := by
  unfold owed
  cases pc <;> simp only [Phase] at phase <;> simp [ThreadPc.hasIncremented] <;> omega

theorem phase_unjoined (phase : Phase pc state joins) (set : state = .unjoined)
    (present : pc ≠ .absent) : joins = 0 := by
  subst set
  cases pc <;> simp [Phase] at phase present <;> exact phase

end Phases

variable {n : Nat} {s : State n}

theorem inv_start (memory : Fin n → ThreadState) : Inv (start memory) := by
  refine ⟨fun _ => rfl, fun created i => ?_, fun i at_ => ?_, ?_, ?_, fun at_ => ?_, fun at_ => ?_⟩
  · unfold start at created ⊢
    split at created
    · exact absurd rfl created
    · rename_i some
      simp [some, MainPc.created]
  all_goals
    unfold start at *
    dsimp only at *
    first
      | split at at_ <;> cases at_
      | simp [owed, ThreadPc.hasIncremented]

/-- `main` goes on. -/
theorem inv_main (inv : Inv s) {mtx : Option (Party n)} {own : Fin n → Option (Party n)}
    {main : MainPc n}
    (created : main ≠ .exited → s.main ≠ .exited ∧ ∀ i : Fin n,
      (main.created ≤ i ↔ s.main.created ≤ i))
    (joining : ∀ i, main = .join i → s.state i = .unjoined)
    (asleep : main = .waiting → ∀ i, s.thread i = .done → s.joins i = 1)
    (left : main = .left → s.totalJoined = n) :
    Inv { s with mtx := mtx, own := own, main := main } where
  phase := inv.phase
  absent running i := by
    obtain ⟨before, same⟩ := created running
    exact (inv.absent before i).trans (same i).symm
  joining := joining
  total := inv.total
  joined := inv.joined
  asleep := asleep
  left := left

/-- `main` goes on after it has created the threads. -/
theorem inv_loop (inv : Inv s) {mtx : Option (Party n)} {own : Fin n → Option (Party n)}
    {main before : MainPc n} (at_ : s.main = before) (running : before ≠ .exited)
    (created : before.created = n) (stays : main.created = n)
    (joining : ∀ i, main = .join i → s.state i = .unjoined)
    (asleep : main = .waiting → ∀ i, s.thread i = .done → s.joins i = 1)
    (left : main = .left → s.totalJoined = n) :
    Inv { s with mtx := mtx, own := own, main := main } := by
  refine inv_main inv (fun _ => ⟨?_, fun i => ?_⟩) joining asleep left
  · rw [at_]
    exact running
  · rw [stays, at_, created]

theorem inv_signal (inv : Inv s) : Inv s.signal := by
  unfold State.signal
  split
  · rename_i waiting
    exact inv_loop inv waiting nofun rfl rfl nofun nofun nofun
  · exact inv

/-- A thread goes on. -/
theorem inv_thread (inv : Inv s) {mtx : Option (Party n)} {own : Fin n → Option (Party n)}
    {total : Int} {state : Fin n → ThreadState} {i : Fin n} {pc : ThreadPc}
    (phase : Phase pc (state i) (s.joins i)) (others : ∀ j, j ≠ i → state j = s.state j)
    (present : s.thread i ≠ .absent) (stays : pc ≠ .absent)
    (keeps : s.state i = .unjoined → state i = .unjoined)
    (counted : total - owed pc (s.joins i) = s.totalUnjoined - owed (s.thread i) (s.joins i))
    (awake : s.main = .waiting → pc ≠ .done) :
    Inv { s with
      mtx := mtx
      own := own
      totalUnjoined := total
      state := state
      thread := Function.update s.thread i pc } := by
  have same_owed : ∀ j, j ≠ i → owed (Function.update s.thread i pc j) (s.joins j) =
      owed (s.thread j) (s.joins j) := fun j other => by rw [Function.update_of_ne other]
  have change := sum_change i same_owed
  rw [Function.update_self, ← inv.total] at change
  refine ⟨fun j => ?_, fun running j => ?_, fun j joining => ?_, ?_, inv.joined,
    fun waiting j done => ?_, inv.left⟩
  · show Phase (Function.update s.thread i pc j) (state j) (s.joins j)
    by_cases same : j = i
    · subst same
      rw [Function.update_self]
      exact phase
    · rw [Function.update_of_ne same, others j same]
      exact inv.phase j
  · show Function.update s.thread i pc j = .absent ↔ s.main.created ≤ j
    rw [← inv.absent running j]
    by_cases same : j = i
    · subst same
      simp [present, stays]
    · rw [Function.update_of_ne same]
  · show state j = .unjoined
    by_cases same : j = i
    · subst same
      exact keeps (inv.joining j joining)
    · rw [others j same]
      exact inv.joining j joining
  · show total = ∑ j, owed (Function.update s.thread i pc j) (s.joins j)
    omega
  · have done : Function.update s.thread i pc j = .done := done
    by_cases same : j = i
    · subst same
      rw [Function.update_self] at done
      exact absurd done (awake waiting)
    · rw [Function.update_of_ne same] at done
      exact inv.asleep waiting j done

theorem lockMtx_some {party : Party n} {t : State n} (h : s.lockMtx party = some t) :
    s.mtx = none ∧ t = { s with mtx := some party } := by
  unfold State.lockMtx at h
  split at h
  · exact ⟨‹_›, (Option.some.inj h).symm⟩
  · cases h

theorem lockOwn_some {i : Fin n} {party : Party n} {t : State n}
    (h : s.lockOwn i party = some t) : s.own i = none ∧ t = s.setOwn i (some party) := by
  unfold State.lockOwn at h
  split at h
  · exact ⟨‹_›, (Option.some.inj h).symm⟩
  · cases h

/-- A thread takes or leaves a mutex. -/
theorem inv_mutex (inv : Inv s) {mtx : Option (Party n)} {own : Fin n → Option (Party n)}
    {i : Fin n} {pc : ThreadPc} (phase : Phase pc (s.state i) (s.joins i))
    (present : s.thread i ≠ .absent) (stays : pc ≠ .absent) (busy : pc ≠ .done)
    (counted : pc.hasIncremented = (s.thread i).hasIncremented) :
    Inv { s with mtx := mtx, own := own, thread := Function.update s.thread i pc } := by
  have same : owed pc (s.joins i) = owed (s.thread i) (s.joins i) := by
    simp only [owed, counted]
  refine inv_thread inv phase (fun _ _ => rfl) present stays id ?_ fun _ => busy
  rw [same]

theorem inv_stepThread (inv : Inv s) {i : Fin n} {t : State n} (h : stepThread s i = some t) :
    Inv t := by
  have phase := inv.phase i
  have present : s.thread i ≠ .absent := by
    intro absent
    rw [stepThread, absent] at h
    cases h
  unfold stepThread at h
  cases pc : s.thread i with
  | absent => exact absurd pc present
  | done =>
    rw [pc] at h
    cases h
  | lockMtx =>
    rw [pc] at h phase
    obtain ⟨u, locked, rfl⟩ := Option.map_eq_some_iff.mp h
    obtain ⟨_, rfl⟩ := lockMtx_some locked
    exact inv_mutex inv phase present nofun nofun (by rw [pc]; rfl)
  | increment =>
    rw [pc] at h phase
    cases h
    refine inv_thread inv phase (fun _ _ => rfl) present nofun id ?_ fun _ => nofun
    rw [pc]
    simp only [owed, ThreadPc.hasIncremented, reduceIte, Bool.false_eq_true]
    omega
  | unlockMtx =>
    rw [pc] at h phase
    cases h
    exact inv_mutex inv phase present nofun nofun (by rw [pc]; rfl)
  | lockOwn =>
    rw [pc] at h phase
    obtain ⟨u, locked, rfl⟩ := Option.map_eq_some_iff.mp h
    obtain ⟨_, rfl⟩ := lockOwn_some locked
    exact inv_mutex inv phase present nofun nofun (by rw [pc]; rfl)
  | setUnjoined =>
    rw [pc] at h phase
    cases h
    refine inv_thread inv ⟨Function.update_self .., phase.2⟩
      (fun j other => Function.update_of_ne other ..) present nofun
      (fun _ => Function.update_self ..) ?_ fun _ => nofun
    rw [pc]
    rfl
  | unlockOwn =>
    rw [pc] at h phase
    cases h
    exact inv_mutex inv phase present nofun nofun (by rw [pc]; rfl)
  | signal =>
    rw [pc] at h phase
    cases h
    have counted : owed .done (s.joins i) = owed (s.thread i) (s.joins i) := by
      rw [pc]
      rfl
    have woken := inv_signal inv
    unfold State.signal at woken ⊢
    by_cases waiting : s.main = .waiting
    · rw [if_pos waiting] at woken ⊢
      refine inv_thread woken (Or.inl phase) (fun _ _ => rfl) present nofun id ?_ nofun
      rw [counted]
    · rw [if_neg waiting] at woken ⊢
      refine inv_thread woken (Or.inl phase) (fun _ _ => rfl) present nofun id ?_
        fun asleep => absurd asleep waiting
      rw [counted]

/-- The only step that takes a count back. -/
theorem inv_join (inv : Inv s) {i : Fin n} (at_ : s.main = .join i) {t : State n}
    (h : join s i = some t) : Inv t := by
  unfold join at h
  split at h
  · rename_i done
    cases h
    have unjoined := inv.joining i at_
    have never : s.joins i = 0 := phase_unjoined (inv.phase i) unjoined (by rw [done]; nofun)
    have running : s.main ≠ .exited := by
      rw [at_]
      nofun
    have all_created : s.main.created = n := by
      rw [at_]
      rfl
    have same_owed : ∀ j, j ≠ i →
        owed (s.thread j) (Function.update s.joins i (s.joins i + 1) j) =
          owed (s.thread j) (s.joins j) := fun j other => by rw [Function.update_of_ne other]
    have same_joins : ∀ j, j ≠ i → (Function.update s.joins i (s.joins i + 1) j : Int) =
        s.joins j := fun j other => by rw [Function.update_of_ne other]
    have owing := sum_change i same_owed
    have joining := sum_change i same_joins
    rw [Function.update_self, ← inv.total] at owing
    rw [Function.update_self, ← inv.joined] at joining
    refine ⟨fun j => ?_, fun _ j => ?_, nofun, ?_, ?_, nofun, nofun⟩
    · show Phase (s.thread j) (Function.update s.state i .joined j)
        (Function.update s.joins i (s.joins i + 1) j)
      by_cases same : j = i
      · subst same
        rw [Function.update_self, Function.update_self, done, never]
        exact Or.inr ⟨rfl, rfl⟩
      · rw [Function.update_of_ne same, Function.update_of_ne same]
        exact inv.phase j
    · have before := inv.absent running j
      rw [all_created] at before
      exact before
    · show s.totalUnjoined - 1 = ∑ j, owed (s.thread j)
        (Function.update s.joins i (s.joins i + 1) j)
      simp only [owed] at owing ⊢
      omega
    · show s.totalJoined + 1 = ∑ j, (Function.update s.joins i (s.joins i + 1) j : Int)
      omega
  · cases h

theorem inv_create {args : Fin n → List UInt8} (inv : Inv s) {i : Fin n}
    (at_ : s.main = .create i) : Inv (create args s i) := by
  have running : s.main ≠ .exited := by
    rw [at_]
    nofun
  have absent : s.thread i = .absent := by
    rw [inv.absent running i, at_]
    exact Nat.le_refl _
  have never : s.joins i = 0 := by
    have phase := inv.phase i
    rw [absent] at phase
    exact phase
  unfold create
  cases Utils.getNum (args i) with
  | none =>
    refine ⟨fun j => ?_, absurd rfl, nofun, inv.total, inv.joined, nofun, nofun⟩
    show Phase (s.thread j) (Function.update s.state i .alive j) (s.joins j)
    by_cases same : j = i
    · subst same
      rw [absent]
      exact never
    · rw [Function.update_of_ne same]
      exact inv.phase j
  | some _ =>
    have same_owed : ∀ j, owed (Function.update s.thread i .lockMtx j) (s.joins j) =
        owed (s.thread j) (s.joins j) := by
      intro j
      by_cases same : j = i
      · subst same
        rw [Function.update_self, absent]
        rfl
      · rw [Function.update_of_ne same]
    refine ⟨fun j => ?_, fun _ j => ?_, nofun, ?_, inv.joined, nofun, nofun⟩
    · show Phase (Function.update s.thread i .lockMtx j) (Function.update s.state i .alive j)
        (s.joins j)
      by_cases same : j = i
      · subst same
        rw [Function.update_self, Function.update_self]
        exact ⟨rfl, never⟩
      · rw [Function.update_of_ne same, Function.update_of_ne same]
        exact inv.phase j
    · have before := inv.absent running j
      rw [at_] at before
      show Function.update s.thread i .lockMtx j = .absent ↔ i.val + 1 ≤ j.val
      by_cases same : j = i
      · subst same
        simp
      · rw [Function.update_of_ne same, before]
        show i.val ≤ j.val ↔ i.val + 1 ≤ j.val
        have different : j.val ≠ i.val := fun eq => same (Fin.ext eq)
        omega
    · show s.totalUnjoined = ∑ j, owed (Function.update s.thread i .lockMtx j) (s.joins j)
      rw [inv.total]
      exact Finset.sum_congr rfl fun j _ => (same_owed j).symm

/-- Where nothing is owed, every thread that has signalled was joined. -/
theorem joined_of_zero (inv : Inv s) (zero : s.totalUnjoined = 0) {i : Fin n}
    (done : s.thread i = .done) : s.joins i = 1 := by
  have none_owed := (Finset.sum_eq_zero_iff_of_nonneg fun j _ => phase_owed (inv.phase j)).mp
    (inv.total.symm.trans zero) i (Finset.mem_univ i)
  rw [done] at none_owed
  simp only [owed, ThreadPc.hasIncremented, reduceIte] at none_owed
  omega

theorem inv_createNext {args : Fin n → List UInt8} (inv : Inv s) {t : State n} {k : Nat}
    (pc : s.main = .create k) (h : stepMain args s = some t) : Inv t := by
  simp only [stepMain, pc] at h
  split at h
  · rename_i inside
    cases h
    exact inv_create (i := ⟨k, inside⟩) inv pc
  · cases h
    refine inv_main inv (fun _ => ⟨by rw [pc]; nofun, fun i => ?_⟩) nofun nofun nofun
    rw [pc]
    show n ≤ i.val ↔ k ≤ i.val
    omega

theorem inv_testUnjoined {args : Fin n → List UInt8} (inv : Inv s) {t : State n}
    (pc : s.main = .testUnjoined) (h : stepMain args s = some t) : Inv t := by
  simp only [stepMain, pc] at h
  split at h
  · rename_i zero
    cases h
    exact inv_loop inv pc nofun rfl rfl nofun
      (fun _ i done => joined_of_zero inv zero done) nofun
  · cases h
    exact inv_loop inv pc nofun rfl rfl nofun nofun nofun

theorem inv_scan {args : Fin n → List UInt8} (inv : Inv s) {t : State n} {k : Nat}
    (pc : s.main = .scan k) (h : stepMain args s = some t) : Inv t := by
  simp only [stepMain, pc] at h
  split at h
  · obtain ⟨u, locked, rfl⟩ := Option.map_eq_some_iff.mp h
    obtain ⟨_, rfl⟩ := lockOwn_some locked
    exact inv_loop inv pc nofun rfl rfl nofun nofun nofun
  · cases h
    exact inv_loop inv pc nofun rfl rfl nofun nofun nofun

theorem inv_testState {args : Fin n → List UInt8} (inv : Inv s) {t : State n} {i : Fin n}
    (pc : s.main = .testState i) (h : stepMain args s = some t) : Inv t := by
  simp only [stepMain, pc] at h
  split at h
  · rename_i unjoined
    cases h
    refine inv_loop inv pc nofun rfl rfl (fun j at_ => ?_) nofun nofun
    cases at_
    exact unjoined
  · cases h
    exact inv_loop inv pc nofun rfl rfl nofun nofun nofun

theorem inv_testJoined {args : Fin n → List UInt8} (inv : Inv s) {t : State n}
    (pc : s.main = .testJoined) (h : stepMain args s = some t) : Inv t := by
  simp only [stepMain, pc] at h
  split at h
  · rename_i all
    cases h
    exact inv_loop inv pc nofun rfl rfl nofun nofun fun _ => all
  · cases h
    exact inv_loop inv pc nofun rfl rfl nofun nofun nofun

theorem inv_stepMain {args : Fin n → List UInt8} (inv : Inv s) {t : State n}
    (h : stepMain args s = some t) : Inv t := by
  unfold stepMain at h
  cases pc : s.main with
  | create k => exact inv_createNext inv pc h
  | lockMtx | woken =>
    rw [pc] at h
    obtain ⟨u, locked, rfl⟩ := Option.map_eq_some_iff.mp h
    obtain ⟨_, rfl⟩ := lockMtx_some locked
    exact inv_loop inv pc nofun rfl rfl nofun nofun nofun
  | testUnjoined => exact inv_testUnjoined inv pc h
  | scan k => exact inv_scan inv pc h
  | testState i => exact inv_testState inv pc h
  | join i =>
    rw [pc] at h
    exact inv_join inv pc h
  | unlockOwn i | unlockMtx =>
    rw [pc] at h
    cases h
    exact inv_loop inv pc nofun rfl rfl nofun nofun nofun
  | testJoined => exact inv_testJoined inv pc h
  | waiting | left | exited =>
    rw [pc] at h
    cases h

theorem inv_step {args : Fin n → List UInt8} (s : State n) (e : Event n) (t : State n)
    (inv : Inv s) (h : step args s e = some t) : Inv t := by
  unfold step at h
  split at h
  · cases h
  · cases e with
    | main => exact inv_stepMain inv h
    | thread i => exact inv_stepThread inv h
    | wake =>
      dsimp only at h
      split at h
      · cases h
        exact inv_signal inv
      · cases h

section Reached

variable {args : Fin n → List UInt8} {memory : Fin n → ThreadState}
  (reached : Leads (step args) (start memory) s)
include reached

theorem reached_inv : Inv s := leads_invariant inv_step reached (inv_start memory)

theorem reached_count : s.totalUnjoined =
    (Finset.univ.filter fun i => (s.thread i).hasIncremented).card -
      (Finset.univ.filter fun i => 0 < s.joins i).card := by
  have inv := reached_inv reached
  have one : ∀ i, (s.joins i : Int) = if 0 < s.joins i then 1 else 0 := by
    intro i
    have le := phase_le (inv.phase i)
    split <;> omega
  have joined : ∑ i, (s.joins i : Int) = (Finset.univ.filter fun i => 0 < s.joins i).card := by
    rw [Finset.sum_congr rfl fun i _ => one i, Finset.sum_boole]
  have incremented : ∑ i, (if (s.thread i).hasIncremented then 1 else 0 : Int) =
      (Finset.univ.filter fun i => (s.thread i).hasIncremented).card := by
    rw [Finset.sum_boole]
  rw [inv.total, ← joined, ← incremented, ← Finset.sum_sub_distrib]
  rfl

theorem reached_all_joined (left : s.main = .left) (i : Fin n) : s.joins i = 1 := by
  have inv := reached_inv reached
  have total : ∑ i, (s.joins i : Int) = ∑ _i : Fin n, (1 : Int) := by
    rw [← inv.joined, inv.left left, Finset.sum_const, Finset.card_univ, Fintype.card_fin,
      nsmul_eq_mul, mul_one]
  have le : ∀ j ∈ Finset.univ, (s.joins j : Int) ≤ 1 := by
    intro j _
    exact_mod_cast phase_le (inv.phase j)
  exact_mod_cast (Finset.sum_eq_sum_iff_of_le le).mp total i (Finset.mem_univ i)

/-- However the threads are scheduled, each is joined once, after it has set its state, `main`
leaves its loop when all of them are, and it does not sleep while one of them has signalled and
waits to be joined. -/
theorem joins_each_once :
    (∀ i, s.joins i ≤ 1 ∧ (0 < s.joins i → (s.thread i).hasSet)) ∧
    0 ≤ s.totalUnjoined ∧
    s.totalUnjoined = (Finset.univ.filter fun i => (s.thread i).hasIncremented).card -
      (Finset.univ.filter fun i => 0 < s.joins i).card ∧
    (s.main = .left → ∀ i, s.joins i = 1) ∧
    ¬ (s.main = .waiting ∧ ∃ i, s.thread i = .done ∧ s.joins i = 0) := by
  have inv := reached_inv reached
  refine ⟨fun i => ⟨phase_le (inv.phase i), phase_set (inv.phase i)⟩, ?_, reached_count reached,
    reached_all_joined reached, ?_⟩
  · rw [inv.total]
    exact Finset.sum_nonneg fun i _ => phase_owed (inv.phase i)
  · rintro ⟨waiting, i, done, never⟩
    have once := inv.asleep waiting i done
    omega

end Reached

/-- `main` sleeps twice, and is woken by the second thread and then by the first one. -/
theorem joins_each_once_sample : ∃ s : State 2, s.main = .left ∧ ∀ i, s.joins i = 1 := by
  obtain ⟨s, run, left⟩ : ∃ s : State 2,
      ([.main, .main, .main, .main, .main,
        .thread 1, .thread 1, .thread 1, .thread 1, .thread 1, .thread 1, .thread 1,
        .main, .main, .main, .main, .main, .main, .main, .main, .main, .main, .main, .main, .main, .main,
        .thread 0, .thread 0, .thread 0, .thread 0, .thread 0, .thread 0, .thread 0,
        .main, .main, .main, .main, .main, .main, .main, .main, .main, .main, .main,
        .main] : List (Event 2)).foldlM (step fun _ => [49]) (start fun _ => .alive) = some s ∧
      s.main = .left := ⟨_, rfl, rfl⟩
  exact ⟨s, left, (joins_each_once (leads_events run)).2.2.2.1 left⟩

end Tlpi.JoinAny
