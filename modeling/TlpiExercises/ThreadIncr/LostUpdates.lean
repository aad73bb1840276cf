import TlpiExercises.ThreadIncr.Rounds

/-!
# Without the mutex

A thread that has stored once stores nothing below two again, and that is all there is: the two threads
can print every number from two on.
-/

namespace Tlpi.ThreadIncr

open Transitions

/-! ### What cannot be lost -/

section Bounds

variable {n : Nat} {p : Program n} {s t : State n} {i : Fin n}

structure Racy (s : State n) : Prop where
  unheld : ∀ i, (s.thread i).pc ≠ .unlock
  high : s.global ≤ ∑ i, (s.thread i).j
  one : ∀ i, min 1 (s.thread i).j ≤ s.global
  two : ∀ _ : Fin n, (∀ i, 2 ≤ (s.thread i).j) → 2 ≤ s.global
  loaded : ∀ i, (s.thread i).pc = .increment →
    min 1 (s.thread i).j ≤ (s.thread i).loc ∧ (s.thread i).loc ≤ ∑ i, (s.thread i).j
  incremented : ∀ i, (s.thread i).pc = .store →
    min 1 (s.thread i).j + 1 ≤ (s.thread i).loc ∧ (s.thread i).loc ≤ ∑ i, (s.thread i).j + 1

theorem racy_start (n : Nat) : Racy (start n) where
  unheld := nofun
  high := (Finset.sum_eq_zero fun _ _ => rfl).ge
  one := fun _ => Int.min_le_right 1 0
  two := fun i all => absurd (show (2 : Int) ≤ 0 from all i) (by decide)
  loaded := nofun
  incremented := nofun

theorem sum_rounds (s : State n) (i : Fin n) (thread : Thread) :
    ∑ j, ((s.set i thread).thread j).j + (s.thread i).j = ∑ j, (s.thread j).j + thread.j :=
  sum_update s.thread i thread Thread.j

/-- A statement within a round. -/
theorem racy_within (thread : Thread) (inv : Racy s) (same : thread.j = (s.thread i).j)
    (unheld : thread.pc ≠ .unlock)
    (loaded : thread.pc = .increment →
      min 1 (s.thread i).j ≤ thread.loc ∧ thread.loc ≤ ∑ i, (s.thread i).j)
    (incremented : thread.pc = .store →
      min 1 (s.thread i).j + 1 ≤ thread.loc ∧ thread.loc ≤ ∑ i, (s.thread i).j + 1) :
    Racy (s.set i thread) := by
  have sum : ∑ j, ((s.set i thread).thread j).j = ∑ j, (s.thread j).j := by
    have change := sum_rounds s i thread
    omega
  have rounds : ∀ j, ((s.set i thread).thread j).j = (s.thread j).j :=
    forall_set (q := fun j thread => thread.j = (s.thread j).j) same fun _ _ => rfl
  refine ⟨forall_set (q := fun _ thread => thread.pc ≠ .unlock) unheld fun j _ => inv.unheld j, ?_,
    fun j => ?_, fun j all => inv.two j fun k => ?_, ?_, ?_⟩
  · rw [sum]
    exact inv.high
  · rw [rounds j]
    exact inv.one j
  · rw [← rounds k]
    exact all k
  · rw [sum]
    refine forall_set (q := fun _ thread => thread.pc = .increment →
      min 1 thread.j ≤ thread.loc ∧ thread.loc ≤ ∑ i, (s.thread i).j) ?_ fun j _ => inv.loaded j
    rw [same]
    exact loaded
  · rw [sum]
    refine forall_set (q := fun _ thread => thread.pc = .store →
      min 1 thread.j + 1 ≤ thread.loc ∧ thread.loc ≤ ∑ i, (s.thread i).j + 1) ?_
      fun j _ => inv.incremented j
    rw [same]
    exact incremented

/-- The end of a round. Where every thread has two of them behind it, this one had one before. -/
theorem racy_store {thread : Thread} (inv : Racy s) (nonneg : ∀ i, 0 ≤ (s.thread i).j)
    (at_ : (s.thread i).pc = .store) (next : thread.pc = .test) (round : thread.j = (s.thread i).j + 1) :
    Racy { s.set i thread with global := (s.thread i).loc } := by
  obtain ⟨low, high⟩ := inv.incremented i at_
  have here := nonneg i
  have sum : ∑ j, ((s.set i thread).thread j).j = ∑ j, (s.thread j).j + 1 := by
    have change := sum_rounds s i thread
    omega
  refine ⟨forall_set (q := fun _ thread => thread.pc ≠ .unlock) ?_ fun j _ => inv.unheld j, ?_,
    fun j => ?_, fun j all => ?_, ?_, ?_⟩
  · rw [next]
    nofun
  · rw [sum]
    exact high
  · show _ ≤ (s.thread i).loc
    omega
  · have ours := all i
    rw [set_self, round] at ours
    show 2 ≤ (s.thread i).loc
    omega
  · rw [sum]
    refine forall_set (q := fun _ thread => thread.pc = .increment →
      min 1 thread.j ≤ thread.loc ∧ thread.loc ≤ ∑ i, (s.thread i).j + 1) ?_ fun j _ loaded => ?_
    · rw [next]
      nofun
    · have before := inv.loaded j loaded
      omega
  · rw [sum]
    refine forall_set (q := fun _ thread => thread.pc = .store →
      min 1 thread.j + 1 ≤ thread.loc ∧ thread.loc ≤ ∑ i, (s.thread i).j + 1 + 1) ?_
      fun j _ incremented => ?_
    · rw [next]
      nofun
    · have before := inv.incremented j incremented
      omega

/-- The next value is an `int`, as there is still a round to count. -/
theorem increment_fits (fits : ∑ i, (p.loops i).toNat ≤ INT_MAX.toNat) (inv : Inv p s)
    (within : (s.thread i).pc.within = true) : ∑ i, (s.thread i).j + 1 ≤ INT_MAX := by
  have fewer : ∑ i, (s.thread i).j < ∑ i, ((p.loops i).toNat : Int) := by
    refine Finset.sum_lt_sum (fun j _ => (inv.rounds j).bound) ⟨i, Finset.mem_univ i, ?_⟩
    have more := (inv.rounds i).within within
    omega
  have all : ∑ i, ((p.loops i).toNat : Int) ≤ INT_MAX := by
    rw [← Nat.cast_sum]
    have positive : 0 ≤ INT_MAX := by decide
    omega
  omega

theorem racy_thread (unlocked : p.locks = false) (fits : ∑ i, (p.loops i).toNat ≤ INT_MAX.toNat)
    (inv : Inv p s) (racy : Racy s) (h : stepThread p s i = some t) : Racy t := by
  obtain ⟨thread, global, owner, moves, rfl⟩ := stepThread_moves h
  cases moves with
  | enter at_ more =>
    have body : p.body = .load := if_neg (by rw [unlocked]; nofun)
    rw [body]
    exact { racy_within { s.thread i with pc := .load } racy rfl nofun nofun nofun with }
  | leave at_ _ =>
    exact { racy_within { s.thread i with pc := .returned } racy rfl nofun nofun nofun with }
  | lock at_ _ =>
    exact { racy_within { s.thread i with pc := .load } racy rfl nofun nofun nofun with }
  | load at_ =>
    have loaded := racy_within { s.thread i with pc := .increment, loc := s.global } racy rfl
      nofun (fun _ => ⟨racy.one i, racy.high⟩) nofun
    exact { loaded with }
  | increment at_ =>
    obtain ⟨low, high⟩ := racy.loaded i at_
    have room := increment_fits fits inv (by rw [at_]; rfl)
    have nonneg := (inv.rounds i).nonneg
    have exact_value : toInt ((s.thread i).loc + 1) = (s.thread i).loc + 1 :=
      toInt_of_nonneg (by omega) (by omega)
    rw [exact_value]
    have incremented := racy_within { s.thread i with pc := .store, loc := (s.thread i).loc + 1 } racy
      rfl nofun nofun
      (fun _ => ⟨Int.add_le_add_right low 1, Int.add_le_add_right high 1⟩)
    exact { incremented with }
  | store _ locks =>
    rw [unlocked] at locks
    cases locks
  | storeLast at_ _ => exact { racy_store racy (fun i => (inv.rounds i).nonneg) at_ rfl rfl with }
  | unlock at_ => exact absurd at_ (racy.unheld i)

theorem racy_main (racy : Racy s) (h : stepMain s = some t) : Racy t := by
  unfold stepMain at h
  split at h
  · rename_i k at_
    split at h
    · rename_i more
      cases h
      exact { racy_within { s.thread ⟨k, more⟩ with pc := .test } racy rfl nofun nofun nofun
        with }
    · cases h
      exact { racy with }
  · split at h
    · split at h
      · cases h
        exact { racy with }
      · cases h
    · cases h
      exact { racy with }
  · cases h

theorem racy_step (unlocked : p.locks = false) (fits : ∑ i, (p.loops i).toNat ≤ INT_MAX.toNat)
    (s : State n) (e : Event n) (t : State n)
    (both : Inv p s ∧ Racy s) (h : step p s e = some t) : Inv p t ∧ Racy t := by
  obtain ⟨inv, racy⟩ := both
  refine ⟨inv_step s e t inv h, ?_⟩
  cases e with
  | main => exact racy_main racy h
  | thread i =>
    rw [step] at h
    split at h
    · cases h
    · exact racy_thread unlocked fits inv racy h

end Bounds

/-! ### What can be lost -/

/-- The two threads of thread_incr_copy.c. -/
def racing (loops : Int) : Program 2 where
  locks := false
  loops := fun _ => loops

/-- Both threads run; `i` is the one that is named first. -/
def duo (i : Fin 2) (a b : Thread) (global : Int) : State 2 :=
  ⟨.join 0, fun j => if j = i then a else b, global, none, none⟩

section Race

variable {L : Int} {i : Fin 2} {a b : Thread} {j l g : Int}

theorem duo_turn (a b : Thread) (g : Int) : duo 0 a b g = duo 1 b a g := by
  unfold duo
  congr 1
  funext j
  fin_cases j <;> rfl

theorem duo_thread : (duo i a b g).thread i = a := if_pos rfl

theorem duo_set (thread : Thread) : (duo i a b g).set i thread = duo i thread b g := by
  unfold duo State.set
  congr 1
  funext j
  by_cases here : j = i
  · rw [here, Function.update_self, if_pos rfl]
  · rw [Function.update_of_ne here, if_neg here]
    exact if_neg here

theorem step_duo : step (racing L) (duo i a b g) (.thread i) =
    stepThread (racing L) (duo i a b g) i := by
  rw [step]
  exact if_neg (by simp [duo])

theorem duo_enter (more : j < L) : step (racing L) (duo i ⟨.test, j, l⟩ b g) (.thread i) =
    some (duo i ⟨.load, j, l⟩ b g) := by
  rw [step_duo, stepThread, duo_thread]
  show some ((duo i _ b g).set i _) = _
  rw [duo_set, duo_thread]
  have body : (racing L).body = .load := rfl
  rw [if_pos (show j < (racing L).loops i from more), body]

theorem duo_leave (enough : L ≤ j) : step (racing L) (duo i ⟨.test, j, l⟩ b g) (.thread i) =
    some (duo i ⟨.returned, j, l⟩ b g) := by
  rw [step_duo, stepThread, duo_thread]
  show some ((duo i _ b g).set i _) = _
  rw [duo_set, duo_thread, if_neg (show ¬ j < (racing L).loops i from Int.not_lt.mpr enough)]

theorem duo_load : step (racing L) (duo i ⟨.load, j, l⟩ b g) (.thread i) =
    some (duo i ⟨.increment, j, g⟩ b g) := by
  rw [step_duo, stepThread, duo_thread]
  show some ((duo i _ b g).set i _) = _
  rw [duo_set]
  rfl

theorem duo_increment (nonneg : 0 ≤ l) (high : l + 1 ≤ INT_MAX) :
    step (racing L) (duo i ⟨.increment, j, l⟩ b g) (.thread i) = some (duo i ⟨.store, j, l + 1⟩ b g) := by
  rw [step_duo, stepThread, duo_thread]
  show some ((duo i _ b g).set i _) = _
  rw [duo_set, toInt_of_nonneg (by omega) high]

theorem duo_store : step (racing L) (duo i ⟨.store, j, l⟩ b g) (.thread i) =
    some (duo i ⟨.test, j + 1, l⟩ b l) := by
  rw [step_duo, stepThread, duo_thread]
  show some ((duo i _ b l).set i _) = _
  rw [duo_set]
  show some (duo i { (duo i _ b l).thread i with pc := .test, j := ((duo i _ b l).thread i).j + 1 } b l) = _
  rw [duo_thread]

/-- The value that is about to be written comes from when it was loaded. -/
theorem leads_late_store {s : State 2} (leads : Leads (step (racing L)) s (duo i ⟨.increment, j, l⟩ b g))
    (nonneg : 0 ≤ l) (high : l + 1 ≤ INT_MAX) :
    Leads (step (racing L)) s (duo i ⟨.test, j + 1, l + 1⟩ b (l + 1)) :=
  leads_step (leads_step leads (duo_increment nonneg high)) duo_store

theorem leads_load {s : State 2} (leads : Leads (step (racing L)) s (duo i ⟨.test, j, l⟩ b g))
    (more : j < L) : Leads (step (racing L)) s (duo i ⟨.increment, j, g⟩ b g) :=
  leads_step (leads_step leads (duo_enter more)) duo_load

/-- Rounds of one thread while the other waits. -/
theorem leads_rounds {s : State 2} (leads : Leads (step (racing L)) s (duo i ⟨.test, j, l⟩ b g))
    (k : Nat) (more : j + k ≤ L) (nonneg : 0 ≤ g) (high : g + k ≤ INT_MAX) :
    ∃ l, Leads (step (racing L)) s (duo i ⟨.test, j + k, l⟩ b (g + k)) := by
  induction k with
  | zero =>
    refine ⟨l, ?_⟩
    rw [Nat.cast_zero, Int.add_zero, Int.add_zero]
    exact leads
  | succ k ih =>
    obtain ⟨l, before⟩ := ih (by omega) (by omega)
    refine ⟨g + k + 1, ?_⟩
    rw [Nat.cast_succ, ← Int.add_assoc, ← Int.add_assoc]
    exact leads_late_store (leads_load before (by omega)) (by omega) (by omega)

theorem leads_created : Leads (step (racing L)) (start 2) (duo 0 ⟨.test, 0, 0⟩ ⟨.test, 0, 0⟩ 0) := by
  have run : [.main, .main, .main].foldlM (step (racing L)) (start 2) =
      some (duo 0 ⟨.test, 0, 0⟩ ⟨.test, 0, 0⟩ 0) := by
    show some _ = some _
    congr 1
    unfold duo
    congr 1
    funext j
    fin_cases j <;> rfl
  exact leads_events run

/-- `main` joins both threads and prints. -/
theorem leads_printed {k l : Int} (all : L ≤ j)
    (leads : Leads (step (racing L)) (start 2) (duo 0 ⟨.test, j, k⟩ ⟨.test, j, l⟩ g)) :
    ∃ s, Leads (step (racing L)) (start 2) s ∧ s.printed = some g := by
  have first := leads_step leads (duo_leave all)
  rw [duo_turn] at first
  have both := leads_step first (duo_leave all)
  obtain ⟨s, joined, printed⟩ : ∃ s, [.main, .main, .main].foldlM (step (racing L))
      (duo 1 ⟨.returned, j, l⟩ ⟨.returned, j, k⟩ g) = some s ∧ s.printed = some g := ⟨_, rfl, rfl⟩
  exact ⟨s, both.trans (leads_events joined), printed⟩

/-- The first thread sleeps between its `load` and its `store` while the second makes all its rounds but
one, and the second does so over the last rounds of the first. -/
theorem reaches_value (loops : Nat) (all : (loops : Int) + 1 = L) (fits : 2 * L ≤ INT_MAX) (v : Nat)
    (bound : v ≤ 2 * loops) :
    ∃ s, Leads (step (racing L)) (start 2) s ∧ s.printed = some ((v : Int) + 2) := by
  obtain ⟨x, y, sum, xBound, yBound⟩ : ∃ x y : Nat, x + y = v ∧ x ≤ loops ∧ y ≤ loops :=
    ⟨min v loops, v - min v loops, by omega, by omega, by omega⟩
  have created : Leads (step (racing L)) (start 2) _ := leads_created
  obtain ⟨_, ahead⟩ := leads_rounds created x (by omega) (by omega) (by omega)
  rw [duo_turn] at ahead
  obtain ⟨_, ahead⟩ := leads_rounds ahead y (by omega) (by omega) (by omega)
  rw [← duo_turn] at ahead
  have asleep := leads_load ahead (by omega)
  rw [duo_turn] at asleep
  obtain ⟨_, asleep⟩ := leads_rounds asleep (loops - y) (by omega) (by omega) (by omega)
  rw [← duo_turn] at asleep
  have stored := leads_late_store asleep (by omega) (by omega)
  rw [duo_turn] at stored
  have again := leads_load stored (by omega)
  rw [← duo_turn] at again
  obtain ⟨_, again⟩ := leads_rounds again (loops - x) (by omega) (by omega) (by omega)
  rw [duo_turn] at again
  have last := leads_late_store again (by omega) (by omega)
  rw [← duo_turn] at last
  have firstRounds : 0 + (x : Int) + 1 + (loops - x : Nat) = L := by omega
  have secondRounds : 0 + (y : Int) + (loops - y : Nat) + 1 = L := by omega
  have value : 0 + (x : Int) + y + 1 + 1 = v + 2 := by omega
  rw [firstRounds, secondRounds, value] at last
  exact leads_printed (Int.le_refl L) last

/-- One round each, and both load nothing. -/
theorem reaches_one (one : L = 1) :
    ∃ s, Leads (step (racing L)) (start 2) s ∧ s.printed = some 1 := by
  have created : Leads (step (racing L)) (start 2) _ := leads_created
  have first := leads_load created (by omega)
  rw [duo_turn] at first
  have both := leads_late_store (leads_load first (by omega)) (by decide) (by decide)
  rw [← duo_turn] at both
  exact leads_printed (by omega) (leads_late_store both (by decide) (by decide))

/-- No round, or all rounds lost but those that no order of steps loses. -/
theorem reaches (fits : 2 * L.toNat ≤ INT_MAX.toNat) {v : Int} (low : min (L.toNat : Int) 2 ≤ v)
    (high : v ≤ 2 * L.toNat) :
    ∃ s, Leads (step (racing L)) (start 2) s ∧ s.printed = some v := by
  by_cases none : L ≤ 0
  · have value : v = 0 := by omega
    rw [value]
    exact leads_printed none leads_created
  · by_cases few : v = 1
    · rw [few]
      exact reaches_one (by omega)
    · obtain ⟨v, rfl⟩ : ∃ w : Nat, v = (w : Int) + 2 := ⟨(v - 2).toNat, by omega⟩
      have positive : 0 ≤ INT_MAX := by decide
      exact reaches_value (L - 1).toNat (by omega) (by omega) v (by omega)

end Race

/-- The numbers that thread_incr_copy.c can print are those from two, or from the number of rounds where
that is less, to all rounds. -/
theorem printed_values (loops : Int) (fits : 2 * loops.toNat ≤ INT_MAX.toNat) (v : Int) :
    (∃ s, Leads (step (racing loops)) (start 2) s ∧ s.printed = some v) ↔
      min (loops.toNat : Int) 2 ≤ v ∧ v ≤ 2 * loops.toNat := by
  constructor
  · rintro ⟨s, leads, printed⟩
    have sum : ∑ i, ((racing loops).loops i).toNat ≤ INT_MAX.toNat := by
      rw [Fin.sum_univ_two]
      show loops.toNat + loops.toNat ≤ _
      omega
    obtain ⟨inv, racy⟩ :=
      leads_invariant (racy_step rfl sum) leads ⟨inv_start (racing loops), racy_start 2⟩
    have at_ : s.main = .exited := by
      by_contra running
      rw [inv.unprinted running] at printed
      cases printed
    obtain ⟨returned, value⟩ := inv.exited at_
    rw [value] at printed
    cases printed
    have rounds (i : Fin 2) : (s.thread i).j = loops.toNat := (inv.rounds i).returned (returned i)
    have high := racy.high
    have one := racy.one 0
    have two := racy.two 0
    rw [Fin.sum_univ_two, rounds, rounds] at high
    rw [rounds] at one
    refine ⟨?_, by omega⟩
    by_cases more : 2 ≤ (loops.toNat : Int)
    · have low := two fun i => by
        rw [rounds i]
        exact more
      omega
    · omega
  · rintro ⟨low, high⟩
    exact reaches fits low high

/-- Without an argument all but two of two million increments can be lost. -/
theorem printed_values_default : ∃ s, Leads (step (racing 1000000)) (start 2) s ∧ s.printed = some 2 :=
  (printed_values 1000000 (by decide) 2).mpr (by decide)

end Tlpi.ThreadIncr
