import Mathlib.Algebra.Order.BigOperators.Group.Finset
import TlpiExercises.Library.Mutex
import TlpiExercises.ThreadIncr.Rounds

/-!
# With the mutex

Between its `load` and its `store` a thread is alone, so that every round counts, in an `int`.
-/

namespace Tlpi.ThreadIncr

open Transitions

/-- It holds the mutex. -/
def Pc.inside : Pc → Bool
  | .load | .increment | .store | .unlock => true
  | .absent | .test | .lock | .returned => false

/-- The rounds that count in `global`. -/
def Thread.writes (thread : Thread) : Int := thread.j + if thread.pc = .unlock then 1 else 0

structure Counted (s : State n) : Prop where
  guards : Mutex.Guards s.owner fun i => (s.thread i).pc.inside = true
  loaded : ∀ i, (s.thread i).pc = .increment → (s.thread i).loc = s.global
  incremented : ∀ i, (s.thread i).pc = .store → (s.thread i).loc = toInt (s.global + 1)
  total : s.global = toInt (∑ i, (s.thread i).writes)

theorem counted_start (n : Nat) : Counted (start n) where
  guards := fun _ => iff_of_false nofun nofun
  loaded := nofun
  incremented := nofun
  total := by
    have none : ∑ i, ((start n).thread i).writes = 0 := Finset.sum_eq_zero fun _ _ => rfl
    rw [none]
    rfl

variable {n : Nat} {p : Program n} {s t : State n} {i : Fin n}

theorem sum_writes (s : State n) (i : Fin n) (thread : Thread) :
    ∑ j, ((s.set i thread).thread j).writes + (s.thread i).writes =
      ∑ j, (s.thread j).writes + thread.writes :=
  sum_update s.thread i thread Thread.writes

theorem set_inside {thread : Thread} (j : Fin n) (other : j ≠ i) :
    ((s.set i thread).thread j).pc.inside = true ↔ (s.thread j).pc.inside = true := by
  rw [set_of_ne s other]

/-- A step outside the critical section. -/
theorem counted_outside (inv : Counted s) (thread : Thread)
    (outside : (s.thread i).pc.inside = false) (stays : thread.pc.inside = false)
    (same : thread.writes = (s.thread i).writes) : Counted (s.set i thread) := by
  have change := sum_writes s i thread
  refine ⟨Mutex.guards_same inv.guards fun j => ?_, ?_, ?_, ?_⟩
  · by_cases here : j = i
    · subst here
      rw [set_self, outside, stays]
    · exact set_inside j here
  · refine forall_set (q := fun _ thread => thread.pc = .increment → thread.loc = s.global) (fun at_ => ?_)
      fun j _ => inv.loaded j
    rw [at_] at stays
    cases stays
  · refine forall_set (q := fun _ thread => thread.pc = .store → thread.loc = toInt (s.global + 1))
      (fun at_ => ?_) fun j _ => inv.incremented j
    rw [at_] at stays
    cases stays
  · have sum : ∑ j, ((s.set i thread).thread j).writes = ∑ j, (s.thread j).writes := by omega
    rw [sum]
    exact inv.total

/-- A step inside the critical section, in which no other thread is. -/
theorem counted_inside (inv : Counted s) {thread : Thread} {global : Int}
    (inside : (s.thread i).pc.inside = true) (stays : thread.pc.inside = true)
    (loaded : thread.pc = .increment → thread.loc = global)
    (incremented : thread.pc = .store → thread.loc = toInt (global + 1))
    (counts : global = toInt (s.global + (thread.writes - (s.thread i).writes))) :
    Counted { s.set i thread with global := global } := by
  have change := sum_writes s i thread
  have alone (j : Fin n) (other : j ≠ i) : (s.thread j).pc.inside = false := by
    by_contra there
    rw [Bool.not_eq_false] at there
    exact other (Mutex.guards_exclusive inv.guards there inside)
  refine ⟨Mutex.guards_same inv.guards fun j => ?_, ?_, ?_, ?_⟩
  · by_cases here : j = i
    · subst here
      show ((s.set j thread).thread j).pc.inside = true ↔ _
      rw [set_self, inside, stays]
    · exact set_inside j here
  · refine forall_set (q := fun _ thread => thread.pc = .increment → thread.loc = global) loaded
      fun j other at_ => ?_
    have outside := alone j other
    rw [at_] at outside
    cases outside
  · refine forall_set (q := fun _ thread => thread.pc = .store → thread.loc = toInt (global + 1))
      incremented fun j other at_ => ?_
    have outside := alone j other
    rw [at_] at outside
    cases outside
  · have sum : ∑ j, (s.thread j).writes + (thread.writes - (s.thread i).writes) =
        ∑ j, ((s.set i thread).thread j).writes := by omega
    rw [inv.total, toInt_add, sum] at counts
    exact counts

/-- A step after which `global` counts the same rounds. -/
theorem counts_same (inv : Counted s) {thread : Thread} (same : thread.writes = (s.thread i).writes) :
    s.global = toInt (s.global + (thread.writes - (s.thread i).writes)) := by
  rw [same, Int.sub_self, Int.add_zero, inv.total, toInt_toInt]

theorem counted_lock (inv : Counted s) (free : s.owner = none) (at_ : (s.thread i).pc = .lock) :
    Counted { s.set i { s.thread i with pc := .load } with owner := some i } := by
  have change := sum_writes s i { s.thread i with pc := .load }
  have guards := inv.guards
  rw [free] at guards
  have before : (s.thread i).writes = (s.thread i).j + 0 := by
    rw [Thread.writes, at_]
    rfl
  refine ⟨Mutex.guards_take guards ?_ fun j other => set_inside j other, ?_, ?_, ?_⟩
  · show ((s.set i { s.thread i with pc := .load }).thread i).pc.inside = true
    rw [set_self]
    rfl
  · exact forall_set (q := fun _ thread => thread.pc = .increment → thread.loc = s.global) nofun
      fun j _ => inv.loaded j
  · exact forall_set (q := fun _ thread => thread.pc = .store → thread.loc = toInt (s.global + 1)) nofun
      fun j _ => inv.incremented j
  · have after : Thread.writes { s.thread i with pc := .load } = (s.thread i).j + 0 := rfl
    have sum : ∑ j, ((s.set i { s.thread i with pc := .load }).thread j).writes =
        ∑ j, (s.thread j).writes := by omega
    show s.global = toInt (∑ j, ((s.set i { s.thread i with pc := .load }).thread j).writes)
    rw [sum]
    exact inv.total

theorem counted_unlock (inv : Counted s) (at_ : (s.thread i).pc = .unlock) :
    Counted { s.set i { s.thread i with pc := .test, j := (s.thread i).j + 1 } with owner := none } := by
  have change := sum_writes s i { s.thread i with pc := .test, j := (s.thread i).j + 1 }
  have inside : (s.thread i).pc.inside = true := by rw [at_]; rfl
  have before : (s.thread i).writes = (s.thread i).j + 1 := by
    rw [Thread.writes, at_]
    rfl
  refine ⟨Mutex.guards_leave inv.guards inside ?_ fun j other => set_inside j other, ?_, ?_, ?_⟩
  · show ¬ ((s.set i { s.thread i with pc := .test, j := (s.thread i).j + 1 }).thread i).pc.inside = true
    rw [set_self]
    nofun
  · exact forall_set (q := fun _ thread => thread.pc = .increment → thread.loc = s.global) nofun
      fun j _ => inv.loaded j
  · exact forall_set (q := fun _ thread => thread.pc = .store → thread.loc = toInt (s.global + 1)) nofun
      fun j _ => inv.incremented j
  · have after : Thread.writes { s.thread i with pc := .test, j := (s.thread i).j + 1 } =
      (s.thread i).j + 1 + 0 := rfl
    have sum : ∑ j, ((s.set i { s.thread i with pc := .test, j := (s.thread i).j + 1 }).thread j).writes =
        ∑ j, (s.thread j).writes := by omega
    show s.global =
      toInt (∑ j, ((s.set i { s.thread i with pc := .test, j := (s.thread i).j + 1 }).thread j).writes)
    rw [sum]
    exact inv.total

theorem counted_thread (locks : p.locks = true) (inv : Counted s) (h : stepThread p s i = some t) :
    Counted t := by
  obtain ⟨thread, global, owner, moves, rfl⟩ := stepThread_moves h
  cases moves with
  | enter at_ more =>
    have body : p.body = .lock := if_pos locks
    refine counted_outside inv _ (by rw [at_]; rfl) (by rw [body]; rfl) ?_
    rw [Thread.writes, Thread.writes, at_, body]
    rfl
  | leave at_ enough =>
    refine counted_outside inv _ (by rw [at_]; rfl) rfl ?_
    rw [Thread.writes, Thread.writes, at_]
    rfl
  | lock at_ free => exact counted_lock inv free at_
  | load at_ =>
    refine counted_inside inv (by rw [at_]; rfl) rfl (fun _ => rfl) nofun (counts_same inv ?_)
    rw [Thread.writes, Thread.writes, at_]
    rfl
  | increment at_ =>
    refine counted_inside inv (by rw [at_]; rfl) rfl nofun (fun _ => ?_) (counts_same inv ?_)
    · exact congrArg (fun loc => toInt (loc + 1)) (inv.loaded i at_)
    · rw [Thread.writes, Thread.writes, at_]
      rfl
  | store at_ _ =>
    refine counted_inside inv (by rw [at_]; rfl) rfl nofun nofun ?_
    have one : (s.thread i).j + 1 - ((s.thread i).j + 0) = 1 := by omega
    rw [Thread.writes, Thread.writes, at_, inv.incremented i at_]
    exact congrArg (fun d => toInt (s.global + d)) one.symm
  | storeLast _ none =>
    rw [locks] at none
    cases none
  | unlock at_ => exact counted_unlock inv at_

theorem counted_main (inv : Inv p s) (counted : Counted s) (h : stepMain s = some t) : Counted t := by
  unfold stepMain at h
  split at h
  · rename_i k at_
    split at h
    · rename_i more
      cases h
      have fresh := ((inv.created k at_).2 ⟨k, more⟩).mpr (Nat.le_refl k)
      have same : Thread.writes { s.thread ⟨k, more⟩ with pc := .test } =
          (s.thread ⟨k, more⟩).writes := by
        rw [Thread.writes, Thread.writes, fresh]
        rfl
      exact { counted_outside counted { s.thread ⟨k, more⟩ with pc := .test } (by rw [fresh]; rfl) rfl same
        with }
    · cases h
      exact { counted with }
  · split at h
    · split at h
      · cases h
        exact { counted with }
      · cases h
    · cases h
      exact { counted with }
  · cases h

/-! ### Every run ends -/

def Pc.made : Pc → Nat
  | .absent | .test => 0
  | .lock | .returned => 1
  | .load => 2
  | .increment => 3
  | .store => 4
  | .unlock => 5

def MainPc.made : MainPc → Nat → Nat
  | .create k, _ => k
  | .join k, n => n + 1 + k
  | .exited, n => 2 * n + 2

/-- The statements that a thread has made. -/
def Thread.made (thread : Thread) : Nat := 6 * thread.j.toNat + thread.pc.made

def State.made (s : State n) : Nat := ∑ i, (s.thread i).made + s.main.made n

theorem made_set (s : State n) (i : Fin n) (thread : Thread) :
    ∑ j, ((s.set i thread).thread j).made + (s.thread i).made = ∑ j, (s.thread j).made + thread.made :=
  sum_update s.thread i thread Thread.made

theorem made_thread (locks : p.locks = true) (inv : Inv p s) (h : stepThread p s i = some t) :
    t.made = s.made + 1 := by
  obtain ⟨thread, global, owner, moves, rfl⟩ := stepThread_moves h
  have nonneg := (inv.rounds i).nonneg
  have change := made_set s i thread
  have one : thread.made = (s.thread i).made + 1 := by
    unfold Thread.made
    cases moves with
    | enter at_ more =>
      have body : p.body = .lock := if_pos locks
      rw [at_, body]
      rfl
    | leave at_ _ | lock at_ _ | load at_ | increment at_ | store at_ _ =>
      rw [at_]
      rfl
    | storeLast _ none =>
      rw [locks] at none
      cases none
    | unlock at_ =>
      rw [at_]
      show 6 * ((s.thread i).j + 1).toNat + 0 = 6 * (s.thread i).j.toNat + 5 + 1
      omega
  show ∑ j, ((s.set i thread).thread j).made + s.main.made n = s.made + 1
  unfold State.made
  omega

theorem made_main (inv : Inv p s) (h : stepMain s = some t) : t.made = s.made + 1 := by
  unfold stepMain at h
  unfold State.made
  split at h
  · rename_i k at_
    split at h
    · rename_i more
      cases h
      have fresh := ((inv.created k at_).2 ⟨k, more⟩).mpr (Nat.le_refl k)
      have change := made_set s ⟨k, more⟩ { s.thread ⟨k, more⟩ with pc := .test }
      have same : Thread.made { s.thread ⟨k, more⟩ with pc := .test } = (s.thread ⟨k, more⟩).made := by
        rw [Thread.made, Thread.made, fresh]
        rfl
      rw [at_]
      show ∑ j, ((s.set ⟨k, more⟩ { s.thread ⟨k, more⟩ with pc := .test }).thread j).made + (k + 1) =
        ∑ j, (s.thread j).made + k + 1
      omega
    · rename_i all
      cases h
      have bound := (inv.created k at_).1
      rw [at_]
      show ∑ i, (s.thread i).made + (n + 1 + 0) = ∑ i, (s.thread i).made + k + 1
      omega
  · rename_i k at_
    split at h
    · split at h
      · cases h
        rw [at_]
        rfl
      · cases h
    · rename_i all
      cases h
      have bound := (inv.joined k at_).1
      rw [at_]
      show ∑ i, (s.thread i).made + (2 * n + 2) = ∑ i, (s.thread i).made + (n + 1 + k) + 1
      omega
  · cases h

theorem made_le {loops : Int} {thread : Thread} (rounds : Rounds loops thread) :
    thread.made ≤ 6 * loops.toNat + 1 := by
  have nonneg := rounds.nonneg
  have bound := rounds.bound
  have within := rounds.within
  unfold Thread.made
  cases at_ : thread.pc with
  | absent | test | returned =>
    simp only [Pc.made]
    omega
  | lock | load | increment | store | unlock =>
    have more := within (by rw [at_]; rfl)
    simp only [Pc.made]
    omega

theorem made_main_le (inv : Inv p s) : s.main.made n ≤ 2 * n + 2 := by
  cases at_ : s.main with
  | create k =>
    have bound := (inv.created k at_).1
    simp only [MainPc.made]
    omega
  | join k =>
    have bound := (inv.joined k at_).1
    simp only [MainPc.made]
    omega
  | exited => exact Nat.le_refl _

/-! ### Where no step is possible -/

theorem stuck_thread (h : stepThread p s i = none) :
    (s.thread i).pc = .absent ∨ (s.thread i).pc = .returned ∨
      (s.thread i).pc = .lock ∧ s.owner ≠ none := by
  unfold stepThread at h
  split at h
  case h_1 at_ => exact Or.inl at_
  case h_3 at_ =>
    split at h
    · cases h
    · rename_i held
      exact Or.inr (Or.inr ⟨at_, held⟩)
  case h_8 at_ => exact Or.inr (Or.inl at_)
  all_goals cases h

/-- Whoever has the mutex can go on. -/
theorem not_all_stuck (counted : Counted s) (here : (s.thread i).pc ≠ .absent)
    (going : (s.thread i).pc ≠ .returned) (none : ∀ i, stepThread p s i = none) : False := by
  obtain at_ | at_ | ⟨_, held⟩ := stuck_thread (none i)
  · exact here at_
  · exact going at_
  · obtain ⟨j, owner⟩ := Option.ne_none_iff_exists'.mp held
    have inside : (s.thread j).pc.inside = true := (counted.guards j).mp owner
    obtain at_ | at_ | ⟨at_, _⟩ := stuck_thread (none j)
    all_goals
      rw [at_] at inside
      cases inside

theorem stuck_iff (inv : Inv p s) (counted : Counted s) :
    (∀ e, step p s e = none) ↔ s.main = .exited := by
  constructor
  · intro none
    by_contra running
    have threads (i : Fin n) : stepThread p s i = .none := by
      have here := none (.thread i)
      rw [step, if_neg running] at here
      exact here
    have main : stepMain s = .none := none .main
    unfold stepMain at main
    split at main
    · split at main <;> cases main
    · rename_i k at_
      split at main
      · rename_i more
        split at main
        · cases main
        · rename_i going
          exact not_all_stuck counted (inv.present (by simp [at_]) ⟨k, more⟩) going threads
      · cases main
    · rename_i at_
      exact running at_
  · intro at_ e
    cases e with
    | main =>
      show stepMain s = none
      rw [stepMain, at_]
    | thread i => exact if_pos at_

/-- With the mutex what is printed is the sum of all rounds, as an `int`, in every order of steps, and a run
comes to an end there and nowhere else. -/
theorem counts_every_round (locks : p.locks = true) {events : List (Event n)}
    (run : events.foldlM (step p) (start n) = some s) :
    (∀ v, s.printed = some v → v = toInt (∑ i, ((p.loops i).toNat : Int))) ∧
    events.length ≤ ∑ i, (6 * (p.loops i).toNat + 1) + (2 * n + 2) ∧
    ((∀ e, step p s e = none) ↔ s.printed ≠ none) := by
  obtain ⟨⟨inv, counted⟩, made⟩ := run_counts (I := fun s => Inv p s ∧ Counted s) (m := State.made)
    (fun s e t both h => by
      obtain ⟨inv, counted⟩ := both
      refine ⟨⟨inv_step s e t inv h, ?_⟩, ?_⟩
      · cases e with
        | main => exact counted_main inv counted h
        | thread i =>
          rw [step] at h
          split at h
          · cases h
          · exact counted_thread locks counted h
      · cases e with
        | main => exact made_main inv h
        | thread i =>
          rw [step] at h
          split at h
          · cases h
          · exact made_thread locks inv h)
    ⟨inv_start p, counted_start n⟩ run
  have none : ∑ i, ((start n).thread i).made = 0 := Finset.sum_eq_zero fun _ _ => rfl
  have begun : (start n).made = 0 := by
    rw [State.made, none]
    rfl
  rw [begun, Nat.zero_add] at made
  refine ⟨fun v printed => ?_, ?_, ?_⟩
  · have at_ : s.main = .exited := by
      by_contra running
      rw [inv.unprinted running] at printed
      cases printed
    obtain ⟨returned, value⟩ := inv.exited at_
    rw [value] at printed
    cases printed
    rw [counted.total]
    refine congrArg toInt (Finset.sum_congr rfl fun i _ => ?_)
    rw [Thread.writes, returned i, (inv.rounds i).returned (returned i)]
    rfl
  · rw [← made]
    exact Nat.add_le_add (Finset.sum_le_sum fun i _ => made_le (inv.rounds i)) (made_main_le inv)
  · rw [stuck_iff inv counted]
    refine ⟨fun at_ => ?_, fun printed => ?_⟩
    · simp [(inv.exited at_).2]
    · by_contra running
      exact printed (inv.unprinted running)

/-- Two threads that go round once, the first of them waiting for the mutex. -/
theorem counts_every_round_sample :
    ∃ s : State 2, s.printed = some 2 ∧ ∀ v, s.printed = some v → v = toInt (1 + 1) := by
  obtain ⟨s, run, printed⟩ : ∃ s : State 2,
      ([.main, .main, .main, .thread 0, .thread 1, .thread 1, .thread 1, .thread 1, .thread 1, .thread 1,
        .thread 0, .thread 0, .thread 0, .thread 0, .thread 0, .thread 0, .thread 1, .main, .main,
        .main] : List (Event 2)).foldlM (step ⟨true, fun _ => 1⟩) (start 2) = some s ∧
        s.printed = some 2 := ⟨_, rfl, rfl⟩
  have counted := (counts_every_round (p := ⟨true, fun _ => 1⟩) rfl run).1
  rw [Fin.sum_univ_two] at counted
  exact ⟨s, printed, counted⟩

end Tlpi.ThreadIncr
