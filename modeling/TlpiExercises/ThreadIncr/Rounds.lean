import TlpiExercises.ThreadIncr.Model

/-!
# The rounds of the threads

What one step of a thread can do, and what holds of `main` and of the rounds with and without the mutex.
-/

namespace Tlpi.ThreadIncr

open Transitions

variable {n : Nat} {p : Program n} {s t : State n} {i : Fin n}

/-- The steps of a thread: what it is after it, the variable and the owner of the mutex. -/
inductive Moves (p : Program n) (s : State n) (i : Fin n) : Thread → Int → Option (Fin n) → Prop
  | enter (at_ : (s.thread i).pc = .test) (more : (s.thread i).j < p.loops i) :
    Moves p s i { s.thread i with pc := p.body } s.global s.owner
  | leave (at_ : (s.thread i).pc = .test) (enough : p.loops i ≤ (s.thread i).j) :
    Moves p s i { s.thread i with pc := .returned } s.global s.owner
  | lock (at_ : (s.thread i).pc = .lock) (free : s.owner = none) :
    Moves p s i { s.thread i with pc := .load } s.global (some i)
  | load (at_ : (s.thread i).pc = .load) :
    Moves p s i { s.thread i with pc := .increment, loc := s.global } s.global s.owner
  | increment (at_ : (s.thread i).pc = .increment) :
    Moves p s i { s.thread i with pc := .store, loc := toInt ((s.thread i).loc + 1) } s.global s.owner
  | store (at_ : (s.thread i).pc = .store) (locks : p.locks = true) :
    Moves p s i { s.thread i with pc := .unlock } (s.thread i).loc s.owner
  | storeLast (at_ : (s.thread i).pc = .store) (locks : p.locks = false) :
    Moves p s i { s.thread i with pc := .test, j := (s.thread i).j + 1 } (s.thread i).loc s.owner
  | unlock (at_ : (s.thread i).pc = .unlock) :
    Moves p s i { s.thread i with pc := .test, j := (s.thread i).j + 1 } s.global none

theorem stepThread_moves (h : stepThread p s i = some t) : ∃ thread global owner,
    Moves p s i thread global owner ∧ t = { s.set i thread with global := global, owner := owner } := by
  unfold stepThread at h
  split at h
  case h_1 | h_8 => cases h
  case h_2 at_ =>
    cases h
    split
    · rename_i more
      exact ⟨_, _, _, .enter at_ more, rfl⟩
    · rename_i enough
      exact ⟨_, _, _, .leave at_ (Int.not_lt.mp enough), rfl⟩
  case h_3 at_ =>
    split at h
    · rename_i free
      cases h
      exact ⟨_, _, _, .lock at_ free, rfl⟩
    · cases h
  case h_4 at_ =>
    cases h
    exact ⟨_, _, _, .load at_, rfl⟩
  case h_5 at_ =>
    cases h
    exact ⟨_, _, _, .increment at_, rfl⟩
  case h_6 at_ =>
    cases h
    split
    · rename_i locks
      exact ⟨_, _, _, .store at_ locks, rfl⟩
    · rename_i locks
      exact ⟨_, _, _, .storeLast at_ (Bool.not_eq_true _ ▸ locks), rfl⟩
  case h_7 at_ =>
    cases h
    exact ⟨_, _, _, .unlock at_, rfl⟩

/-- In the body of the loop. -/
def Pc.within : Pc → Bool
  | .lock | .load | .increment | .store | .unlock => true
  | .absent | .test | .returned => false

/-- The rounds of a thread that is to make `loops` of them. -/
structure Rounds (loops : Int) (thread : Thread) : Prop where
  nonneg : 0 ≤ thread.j
  bound : thread.j ≤ loops.toNat
  within : thread.pc.within = true → thread.j < loops
  absent : thread.pc = .absent → thread.j = 0
  returned : thread.pc = .returned → thread.j = loops.toNat

structure Inv (p : Program n) (s : State n) : Prop where
  rounds : ∀ i, Rounds (p.loops i) (s.thread i)
  created : ∀ k, s.main = .create k → k ≤ n ∧ ∀ i : Fin n, (s.thread i).pc = .absent ↔ k ≤ i
  present : (∀ k, s.main ≠ .create k) → ∀ i, (s.thread i).pc ≠ .absent
  joined : ∀ k, s.main = .join k → k ≤ n ∧ ∀ i : Fin n, i.1 < k → (s.thread i).pc = .returned
  exited : s.main = .exited → (∀ i, (s.thread i).pc = .returned) ∧ s.printed = some s.global
  unprinted : s.main ≠ .exited → s.printed = none

theorem inv_start (p : Program n) : Inv p (start n) where
  rounds := fun _ => ⟨Int.le_refl 0, Int.natCast_nonneg _, nofun, fun _ => rfl, nofun⟩
  created := by
    rintro _ ⟨⟩
    exact ⟨Nat.zero_le _, fun _ => iff_of_true rfl (Nat.zero_le _)⟩
  present := fun created => absurd rfl (created 0)
  joined := nofun
  exited := nofun
  unprinted := fun _ => rfl

theorem set_self (s : State n) (i : Fin n) (thread : Thread) : (s.set i thread).thread i = thread :=
  Function.update_self ..

theorem set_of_ne (s : State n) {j : Fin n} (other : j ≠ i) (thread : Thread) :
    (s.set i thread).thread j = s.thread j := Function.update_of_ne other ..

theorem forall_set {q : Fin n → Thread → Prop} {thread : Thread} (here : q i thread)
    (others : ∀ j, j ≠ i → q j (s.thread j)) : ∀ j, q j ((s.set i thread).thread j) :=
  (Function.forall_update_iff s.thread q).mpr ⟨here, others⟩

theorem rounds_moves {thread : Thread} {global : Int} {owner : Option (Fin n)}
    (rounds : Rounds (p.loops i) (s.thread i)) (moves : Moves p s i thread global owner) :
    Rounds (p.loops i) thread ∧ thread.pc ≠ .absent ∧
      (s.thread i).pc ≠ .absent ∧ (s.thread i).pc ≠ .returned := by
  have nonneg := rounds.nonneg
  have bound := rounds.bound
  have within := rounds.within
  cases moves with
  | enter at_ more =>
    have body : p.body.within = true ∧ p.body ≠ .absent ∧ p.body ≠ .returned := by
      unfold Program.body
      split <;> decide
    exact ⟨⟨nonneg, bound, fun _ => more, fun at_ => absurd at_ body.2.1, fun at_ => absurd at_ body.2.2⟩,
      body.2.1, by rw [at_]; nofun, by rw [at_]; nofun⟩
  | leave at_ enough =>
    exact ⟨⟨nonneg, bound, nofun, nofun, fun _ => by show (s.thread i).j = _; omega⟩, nofun,
      by rw [at_]; nofun, by rw [at_]; nofun⟩
  | lock at_ _ | load at_ | increment at_ | store at_ _ =>
    rw [at_] at within
    exact ⟨⟨nonneg, bound, fun _ => within rfl, nofun, nofun⟩, nofun, by rw [at_]; nofun,
      by rw [at_]; nofun⟩
  | storeLast at_ _ | unlock at_ =>
    rw [at_] at within
    have more := within rfl
    exact ⟨⟨by show 0 ≤ (s.thread i).j + 1; omega, by show (s.thread i).j + 1 ≤ _; omega, nofun, nofun,
      nofun⟩, nofun, by rw [at_]; nofun, by rw [at_]; nofun⟩

theorem inv_thread (inv : Inv p s) (running : s.main ≠ .exited) (h : stepThread p s i = some t) :
    Inv p t := by
  obtain ⟨thread, global, owner, moves, rfl⟩ := stepThread_moves h
  obtain ⟨rounds, stays, present, going⟩ := rounds_moves (inv.rounds i) moves
  refine ⟨forall_set (q := fun i thread => Rounds (p.loops i) thread) rounds fun j _ => inv.rounds j,
    fun k at_ => ?_, fun created => ?_, fun k at_ => ?_, fun at_ => absurd at_ running, inv.unprinted⟩
  · obtain ⟨bound, absent⟩ := inv.created k at_
    refine ⟨bound, forall_set (q := fun i thread => thread.pc = .absent ↔ k ≤ i) ?_ fun j _ => absent j⟩
    rw [← absent i]
    exact iff_of_false stays present
  · exact forall_set (q := fun _ thread => thread.pc ≠ .absent) stays fun j _ => inv.present created j
  · obtain ⟨bound, returned⟩ := inv.joined k at_
    exact ⟨bound, forall_set (q := fun i thread => i.1 < k → thread.pc = .returned)
      (fun below => absurd (returned i below) going) fun j _ => returned j⟩

theorem inv_main (inv : Inv p s) (h : stepMain s = some t) : Inv p t := by
  unfold stepMain at h
  split at h
  · rename_i k at_
    obtain ⟨bound, absent⟩ := inv.created k at_
    have unprinted := inv.unprinted (by rw [at_]; nofun)
    split at h
    · rename_i more
      cases h
      have fresh := (absent ⟨k, more⟩).mpr (Nat.le_refl k)
      have rounds := inv.rounds ⟨k, more⟩
      refine ⟨forall_set (q := fun i thread => Rounds (p.loops i) thread) ?_ fun j _ => inv.rounds j, ?_,
        fun created => absurd rfl (created (k + 1)), nofun, nofun, fun _ => unprinted⟩
      · exact ⟨rounds.nonneg, rounds.bound, nofun, nofun, nofun⟩
      · rintro _ ⟨⟩
        refine ⟨more, forall_set (q := fun i thread => thread.pc = .absent ↔ k + 1 ≤ i) ?_
          fun j other => ?_⟩
        · exact iff_of_false nofun (Nat.not_succ_le_self k)
        · rw [absent j]
          have different : j.1 ≠ k := fun same => other (Fin.ext same)
          omega
    · rename_i all
      cases h
      refine ⟨inv.rounds, nofun, fun _ i none => ?_, ?_, nofun, fun _ => unprinted⟩
      · have below := (absent i).mp none
        have inside := i.2
        omega
      · rintro _ ⟨⟩
        exact ⟨Nat.zero_le _, fun i below => absurd below (Nat.not_lt_zero _)⟩
  · rename_i k at_
    obtain ⟨bound, returned⟩ := inv.joined k at_
    have present := inv.present (by rw [at_]; nofun)
    have unprinted := inv.unprinted (by rw [at_]; nofun)
    split at h
    · rename_i more
      split at h
      · rename_i here
        cases h
        refine ⟨inv.rounds, nofun, fun _ => present, ?_, nofun, fun _ => unprinted⟩
        rintro _ ⟨⟩
        refine ⟨more, fun i below => ?_⟩
        by_cases last : i = ⟨k, more⟩
        · rw [last]
          exact here
        · have different : i.1 ≠ k := fun same => last (Fin.ext same)
          exact returned i (by omega)
      · cases h
    · rename_i all
      cases h
      have everyone (i : Fin n) := returned i (i.2.trans_le (Nat.not_lt.mp all))
      exact ⟨inv.rounds, nofun, fun _ => present, nofun, fun _ => ⟨everyone, rfl⟩,
        fun running => absurd rfl running⟩
  · cases h

theorem inv_step (s : State n) (e : Event n) (t : State n) (inv : Inv p s) (h : step p s e = some t) :
    Inv p t := by
  cases e with
  | main => exact inv_main inv h
  | thread i =>
    rw [step] at h
    split at h
    · cases h
    · rename_i running
      exact inv_thread inv running h

end Tlpi.ThreadIncr
