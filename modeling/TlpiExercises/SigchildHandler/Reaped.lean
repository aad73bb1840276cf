import Mathlib.Algebra.Order.BigOperators.Group.Finset
import TlpiExercises.SigchildHandler.Model

/-!
# Every child is reaped

A child that has terminated is found by the handler that runs, or a `SIGCHLD` is pending that will run
it again.
-/

namespace Tlpi.SigchildHandler

open Transitions

/-- It counts in `childrenLeft`. -/
def Child.left : Child → Nat
  | .absent | .running | .terminated => 1
  | .reaped => 0

def Child.ended : Child → Nat
  | .absent | .running => 0
  | .terminated | .reaped => 1

/-- The handler runs. -/
def MainPc.handling : MainPc → Bool
  | .waitpid | .sleep => true
  | .fork _ | .test | .sigsuspend | .exited | .failed => false

/-- The calls of the handler that have begun. -/
def State.caught {n : Nat} (s : State n) : Nat := s.sigCount + s.main.handling.toNat

def State.left {n : Nat} (s : State n) : Nat := ∑ i, (s.child i).left

def State.ended {n : Nat} (s : State n) : Nat := ∑ i, (s.child i).ended

structure Inv (setting : Setting) (s : State setting.n) : Prop where
  usage : s.main ≠ .failed → setting.args ≠ []
  forked : ∀ k, s.main = .fork k → k ≤ setting.n ∧ ∀ i : Fin setting.n, s.child i = .absent ↔ k ≤ i
  present : (∀ k, s.main ≠ .fork k) → s.main ≠ .failed → ∀ i, s.child i ≠ .absent
  childrenLeft : s.childrenLeft = s.left
  noticed : s.pending = false → s.main ≠ .waitpid → ∀ i, s.child i ≠ .terminated
  waits : s.main = .sigsuspend → 0 < s.childrenLeft
  exited : s.main = .exited → s.childrenLeft ≤ 0
  caught : s.caught + s.pending.toNat ≤ s.ended
  reaped : s.caught = 0 → ∀ i, s.child i ≠ .reaped
  delivered : 0 < s.caught → setting.oldBlocked = false

theorem inv_start (setting : Setting) : Inv setting (start setting) := by
  have main : (start setting).main = .failed ∨
      (start setting).main = .fork 0 ∧ setting.args ≠ [] := by
    unfold start
    dsimp only
    split
    · exact Or.inl rfl
    · rename_i used
      exact Or.inr ⟨rfl, fun none => used (Or.inl none)⟩
  have caught : (start setting).caught = 0 := by
    unfold State.caught
    rcases main with main | ⟨main, _⟩ <;> rw [main] <;> rfl
  refine ⟨fun running => ?_, fun k at_ => ?_, fun forked running => ?_, ?_, fun _ _ _ => nofun,
    fun at_ => ?_, fun at_ => ?_, ?_, fun _ _ => nofun, fun some => ?_⟩
  · exact (main.resolve_left running).2
  · rcases main with main | ⟨main, _⟩ <;> rw [main] at at_ <;> cases at_
    exact ⟨Nat.zero_le _, fun i => iff_of_true rfl (Nat.zero_le _)⟩
  · rcases main with main | ⟨main, _⟩
    · exact absurd main running
    · exact absurd main (forked 0)
  · simp [start, State.left, Child.left]
  · rcases main with main | ⟨main, _⟩ <;> rw [main] at at_ <;> cases at_
  · rcases main with main | ⟨main, _⟩ <;> rw [main] at at_ <;> cases at_
  · rw [caught]
    exact Nat.zero_le _
  · rw [caught] at some
    exact absurd some (Nat.lt_irrefl 0)

section Steps

variable {setting : Setting} {s t : State setting.n} {i : Fin setting.n}

theorem sum_set (s : State setting.n) (i : Fin setting.n) (child : Child) (f : Child → Nat) :
    ∑ j, f ((s.set i child).child j) + f (s.child i) = ∑ j, f (s.child j) + f child :=
  sum_update s.child i child f

/-- The set keeps what holds of all children. -/
theorem forall_set {p : Fin setting.n → Child → Prop} {child : Child} (here : p i child)
    (others : ∀ j, j ≠ i → p j (s.child j)) : ∀ j, p j ((s.set i child).child j) :=
  (Function.forall_update_iff s.child p).mpr ⟨here, others⟩

/-- A step of `main` that creates and reaps no child. -/
theorem inv_main (inv : Inv setting s) {main : MainPc} {pending : Bool} {sigCount : Nat}
    (running : main ≠ .failed → s.main ≠ .failed)
    (forked : ∀ k, main ≠ .fork k)
    (present : main ≠ .failed → ∀ i, s.child i ≠ .absent)
    (noticed : pending = false → main ≠ .waitpid → ∀ i, s.child i ≠ .terminated)
    (waits : main = .sigsuspend → 0 < s.childrenLeft)
    (exited : main = .exited → s.childrenLeft ≤ 0)
    (caught : sigCount + main.handling.toNat + pending.toNat ≤ s.caught + s.pending.toNat)
    (grows : s.caught ≤ sigCount + main.handling.toNat)
    (delivered : 0 < sigCount + main.handling.toNat → setting.oldBlocked = false) :
    Inv setting { s with main := main, pending := pending, sigCount := sigCount } where
  usage := fun now => inv.usage (running now)
  forked := fun k at_ => absurd at_ (forked k)
  present := fun _ now => present now
  childrenLeft := inv.childrenLeft
  noticed := noticed
  waits := waits
  exited := exited
  caught := caught.trans inv.caught
  reaped := by
    intro none
    have none : sigCount + main.handling.toNat = 0 := none
    exact inv.reaped (by omega)
  delivered := delivered

theorem inv_exits (inv : Inv setting s) (h : s.exits i = some t) : Inv setting t := by
  unfold State.exits at h
  split at h
  · rename_i running
    cases h
    have left : (s.set i .terminated).left + 1 = s.left + 1 := by
      have change := sum_set s i .terminated Child.left
      rw [running] at change
      exact change
    have ended : (s.set i .terminated).ended + 0 = s.ended + 1 := by
      have change := sum_set s i .terminated Child.ended
      rw [running] at change
      exact change
    have caught := inv.caught
    have before := inv.childrenLeft
    refine { inv with
      forked := fun k at_ => ⟨(inv.forked k at_).1,
        forall_set (p := fun j child => child = .absent ↔ k ≤ j) ?_ fun j _ => (inv.forked k at_).2 j⟩
      present := fun forked failed => forall_set (p := fun _ child => child ≠ .absent) nofun
        fun j _ => inv.present forked failed j
      childrenLeft := ?_
      noticed := nofun
      caught := ?_
      reaped := fun none => forall_set (p := fun _ child => child ≠ .reaped) nofun
        fun j _ => inv.reaped none j }
    · rw [← (inv.forked k at_).2 i, running]
      exact iff_of_false nofun nofun
    · show s.childrenLeft = (s.set i .terminated).left
      omega
    · show s.caught + 1 ≤ (s.set i .terminated).ended
      omega
  · cases h

theorem inv_reap (inv : Inv setting s) (h : s.reap i = some t) : Inv setting t := by
  unfold State.reap at h
  split at h
  · rename_i found
    obtain ⟨at_, terminated⟩ := found
    cases h
    have left : (s.set i .reaped).left + 1 = s.left + 0 := by
      have change := sum_set s i .reaped Child.left
      rw [terminated] at change
      exact change
    have ended : (s.set i .reaped).ended + 1 = s.ended + 1 := by
      have change := sum_set s i .reaped Child.ended
      rw [terminated] at change
      exact change
    have caught := inv.caught
    have before := inv.childrenLeft
    have handling : s.caught = s.sigCount + 1 := by
      unfold State.caught
      rw [at_]
      rfl
    refine { inv with
      forked := fun k now => ?_
      present := fun forked failed => forall_set (p := fun _ child => child ≠ .absent) nofun
        fun j _ => inv.present forked failed j
      childrenLeft := ?_
      noticed := fun _ now => absurd at_ now
      waits := fun now => ?_
      exited := fun now => ?_
      caught := ?_
      reaped := fun none => ?_ }
    · cases at_.symm.trans now
    · show s.childrenLeft - 1 = (s.set i .reaped).left
      omega
    · cases at_.symm.trans now
    · cases at_.symm.trans now
    · show s.caught + s.pending.toNat ≤ (s.set i .reaped).ended
      omega
    · have none : s.caught = 0 := none
      omega
  · cases h

/-- Child `k` is created. -/
theorem inv_fork (inv : Inv setting s) {k : Nat} (at_ : s.main = .fork k) (more : k < setting.n) :
    Inv setting { s.set ⟨k, more⟩ .running with main := .fork (k + 1) } := by
  obtain ⟨_, absent⟩ := inv.forked k at_
  have fresh : s.child ⟨k, more⟩ = .absent := (absent _).mpr (Nat.le_refl k)
  have left : (s.set ⟨k, more⟩ .running).left + 1 = s.left + 1 := by
    have change := sum_set s ⟨k, more⟩ .running Child.left
    rw [fresh] at change
    exact change
  have ended : (s.set ⟨k, more⟩ .running).ended + 0 = s.ended + 0 := by
    have change := sum_set s ⟨k, more⟩ .running Child.ended
    rw [fresh] at change
    exact change
  have same : s.caught = s.sigCount + 0 := by
    unfold State.caught
    rw [at_]
    rfl
  have caught := inv.caught
  have before := inv.childrenLeft
  refine {
    usage := fun _ => inv.usage (by rw [at_]; nofun)
    forked := ?_
    present := fun forked => absurd rfl (forked (k + 1))
    childrenLeft := ?_
    noticed := fun none _ => forall_set (p := fun _ child => child ≠ .terminated) nofun
      fun j _ => inv.noticed none (by rw [at_]; nofun) j
    waits := nofun
    exited := nofun
    caught := ?_
    reaped := fun none => forall_set (p := fun _ child => child ≠ .reaped) nofun
      fun j _ => inv.reaped (same.trans none) j
    delivered := fun some => inv.delivered (same ▸ some) }
  · rintro _ ⟨⟩
    refine ⟨more, forall_set (p := fun j child => child = .absent ↔ k + 1 ≤ j) ?_ fun j other => ?_⟩
    · exact iff_of_false nofun (Nat.not_succ_le_self k)
    · rw [absent j]
      have different : j.1 ≠ k := fun same => other (Fin.ext same)
      omega
  · show s.childrenLeft = (s.set ⟨k, more⟩ .running).left
    omega
  · show s.sigCount + 0 + s.pending.toNat ≤ (s.set ⟨k, more⟩ .running).ended
    omega

/-- A step of `main` after which the handler is where it was. -/
theorem inv_goes_on (inv : Inv setting s) {main : MainPc} {sigCount : Nat}
    (running : main ≠ .failed → s.main ≠ .failed) (forked : ∀ k, main ≠ .fork k)
    (present : main ≠ .failed → ∀ i, s.child i ≠ .absent)
    (noticed : s.pending = false → ∀ i, s.child i ≠ .terminated)
    (waits : main = .sigsuspend → 0 < s.childrenLeft)
    (exited : main = .exited → s.childrenLeft ≤ 0)
    (same : sigCount + main.handling.toNat = s.caught) :
    Inv setting { s with main := main, sigCount := sigCount } := by
  refine inv_main inv running forked present (fun none _ => noticed none) waits exited ?_ ?_ ?_
  · rw [same]
  · rw [same]
  · rw [same]
    exact inv.delivered

theorem caught_at {main : MainPc} (at_ : s.main = main) :
    s.caught = s.sigCount + main.handling.toNat := by
  rw [State.caught, at_]

/-- An `errExit` in the loop of the `fork`. -/
theorem inv_failed (inv : Inv setting s) {k : Nat} (at_ : s.main = .fork k) :
    Inv setting { s with main := .failed } :=
  inv_goes_on inv (fun now => absurd rfl now) nofun (fun now => absurd rfl now)
    (fun none => inv.noticed none (by rw [at_]; nofun)) nofun nofun (caught_at at_).symm

theorem inv_stepMain (inv : Inv setting s) (h : stepMain setting s = some t) : Inv setting t := by
  unfold stepMain at h
  split at h
  · rename_i k at_
    obtain ⟨bound, absent⟩ := inv.forked k at_
    split at h
    · rename_i more
      split at h
      · cases h
        exact inv_failed inv at_
      · cases h
        exact inv_fork inv at_ more
    · rename_i all
      cases h
      refine inv_goes_on inv (fun _ => by simp [at_]) (by simp) (fun _ i none => ?_)
        (fun none => inv.noticed none (by simp [at_])) (by simp) (by simp) (caught_at at_).symm
      have below := (absent i).mp none
      have inside := i.2
      omega
  · rename_i at_
    cases h
    have present := inv.present (by simp [at_]) (by simp [at_])
    have noticed (none : s.pending = false) := inv.noticed none (by simp [at_])
    split
    · rename_i more
      exact inv_goes_on inv (fun _ => by simp [at_]) (by simp) (fun _ => present) noticed
        (fun _ => more) (by simp) (caught_at at_).symm
    · rename_i enough
      exact inv_goes_on inv (fun _ => by simp [at_]) (by simp) (fun _ => present) noticed (by simp)
        (fun _ => Int.not_lt.mp enough) (caught_at at_).symm
  · rename_i at_
    have same := caught_at at_
    split at h
    · rename_i called
      obtain ⟨pending, lets⟩ := called
      cases h
      refine inv_main inv (fun _ => by simp [at_]) (by simp)
        (fun _ => inv.present (by simp [at_]) (by simp [at_]))
        (fun _ now => absurd rfl now) (by simp) (by simp) ?_ ?_ fun _ => Bool.eq_false_iff.mpr lets
      · rw [same, pending]
        exact Nat.le_refl _
      · rw [same]
        exact Nat.le_succ _
    · cases h
  · rename_i at_
    split at h
    · rename_i all
      cases h
      exact inv_goes_on inv (fun _ => by simp [at_]) (by simp)
        (fun _ => inv.present (by simp [at_]) (by simp [at_])) (fun _ => all) (by simp) (by simp)
        (caught_at at_).symm
    · cases h
  · rename_i at_
    cases h
    exact inv_goes_on inv (fun _ => by simp [at_]) (by simp)
      (fun _ => inv.present (by simp [at_]) (by simp [at_]))
      (fun none => inv.noticed none (by simp [at_])) (by simp) (by simp) (caught_at at_).symm
  · cases h
  · cases h

theorem inv_step (s : State setting.n) (e : Event setting.n) (t : State setting.n)
    (inv : Inv setting s) (h : step setting s e = some t) : Inv setting t := by
  cases e with
  | main => exact inv_stepMain inv h
  | forkFails =>
    rw [step] at h
    split at h
    · rename_i k at_
      split at h
      · cases h
        exact inv_failed inv at_
      · cases h
    all_goals cases h
  | exits i => exact inv_exits inv h
  | reap i => exact inv_reap inv h

/-! ### Every run ends -/

/-- The steps that a child may still give rise to: its `fork`, its end, a call of the handler and its
`waitpid`. -/
def Child.ahead : Child → Nat
  | .absent => 7
  | .running => 6
  | .terminated => 1
  | .reaped => 0

def MainPc.ahead : MainPc → Nat
  | .waitpid => 3
  | .fork _ | .sleep => 2
  | .test => 1
  | .sigsuspend | .exited | .failed => 0

def State.ahead (s : State setting.n) : Nat :=
  ∑ i, (s.child i).ahead + 4 * s.pending.toNat + s.main.ahead

theorem ahead_exits (h : s.exits i = some t) : t.ahead < s.ahead := by
  unfold State.exits at h
  split at h
  · rename_i running
    cases h
    have change := sum_set s i .terminated Child.ahead
    rw [running] at change
    have change : ∑ j, ((s.set i .terminated).child j).ahead + 6 = ∑ j, (s.child j).ahead + 1 := change
    show ∑ j, ((s.set i .terminated).child j).ahead + 4 * 1 + s.main.ahead < s.ahead
    unfold State.ahead
    omega
  · cases h

theorem ahead_reap (h : s.reap i = some t) : t.ahead < s.ahead := by
  unfold State.reap at h
  split at h
  · rename_i found
    cases h
    have change := sum_set s i .reaped Child.ahead
    rw [found.2] at change
    have change : ∑ j, ((s.set i .reaped).child j).ahead + 1 = ∑ j, (s.child j).ahead + 0 := change
    show ∑ j, ((s.set i .reaped).child j).ahead + 4 * s.pending.toNat + s.main.ahead < s.ahead
    unfold State.ahead
    omega
  · cases h

theorem ahead_main {main : MainPc} {sigCount : Nat} (less : main.ahead < s.main.ahead) :
    ({ s with main := main, sigCount := sigCount } : State setting.n).ahead < s.ahead :=
  Nat.add_lt_add_left less _

theorem ahead_stepMain (inv : Inv setting s) (h : stepMain setting s = some t) :
    t.ahead < s.ahead := by
  unfold stepMain at h
  split at h
  · rename_i k at_
    obtain ⟨bound, absent⟩ := inv.forked k at_
    split at h
    · rename_i more
      split at h
      · cases h
        exact ahead_main (by rw [at_]; exact Nat.zero_lt_two)
      · cases h
        have fresh : s.child ⟨k, more⟩ = .absent := (absent _).mpr (Nat.le_refl k)
        have change := sum_set s ⟨k, more⟩ .running Child.ahead
        rw [fresh] at change
        have change : ∑ j, ((s.set ⟨k, more⟩ .running).child j).ahead + 7 =
          ∑ j, (s.child j).ahead + 6 := change
        have rank : s.main.ahead = 2 := by rw [at_]; rfl
        show ∑ j, ((s.set ⟨k, more⟩ .running).child j).ahead + 4 * s.pending.toNat + 2 < s.ahead
        unfold State.ahead
        omega
    · cases h
      exact ahead_main (by rw [at_]; exact Nat.one_lt_two)
  · rename_i at_
    cases h
    refine ahead_main ?_
    rw [at_]
    split <;> decide
  · rename_i at_
    split at h
    · rename_i called
      cases h
      have rank : s.main.ahead = 0 := by rw [at_]; rfl
      show ∑ j, (s.child j).ahead + 4 * 0 + 3 < s.ahead
      unfold State.ahead
      rw [called.1, rank]
      exact Nat.lt_succ_self _
    · cases h
  · rename_i at_
    split at h
    · cases h
      exact ahead_main (by rw [at_]; decide)
    · cases h
  · rename_i at_
    cases h
    exact ahead_main (by rw [at_]; decide)
  · cases h
  · cases h

theorem ahead_step (s : State setting.n) (e : Event setting.n) (t : State setting.n)
    (inv : Inv setting s) (h : step setting s e = some t) : t.ahead < s.ahead := by
  cases e with
  | main => exact ahead_stepMain inv h
  | forkFails =>
    rw [step] at h
    split at h
    · rename_i k at_
      split at h
      · cases h
        exact ahead_main (by rw [at_]; exact Nat.zero_lt_two)
      · cases h
    all_goals cases h
  | exits i => exact ahead_exits h
  | reap i => exact ahead_reap h

theorem ahead_start (setting : Setting) : (start setting).ahead ≤ 7 * setting.n + 2 := by
  have main : (start setting).main.ahead ≤ 2 := by
    unfold start
    dsimp only
    split <;> decide
  have all : ∑ i, ((start setting).child i).ahead = 7 * setting.n := by
    simp [start, Child.ahead, Nat.mul_comm]
  have none : (start setting).pending = false := rfl
  unfold State.ahead
  rw [all, none]
  show 7 * setting.n + 0 + (start setting).main.ahead ≤ _
  omega

/-! ### Where no step is possible -/

theorem left_zero (all : ∀ i, s.child i = .reaped) : s.left = 0 := by
  refine Finset.sum_eq_zero fun i _ => ?_
  rw [all i]
  rfl

theorem all_reaped (none : s.left = 0) (i : Fin setting.n) : s.child i = .reaped := by
  have here := Finset.sum_eq_zero_iff.mp none i (Finset.mem_univ i)
  cases now : s.child i with
  | reaped => rfl
  | absent | running | terminated =>
    rw [now] at here
    cases here

/-- `main` does not sleep in `sigsuspend` when there is nothing left to wake it. -/
theorem awaited (inv : Inv setting s) (at_ : s.main = .sigsuspend) (quiet : s.pending = false) :
    ∃ i, s.child i = .running := by
  by_contra none
  rw [not_exists] at none
  have present := inv.present (by rw [at_]; nofun) (by rw [at_]; nofun)
  have noticed := inv.noticed quiet (by rw [at_]; nofun)
  have waits := inv.waits at_
  rw [inv.childrenLeft, left_zero fun i => ?_] at waits
  · exact absurd waits (Int.lt_irrefl 0)
  · cases now : s.child i with
    | reaped => rfl
    | absent => exact absurd now (present i)
    | running => exact absurd now (none i)
    | terminated => exact absurd now (noticed i)

theorem stuck_main (inv : Inv setting s) (idle : ∀ i, s.child i ≠ .running)
    (none : ∀ e, step setting s e = none) :
    s.main = .exited ∨ s.main = .failed ∨ setting.oldBlocked = true ∧ s.main = .sigsuspend := by
  have main : stepMain setting s = .none := none .main
  unfold stepMain at main
  split at main
  · split at main
    · split at main <;> cases main
    · cases main
  · cases main
  · rename_i at_
    split at main
    · cases main
    · rename_i asleep
      refine Or.inr (Or.inr ⟨?_, at_⟩)
      by_contra lets
      have quiet : s.pending = false := Bool.eq_false_iff.mpr fun pending => asleep ⟨pending, lets⟩
      obtain ⟨i, running⟩ := awaited inv at_ quiet
      exact idle i running
  · rename_i at_
    split at main
    · cases main
    · rename_i some_left
      rw [not_forall] at some_left
      obtain ⟨i, terminated⟩ := some_left
      have reap : s.reap i = .none := none (.reap i)
      rw [State.reap, if_pos ⟨at_, not_not.mp terminated⟩] at reap
      cases reap
  · cases main
  · rename_i at_
    exact Or.inl at_
  · rename_i at_
    exact Or.inr (Or.inl at_)

theorem stuck_iff (inv : Inv setting s) :
    (∀ e, step setting s e = none) ↔ (∀ i, s.child i ≠ .running) ∧
      (s.main = .exited ∨ s.main = .failed ∨ setting.oldBlocked = true ∧ s.main = .sigsuspend) := by
  constructor
  · intro none
    have idle (i : Fin setting.n) : s.child i ≠ .running := by
      intro running
      have exits : s.exits i = .none := none (.exits i)
      rw [State.exits, if_pos running] at exits
      cases exits
    exact ⟨idle, stuck_main inv idle none⟩
  · rintro ⟨idle, ended⟩ e
    have elsewhere : s.main ≠ .waitpid := by
      rcases ended with at_ | at_ | ⟨_, at_⟩ <;> rw [at_] <;> nofun
    cases e with
    | main =>
      show stepMain setting s = none
      unfold stepMain
      rcases ended with at_ | at_ | ⟨blocked, at_⟩
      · rw [at_]
      · rw [at_]
      · rw [at_]
        exact if_neg fun called => called.2 blocked
    | forkFails =>
      rw [step]
      rcases ended with at_ | at_ | ⟨_, at_⟩ <;> rw [at_]
    | exits i => exact if_neg (idle i)
    | reap i => exact if_neg fun found => elsewhere found.1

theorem exited_reaped (inv : Inv setting s) (at_ : s.main = .exited) :
    (∀ i, s.child i = .reaped) ∧ 1 ≤ s.sigCount ∧ setting.oldBlocked = false := by
  have left := inv.exited at_
  rw [inv.childrenLeft] at left
  have all := all_reaped (s := s) (by omega)
  have some : 0 < setting.n :=
    List.length_pos_iff.mpr (inv.usage (by rw [at_]; nofun))
  have caught : 0 < s.caught :=
    Nat.pos_of_ne_zero fun none => inv.reaped none ⟨0, some⟩ (all ⟨0, some⟩)
  have same : s.caught = s.sigCount := caught_at at_
  exact ⟨all, same.symm ▸ caught, inv.delivered caught⟩

theorem ended_le (s : State setting.n) : s.ended ≤ setting.n := by
  have each (i : Fin setting.n) : (s.child i).ended ≤ 1 := by cases s.child i <;> decide
  refine (Finset.sum_le_sum fun i _ => each i).trans ?_
  simp

end Steps

/-- In every order of steps `childrenLeft` counts the children that have not been reaped; when `main`
exits there are none, and the handler has been called at least once and at most once for each. A run
comes to an end, which is an exit, an error, or a `sigsuspend` with the signal blocked by the mask that
was inherited. -/
theorem reaps_all {setting : Setting} {events : List (Event setting.n)} {s : State setting.n}
    (run : events.foldlM (step setting) (start setting) = some s) :
    s.childrenLeft = (Finset.univ.filter fun i => s.child i ≠ .reaped).card ∧
    s.sigCount ≤ setting.n ∧
    (s.main = .exited →
      (∀ i, s.child i = .reaped) ∧ 1 ≤ s.sigCount ∧ setting.oldBlocked = false) ∧
    events.length ≤ 7 * setting.n + 2 ∧
    ((∀ e, step setting s e = none) ↔ (∀ i, s.child i ≠ .running) ∧
      (s.main = .exited ∨ s.main = .failed ∨ setting.oldBlocked = true ∧ s.main = .sigsuspend)) := by
  obtain ⟨inv, ahead⟩ := run_falls (I := Inv setting) (m := State.ahead)
    (fun s e t inv h => ⟨inv_step s e t inv h, ahead_step s e t inv h⟩) (inv_start setting) run
  have begun := ahead_start setting
  have caught := inv.caught
  have ended := ended_le s
  refine ⟨?_, ?_, exited_reaped inv, by omega, stuck_iff inv⟩
  · rw [inv.childrenLeft, State.left, Finset.card_filter]
    refine congrArg _ (Finset.sum_congr rfl fun i _ => ?_)
    cases s.child i <;> rfl
  · unfold State.caught at caught
    omega

/-- Two children that terminate while the handler sleeps. -/
theorem reaps_all_sample :
    let setting : Setting := ⟨[[49], [50]], false⟩
    ∃ s : State setting.n, s.main = .exited ∧ (∀ i, s.child i = .reaped) := by
  intro setting
  obtain ⟨s, run, ended⟩ : ∃ s : State setting.n,
      ([.main, .main, .main, .main, .exits 0, .main, .reap 0, .main, .exits 1, .main, .main, .main,
        .reap 1, .main, .main, .main] : List (Event 2)).foldlM (step setting) (start setting) =
        some s ∧ s.main = .exited := ⟨_, rfl, rfl⟩
  exact ⟨s, ended, ((reaps_all run).2.2.1 ended).1⟩

end Tlpi.SigchildHandler
