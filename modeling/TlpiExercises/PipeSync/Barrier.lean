import Mathlib.Algebra.Order.BigOperators.Group.Finset
import TlpiExercises.PipeSync.Model

/-!
# The parent waits for all children

The `read` returns when the write end is closed in every process, and a child closes it behind its last
line or when it terminates.
-/

namespace Tlpi.PipeSync

open Transitions

/-- It has the write end open. -/
def ChildPc.writes : ChildPc → Nat
  | .closeRead | .getNum | .sleep | .printf | .closeWrite => 1
  | .absent | .exit | .terminated | .reaped => 0

def MainPc.writes : MainPc → Nat
  | .fork _ | .closeWrite => 1
  | .waiting | .read | .woke | .waitpid | .exited | .failed => 0

/-- The `read` has returned. -/
def MainPc.awake : MainPc → Bool
  | .woke | .waitpid | .exited => true
  | .fork _ | .closeWrite | .waiting | .read | .failed => false

/-- The last line has been written. -/
def MainPc.announced : MainPc → Bool
  | .waitpid | .exited => true
  | .fork _ | .closeWrite | .waiting | .read | .woke | .failed => false

/-- How often a child is to write its line. -/
def due (arg : List UInt8) : Nat := if Utils.getNum arg = none then 0 else 1

/-- What the place of a child says of its line. -/
def Phase (arg : List UInt8) : ChildPc → Nat → Prop
  | .absent, lines | .closeRead, lines | .getNum, lines => lines = 0
  | .sleep, lines | .printf, lines => due arg = 1 ∧ lines = 0
  | .closeWrite, lines | .exit, lines => due arg = 1 ∧ lines = 1
  | .terminated, lines | .reaped, lines => lines = due arg

/-- `woke` is the last line when it is there. -/
def Ordered {n : Nat} (output : List (Message n)) (announced : Bool) : Prop :=
  if announced then ∃ before, output = before ++ [.woke] ∧ .woke ∉ before else .woke ∉ output

structure Inv (args : Args) (s : State args.length) : Prop where
  forked : ∀ k, s.main = .fork k →
    k ≤ args.length ∧ ∀ i : Fin args.length, s.child i = .absent ↔ k ≤ i
  present : (∀ k, s.main ≠ .fork k) → s.main ≠ .failed → ∀ i, s.child i ≠ .absent
  writers : s.writers = s.main.writes + ∑ i, (s.child i).writes
  printed : ∀ i, Phase args[i] (s.child i) (s.output.count (.finished i))
  awake : s.main.awake → ∀ i, (s.child i).writes = 0
  ordered : Ordered s.output s.main.announced
  exited : s.main = .exited → ∀ i, s.child i = .reaped

theorem start_main (args : Args) :
    (start args).main = .failed ∧ (start args).writers = 0 ∨
      (start args).main = .fork 0 ∧ (start args).writers = 1 := by
  unfold start
  dsimp only
  split
  · exact Or.inl ⟨rfl, rfl⟩
  · exact Or.inr ⟨rfl, rfl⟩

theorem inv_start (args : Args) : Inv args (start args) := by
  have none : ∑ i, ((start args).child i).writes = 0 := Finset.sum_eq_zero fun _ _ => rfl
  have absent (i : Fin args.length) : (start args).child i = .absent := rfl
  rcases start_main args with ⟨main, writers⟩ | ⟨main, writers⟩
  · refine ⟨fun k at_ => ?_, fun _ running => absurd main running, ?_, fun _ => rfl, fun at_ => ?_, ?_,
      fun at_ => ?_⟩
    · cases main.symm.trans at_
    · rw [writers, main, none]
      rfl
    · rw [main] at at_
      cases at_
    · rw [main]
      exact List.not_mem_nil
    · cases main.symm.trans at_
  · refine ⟨fun k at_ => ?_, fun forked => absurd main (forked 0), ?_, fun _ => rfl, fun at_ => ?_, ?_,
      fun at_ => ?_⟩
    · cases main.symm.trans at_
      exact ⟨Nat.zero_le _, fun i => iff_of_true (absent i) (Nat.zero_le _)⟩
    · rw [writers, main, none]
      rfl
    · rw [main] at at_
      cases at_
    · rw [main]
      exact List.not_mem_nil
    · cases main.symm.trans at_

section Steps

variable {args : Args} {s t : State args.length} {i : Fin args.length}

theorem sum_set (s : State args.length) (i : Fin args.length) (pc : ChildPc) (f : ChildPc → Nat) :
    ∑ j, f ((s.set i pc).child j) + f (s.child i) = ∑ j, f (s.child j) + f pc :=
  sum_update s.child i pc f

theorem forall_set {p : Fin args.length → ChildPc → Prop} {pc : ChildPc} (here : p i pc)
    (others : ∀ j, j ≠ i → p j (s.child j)) : ∀ j, p j ((s.set i pc).child j) :=
  (Function.forall_update_iff s.child p).mpr ⟨here, others⟩

/-- A child that is there goes on, and may write its line. -/
theorem inv_child (inv : Inv args s) {before pc : ChildPc} {writers : Nat}
    {output : List (Message args.length)} (at_ : s.child i = before) (present : before ≠ .absent)
    (living : before ≠ .reaped) (stays : pc ≠ .absent)
    (closes : writers + before.writes = s.writers + pc.writes) (order : pc.writes ≤ before.writes)
    (printed : Phase args[i] pc (output.count (.finished i)))
    (frame : ∀ j, j ≠ i → output.count (.finished j) = s.output.count (.finished j))
    (ordered : Ordered output s.main.announced) :
    Inv args { s.set i pc with writers := writers, output := output } := by
  have change := sum_set s i pc ChildPc.writes
  have total := inv.writers
  subst at_
  refine {
    forked := fun k at_ => ⟨(inv.forked k at_).1, forall_set (p := fun j pc => pc = .absent ↔ k ≤ j) ?_
      fun j _ => (inv.forked k at_).2 j⟩
    present := fun forked running => forall_set (p := fun _ pc => pc ≠ .absent) stays
      fun j _ => inv.present forked running j
    writers := ?_
    printed := forall_set (p := fun j pc => Phase args[j] pc (output.count (.finished j))) printed
      fun j other => by rw [frame j other]; exact inv.printed j
    awake := fun awake => forall_set (p := fun _ pc => pc.writes = 0) ?_
      fun j _ => inv.awake awake j
    ordered := ordered
    exited := fun at_ => absurd (inv.exited at_ i) living }
  · rw [← (inv.forked k at_).2 i]
    exact iff_of_false stays present
  · show writers = s.main.writes + ∑ j, ((s.set i pc).child j).writes
    omega
  · have closed := inv.awake awake i
    omega

/-- A child goes on and writes nothing. -/
theorem inv_quiet (inv : Inv args s) {before pc : ChildPc} {writers : Nat}
    (at_ : s.child i = before) (present : before ≠ .absent) (living : before ≠ .reaped)
    (stays : pc ≠ .absent) (closes : writers + before.writes = s.writers + pc.writes)
    (order : pc.writes ≤ before.writes)
    (printed : Phase args[i] pc (s.output.count (.finished i))) :
    Inv args { s.set i pc with writers := writers } :=
  inv_child inv at_ present living stays closes order printed (fun _ _ => rfl) inv.ordered

theorem some_writer (inv : Inv args s) (writes : (s.child i).writes = 1) : 1 ≤ s.writers := by
  have one := Finset.single_le_sum (f := fun j => (s.child j).writes) (fun j _ => Nat.zero_le _)
    (Finset.mem_univ i)
  have total := inv.writers
  omega

theorem announced_awake {main : MainPc} (announced : main.announced = true) : main.awake = true := by
  cases main <;> first | rfl | cases announced

/-- A child that still has the write end open writes before the last line. -/
theorem ordered_printf (inv : Inv args s) (writes : (s.child i).writes = 1) :
    Ordered (s.output ++ [.finished i]) s.main.announced := by
  have ordered := inv.ordered
  cases announced : s.main.announced with
  | true =>
    have closed := inv.awake (announced_awake announced) i
    omega
  | false =>
    rw [announced] at ordered
    intro member
    rcases List.mem_append.mp member with earlier | last
    · exact ordered earlier
    · cases List.mem_singleton.mp last

theorem inv_printf (inv : Inv args s) (at_ : s.child i = .printf) :
    Inv args { s.set i .closeWrite with output := s.output ++ [.finished i] } := by
  have printed := inv.printed i
  rw [at_] at printed
  obtain ⟨owed, zero⟩ := printed
  refine inv_child inv at_ nofun nofun nofun rfl (Nat.le_refl _) ⟨owed, ?_⟩ (fun j other => ?_)
    (ordered_printf inv (by rw [at_]; rfl))
  · rw [List.count_append, zero, List.count_singleton_self]
  · rw [List.count_append, List.count_singleton, if_neg, Nat.add_zero]
    intro same
    rw [beq_iff_eq] at same
    exact other (Message.finished.inj same).symm

theorem inv_stepChild (inv : Inv args s) (h : stepChild args s i = some t) : Inv args t := by
  have printed := inv.printed i
  unfold stepChild at h
  split at h
  · rename_i at_
    rw [at_] at printed
    cases h
    exact inv_quiet inv at_ nofun nofun nofun rfl (Nat.le_refl _) printed
  · rename_i at_
    rw [at_] at printed
    have zero : s.output.count (.finished i) = 0 := printed
    have open_ := some_writer (i := i) inv (by rw [at_]; rfl)
    split at h
    · rename_i bad
      cases h
      refine inv_quiet inv at_ nofun nofun nofun (Nat.sub_add_cancel open_) (Nat.zero_le _) ?_
      show s.output.count (.finished i) = due args[i]
      rw [zero, due, if_pos bad]
    · rename_i good
      cases h
      refine inv_quiet inv at_ nofun nofun nofun rfl (Nat.le_refl _) ⟨?_, zero⟩
      rw [due, good]
      rfl
  · rename_i at_
    rw [at_] at printed
    cases h
    exact inv_quiet inv at_ nofun nofun nofun rfl (Nat.le_refl _) printed
  · rename_i at_
    cases h
    exact inv_printf inv at_
  · rename_i at_
    rw [at_] at printed
    have open_ := some_writer (i := i) inv (by rw [at_]; rfl)
    cases h
    exact inv_quiet inv at_ nofun nofun nofun (Nat.sub_add_cancel open_) (Nat.zero_le _) printed
  · rename_i at_
    rw [at_] at printed
    cases h
    exact inv_quiet inv at_ nofun nofun nofun rfl (Nat.le_refl _) (printed.2.trans printed.1.symm)
  all_goals cases h

/-- A step of `main` that creates no child. -/
theorem inv_main (inv : Inv args s) {main : MainPc} {writers : Nat}
    {output : List (Message args.length)} (forked : ∀ k, main ≠ .fork k)
    (present : main ≠ .failed → ∀ i, s.child i ≠ .absent)
    (closes : writers + s.main.writes = s.writers + main.writes)
    (frame : ∀ j, output.count (.finished j) = s.output.count (.finished j))
    (awake : main.awake → ∀ i, (s.child i).writes = 0) (ordered : Ordered output main.announced)
    (exited : main = .exited → ∀ i, s.child i = .reaped) :
    Inv args { s with main := main, writers := writers, output := output } where
  forked := fun k at_ => absurd at_ (forked k)
  present := fun _ running => present running
  writers := by
    have total := inv.writers
    show writers = main.writes + ∑ i, (s.child i).writes
    omega
  printed := fun i => by
    rw [frame i]
    exact inv.printed i
  awake := awake
  ordered := ordered
  exited := exited

theorem inv_fork (inv : Inv args s) {k : Nat} (at_ : s.main = .fork k) (more : k < args.length) :
    Inv args { s.set ⟨k, more⟩ .closeRead with main := .fork (k + 1), writers := s.writers + 1 } := by
  obtain ⟨_, absent⟩ := inv.forked k at_
  have fresh : s.child ⟨k, more⟩ = .absent := (absent _).mpr (Nat.le_refl k)
  have change := sum_set s ⟨k, more⟩ .closeRead ChildPc.writes
  rw [fresh] at change
  have change : ∑ j, ((s.set ⟨k, more⟩ .closeRead).child j).writes + 0 =
    ∑ j, (s.child j).writes + 1 := change
  have total := inv.writers
  rw [at_] at total
  have printed : Phase args[k] .closeRead (s.output.count (.finished ⟨k, more⟩)) := by
    have before := inv.printed ⟨k, more⟩
    rw [fresh] at before
    exact before
  have ordered := inv.ordered
  rw [at_] at ordered
  refine {
    forked := ?_
    present := fun forked => absurd rfl (forked (k + 1))
    writers := ?_
    printed := forall_set
      (p := fun j pc => Phase args[j] pc (s.output.count (.finished j))) printed
      fun j _ => inv.printed j
    awake := nofun
    ordered := ordered
    exited := nofun }
  · rintro _ ⟨⟩
    refine ⟨more, forall_set (p := fun j pc => pc = .absent ↔ k + 1 ≤ j) ?_ fun j other => ?_⟩
    · exact iff_of_false nofun (Nat.not_succ_le_self k)
    · rw [absent j]
      have different : j.1 ≠ k := fun same => other (Fin.ext same)
      omega
  · show s.writers + 1 = 1 + ∑ j, ((s.set ⟨k, more⟩ .closeRead).child j).writes
    have total : s.writers = 1 + ∑ j, (s.child j).writes := total
    omega

/-- All children are forked, and `main` closes its own end for writing. -/
theorem inv_allForked (inv : Inv args s) {k : Nat} (at_ : s.main = .fork k) (all : ¬ k < args.length) :
    Inv args { s with main := .closeWrite } := by
  have ordered := inv.ordered
  rw [at_] at ordered
  obtain ⟨_, absent⟩ := inv.forked k at_
  refine inv_main inv nofun (fun _ i none => ?_) (by rw [at_]; rfl) (fun _ => rfl) nofun ordered nofun
  have below := (absent i).mp none
  have inside := i.2
  omega

theorem inv_closeWrite (inv : Inv args s) (at_ : s.main = .closeWrite) :
    Inv args { s with main := .waiting, writers := s.writers - 1 } := by
  have total := inv.writers
  have ordered := inv.ordered
  rw [at_] at ordered total
  have present := inv.present (by rw [at_]; nofun) (by rw [at_]; nofun)
  refine inv_main inv nofun (fun _ => present) ?_ (fun _ => rfl) nofun ordered nofun
  rw [at_]
  have total : s.writers = 1 + ∑ i, (s.child i).writes := total
  show s.writers - 1 + 1 = s.writers + 0
  omega

theorem inv_waiting (inv : Inv args s) (at_ : s.main = .waiting) :
    Inv args { s with main := .read, output := s.output ++ [.waiting] } := by
  have ordered := inv.ordered
  rw [at_] at ordered
  have present := inv.present (by rw [at_]; nofun) (by rw [at_]; nofun)
  refine inv_main inv nofun (fun _ => present) (by rw [at_]; rfl) (fun j => ?_) nofun ?_ nofun
  · rw [List.count_append, List.count_singleton, if_neg (by nofun), Nat.add_zero]
  · intro member
    rcases List.mem_append.mp member with earlier | last
    · exact ordered earlier
    · cases List.mem_singleton.mp last

/-- The read returns when no end for writing is left, and so no child holds one. -/
theorem inv_read (inv : Inv args s) (at_ : s.main = .read) (closed : s.writers = 0) :
    Inv args { s with main := .woke } := by
  have total := inv.writers
  have ordered := inv.ordered
  rw [at_] at ordered total
  have present := inv.present (by rw [at_]; nofun) (by rw [at_]; nofun)
  refine inv_main inv nofun (fun _ => present) (by rw [at_]; rfl) (fun _ => rfl) (fun _ i => ?_)
    ordered nofun
  have total : s.writers = 0 + ∑ i, (s.child i).writes := total
  rw [closed, Nat.zero_add] at total
  exact Finset.sum_eq_zero_iff.mp total.symm i (Finset.mem_univ i)

theorem inv_woke (inv : Inv args s) (at_ : s.main = .woke) :
    Inv args { s with main := .waitpid, output := s.output ++ [.woke] } := by
  have ordered := inv.ordered
  rw [at_] at ordered
  have present := inv.present (by rw [at_]; nofun) (by rw [at_]; nofun)
  refine inv_main inv nofun (fun _ => present) (by rw [at_]; rfl) (fun j => ?_)
    (fun _ => inv.awake (by rw [at_]; rfl)) ⟨s.output, rfl, ordered⟩ nofun
  rw [List.count_append, List.count_singleton, if_neg (by nofun), Nat.add_zero]

theorem inv_waitpid (inv : Inv args s) (at_ : s.main = .waitpid)
    (all : ∀ i, s.child i = .absent ∨ s.child i = .reaped) : Inv args { s with main := .exited } := by
  have ordered := inv.ordered
  rw [at_] at ordered
  have present := inv.present (by rw [at_]; nofun) (by rw [at_]; nofun)
  exact inv_main inv nofun (fun _ => present) (by rw [at_]; rfl) (fun _ => rfl)
    (fun _ => inv.awake (by rw [at_]; rfl)) ordered fun _ i => (all i).resolve_left (present i)

theorem inv_stepMain (inv : Inv args s) (h : stepMain s = some t) : Inv args t := by
  unfold stepMain at h
  split at h
  · rename_i k at_
    split at h
    · rename_i more
      cases h
      exact inv_fork inv at_ more
    · rename_i all
      cases h
      exact inv_allForked inv at_ all
  · rename_i at_
    cases h
    exact inv_closeWrite inv at_
  · rename_i at_
    cases h
    exact inv_waiting inv at_
  · rename_i at_
    split at h
    · rename_i closed
      cases h
      exact inv_read inv at_ closed
    · cases h
  · rename_i at_
    cases h
    exact inv_woke inv at_
  · rename_i at_
    split at h
    · rename_i all
      cases h
      exact inv_waitpid inv at_ all
    · cases h
  · cases h
  · cases h

theorem inv_step (s : State args.length) (e : Event args.length) (t : State args.length)
    (inv : Inv args s) (h : step args s e = some t) : Inv args t := by
  cases e with
  | main => exact inv_stepMain inv h
  | forkFails =>
    have total := inv.writers
    have ordered := inv.ordered
    rw [step] at h
    split at h
    · rename_i k at_
      rw [at_] at total ordered
      split at h
      · cases h
        refine inv_main inv nofun (fun running => absurd rfl running) ?_ (fun _ => rfl) nofun ordered nofun
        rw [at_]
        have total : s.writers = 1 + ∑ i, (s.child i).writes := total
        show s.writers - 1 + 1 = s.writers + 0
        omega
      · cases h
    all_goals cases h
  | child i => exact inv_stepChild inv h
  | reap i =>
    rw [step] at h
    split at h
    · rename_i found
      obtain ⟨_, at_⟩ := found
      have printed := inv.printed i
      rw [at_] at printed
      cases h
      exact inv_quiet inv at_ nofun nofun nofun rfl (Nat.le_refl _) printed
    · cases h

/-! ### Every run ends -/

def ChildPc.ahead : ChildPc → Nat
  | .absent => 8
  | .closeRead => 7
  | .getNum => 6
  | .sleep => 5
  | .printf => 4
  | .closeWrite => 3
  | .exit => 2
  | .terminated => 1
  | .reaped => 0

def MainPc.ahead : MainPc → Nat
  | .fork _ => 6
  | .closeWrite => 5
  | .waiting => 4
  | .read => 3
  | .woke => 2
  | .waitpid => 1
  | .exited | .failed => 0

/-- The steps that may still be made. -/
def State.ahead (s : State args.length) : Nat := ∑ i, (s.child i).ahead + s.main.ahead

theorem ahead_child {before pc : ChildPc} {main : MainPc} {writers : Nat}
    {output : List (Message args.length)} (at_ : s.child i = before)
    (less : pc.ahead + main.ahead < before.ahead + s.main.ahead) :
    ({ s.set i pc with main := main, writers := writers, output := output } :
      State args.length).ahead < s.ahead := by
  have change := sum_set s i pc ChildPc.ahead
  rw [at_] at change
  show ∑ j, ((s.set i pc).child j).ahead + main.ahead < s.ahead
  unfold State.ahead
  omega

theorem ahead_main {before main : MainPc} {writers : Nat} {output : List (Message args.length)}
    (at_ : s.main = before) (less : main.ahead < before.ahead) :
    ({ s with main := main, writers := writers, output := output } : State args.length).ahead <
      s.ahead := by
  subst at_
  exact Nat.add_lt_add_left less _

theorem ahead_stepChild (h : stepChild args s i = some t) : t.ahead < s.ahead := by
  unfold stepChild at h
  split at h
  case h_2 at_ =>
    split at h
    · cases h
      exact ahead_child at_ (Nat.add_lt_add_right (by decide) _)
    · cases h
      exact ahead_child at_ (Nat.add_lt_add_right (by decide) _)
  case h_1 at_ | h_3 at_ | h_4 at_ | h_5 at_ | h_6 at_ =>
    cases h
    exact ahead_child at_ (Nat.add_lt_add_right (by decide) _)
  all_goals cases h

theorem ahead_stepMain (inv : Inv args s) (h : stepMain s = some t) : t.ahead < s.ahead := by
  unfold stepMain at h
  split at h
  case h_1 k at_ =>
    split at h
    · rename_i more
      cases h
      have fresh := ((inv.forked k at_).2 ⟨k, more⟩).mpr (Nat.le_refl k)
      exact ahead_child fresh (by rw [at_]; exact Nat.lt_succ_self _)
    · cases h
      exact ahead_main at_ (Nat.lt_succ_self 5)
  case h_4 at_ | h_6 at_ =>
    split at h
    · cases h
      exact ahead_main at_ (by decide)
    · cases h
  case h_2 at_ | h_3 at_ | h_5 at_ =>
    cases h
    exact ahead_main at_ (by decide)
  all_goals cases h

theorem ahead_step (s : State args.length) (e : Event args.length) (t : State args.length)
    (inv : Inv args s) (h : step args s e = some t) : t.ahead < s.ahead := by
  cases e with
  | main => exact ahead_stepMain inv h
  | forkFails =>
    rw [step] at h
    split at h
    · rename_i k at_
      split at h
      · cases h
        exact ahead_main at_ (Nat.zero_lt_succ 5)
      · cases h
    all_goals cases h
  | child i => exact ahead_stepChild h
  | reap i =>
    rw [step] at h
    split at h
    · rename_i found
      cases h
      exact ahead_child found.2 (Nat.add_lt_add_right (by decide) _)
    · cases h

theorem ahead_start (args : Args) : (start args).ahead ≤ 8 * args.length + 6 := by
  have all : ∑ i, ((start args).child i).ahead = 8 * args.length := by
    simp [start, ChildPc.ahead, Nat.mul_comm]
  have main : (start args).main.ahead ≤ 6 := by
    rcases start_main args with ⟨main, _⟩ | ⟨main, _⟩ <;> rw [main] <;> decide
  unfold State.ahead
  rw [all]
  exact Nat.add_le_add_left main _

/-! ### Where no step is possible -/

/-- It makes no more steps of its own. -/
def ChildPc.still : ChildPc → Bool
  | .absent | .terminated | .reaped => true
  | .closeRead | .getNum | .sleep | .printf | .closeWrite | .exit => false

theorem stepChild_still (args : Args) (s : State args.length) (i : Fin args.length) :
    stepChild args s i = none ↔ (s.child i).still = true := by
  unfold stepChild
  split
  · rename_i at_
    rw [at_]
    exact iff_of_false nofun nofun
  · rename_i at_
    rw [at_]
    refine iff_of_false ?_ nofun
    split <;> nofun
  · rename_i at_
    rw [at_]
    exact iff_of_false nofun nofun
  · rename_i at_
    rw [at_]
    exact iff_of_false nofun nofun
  · rename_i at_
    rw [at_]
    exact iff_of_false nofun nofun
  · rename_i at_
    rw [at_]
    exact iff_of_false nofun nofun
  all_goals
    rename_i at_
    rw [at_]
    exact iff_of_true rfl rfl

theorem still_closed {pc : ChildPc} (still : pc.still = true) : pc.writes = 0 := by
  cases pc <;> first | rfl | cases still

theorem stuck_main (inv : Inv args s) (none : ∀ e, step args s e = none) :
    s.main = .exited ∨ s.main = .failed := by
  have still (i : Fin args.length) := (stepChild_still args s i).mp (none (.child i))
  have main : stepMain s = .none := none .main
  unfold stepMain at main
  split at main
  · split at main <;> cases main
  · cases main
  · cases main
  · rename_i at_
    have total := inv.writers
    rw [at_, Finset.sum_eq_zero fun i _ => still_closed (still i)] at total
    have closed : s.writers = 0 := total
    rw [if_pos closed] at main
    cases main
  · cases main
  · rename_i at_
    split at main
    · cases main
    · rename_i some_left
      rw [not_forall] at some_left
      obtain ⟨i, left⟩ := some_left
      rw [not_or] at left
      have terminated : s.child i = .terminated := by
        have place := still i
        cases here : s.child i with
        | terminated => rfl
        | absent => exact absurd here left.1
        | reaped => exact absurd here left.2
        | closeRead | getNum | sleep | printf | closeWrite | exit =>
          rw [here] at place
          cases place
      have reap : (if s.main = .waitpid ∧ s.child i = .terminated then some (s.set i .reaped)
        else .none) = .none := none (.reap i)
      rw [if_pos ⟨at_, terminated⟩] at reap
      cases reap
  · rename_i at_
    exact Or.inl at_
  · rename_i at_
    exact Or.inr at_

theorem stuck_iff (inv : Inv args s) : (∀ e, step args s e = none) ↔
    (s.main = .exited ∨ s.main = .failed) ∧ ∀ i, (s.child i).still = true := by
  refine ⟨fun none => ⟨stuck_main inv none, fun i => (stepChild_still args s i).mp (none (.child i))⟩, ?_⟩
  rintro ⟨ended, still⟩ e
  cases e with
  | main =>
    show stepMain s = none
    unfold stepMain
    rcases ended with at_ | at_ <;> rw [at_]
  | forkFails =>
    rw [step]
    rcases ended with at_ | at_ <;> rw [at_]
  | child i => exact (stepChild_still args s i).mpr (still i)
  | reap i =>
    refine if_neg fun found => ?_
    rcases ended with at_ | at_ <;> cases at_.symm.trans found.1

/-- The last line comes behind all others. -/
theorem woke_last (inv : Inv args s) (woke : .woke ∈ s.output) : ∃ before,
    s.output = before ++ [.woke] ∧ ∀ i, before.count (.finished i) = due (args.get i) := by
  have ordered := inv.ordered
  cases announced : s.main.announced with
  | false =>
    rw [announced] at ordered
    exact absurd woke ordered
  | true =>
    rw [announced] at ordered
    obtain ⟨before, output, _⟩ := ordered
    refine ⟨before, output, fun i => ?_⟩
    have closed := inv.awake (announced_awake announced) i
    have printed := inv.printed i
    have present := inv.present (fun k at_ => by rw [at_] at announced; cases announced)
      (fun at_ => by rw [at_] at announced; cases announced) i
    have lines : s.output.count (.finished i) = before.count (.finished i) := by
      rw [output, List.count_append, List.count_singleton, if_neg (by simp), Nat.add_zero]
    rw [← lines]
    cases here : s.child i with
    | absent => exact absurd here present
    | closeRead | getNum | sleep | printf | closeWrite =>
      rw [here] at closed
      cases closed
    | exit =>
      rw [here] at printed
      exact printed.2.trans printed.1.symm
    | terminated | reaped =>
      rw [here] at printed
      exact printed

theorem exited_all (inv : Inv args s) (at_ : s.main = .exited) :
    .woke ∈ s.output ∧ ∀ i, s.child i = .reaped := by
  have ordered := inv.ordered
  rw [at_] at ordered
  obtain ⟨before, output, _⟩ := ordered
  refine ⟨?_, inv.exited at_⟩
  rw [output]
  exact List.mem_append_right _ List.mem_cons_self

end Steps

/-- In every order of steps the line of the parent comes behind the lines of all children: one for each
whose argument is a number, and it comes although the others write none. A run comes to an end, and where
`main` has not failed it has exited with every child waited for. -/
theorem parent_waits {args : Args} {events : List (Event args.length)} {s : State args.length}
    (run : events.foldlM (step args) (start args) = some s) :
    (.woke ∈ s.output → ∃ before, s.output = before ++ [.woke] ∧
      ∀ i, before.count (.finished i) = if Utils.getNum (args.get i) = none then 0 else 1) ∧
    (s.main = .exited → .woke ∈ s.output ∧ ∀ i, s.child i = .reaped) ∧
    events.length ≤ 8 * args.length + 6 ∧
    ((∀ e, step args s e = none) ↔
      (s.main = .exited ∨ s.main = .failed) ∧ ∀ i, (s.child i).still = true) := by
  obtain ⟨inv, ahead⟩ := run_falls (I := Inv args) (m := State.ahead)
    (fun s e t inv h => ⟨inv_step s e t inv h, ahead_step s e t inv h⟩) (inv_start args) run
  have begun := ahead_start args
  exact ⟨woke_last inv, exited_all inv, by omega, stuck_iff inv⟩

/-- Two children, of which one has a bad argument. -/
theorem parent_waits_sample :
    let args : Args := [[49], [120]]
    ∃ s : State args.length, .woke ∈ s.output ∧ ∃ before, s.output = before ++ [.woke] ∧
      ∀ i, before.count (.finished i) = if Utils.getNum (args.get i) = none then 0 else 1 := by
  intro args
  obtain ⟨s, run, woke⟩ : ∃ s : State args.length,
      ([.main, .child 0, .main, .child 1, .main, .child 1, .main, .main, .child 0, .child 0, .child 0,
        .child 0, .main, .main] : List (Event 2)).foldlM (step args) (start args) = some s ∧
        .woke ∈ s.output := ⟨_, rfl, by decide⟩
  exact ⟨s, woke, (parent_waits run).1 woke⟩

end Tlpi.PipeSync
