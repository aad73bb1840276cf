import Mathlib.Algebra.BigOperators.Group.Finset.Basic
import Mathlib.Data.Fintype.BigOperators
import Mathlib.Logic.Relation

/-!
# Interleavings

A system in which an event that is not possible now has no next state. Whoever is scheduled takes
the next step, so that what holds of every state is what every single event preserves.
-/

namespace Tlpi.Transitions

section Reachable

variable {S E : Type*} (step : S → E → Option S)

def Next (s t : S) : Prop := ∃ e, step s e = some t

def Leads : S → S → Prop := Relation.ReflTransGen (Next step)

variable {step}

theorem leads_invariant {I : S → Prop} (keeps : ∀ s e t, I s → step s e = some t → I t) {s t : S}
    (leads : Leads step s t) (start : I s) : I t := by
  induction leads with
  | refl => exact start
  | tail _ next inv =>
    obtain ⟨e, stepped⟩ := next
    exact keeps _ e _ inv stepped

theorem leads_step {s t u : S} (leads : Leads step s t) {e : E} (stepped : step t e = some u) :
    Leads step s u :=
  Relation.ReflTransGen.tail leads ⟨e, stepped⟩

theorem leads_events {s t : S} {events : List E} (run : events.foldlM step s = some t) :
    Leads step s t := by
  induction events generalizing s with
  | nil =>
    cases run
    exact Relation.ReflTransGen.refl
  | cons e rest ih =>
    rw [List.foldlM_cons, Option.bind_eq_bind, Option.bind_eq_some_iff] at run
    obtain ⟨u, stepped, run⟩ := run
    exact Relation.ReflTransGen.head ⟨e, stepped⟩ (ih run)

/-- What the steps that meet a condition preserve holds all along a run of such steps. -/
theorem run_invariant {I : S → Prop} {C : S → E → Prop}
    (keeps : ∀ s e t, I s → C s e → step s e = some t → I t) {s t : S} {before after : List E}
    (start : I s)
    (met : ∀ first e rest u, before ++ after = first ++ e :: rest → first.foldlM step s = some u → C u e)
    (run : before.foldlM step s = some t) : I t := by
  induction before generalizing s with
  | nil =>
    cases run
    exact start
  | cons e before ih =>
    rw [List.foldlM_cons, Option.bind_eq_bind, Option.bind_eq_some_iff] at run
    obtain ⟨u, stepped, run⟩ := run
    refine ih (keeps s e u start (met [] e (before ++ after) s rfl rfl) stepped) ?_ run
    intro first f rest v split reached
    refine met (e :: first) f rest v (congrArg (e :: ·) split) ?_
    rw [List.foldlM_cons, Option.bind_eq_bind, stepped]
    exact reached

/-- Where every step counts as one, a run is as long as the count says. -/
theorem run_counts {I : S → Prop} {m : S → Nat}
    (keeps : ∀ s e t, I s → step s e = some t → I t ∧ m t = m s + 1) {s t : S} {events : List E}
    (start : I s) (run : events.foldlM step s = some t) : I t ∧ m t = m s + events.length := by
  induction events generalizing s with
  | nil =>
    cases run
    exact ⟨start, rfl⟩
  | cons e rest ih =>
    rw [List.foldlM_cons, Option.bind_eq_bind, Option.bind_eq_some_iff] at run
    obtain ⟨u, stepped, run⟩ := run
    obtain ⟨kept, one⟩ := keeps s e u start stepped
    obtain ⟨kept, more⟩ := ih kept run
    refine ⟨kept, ?_⟩
    rw [more, one, List.length_cons]
    omega

/-- Where every step lowers a measure, a run is no longer than the measure says. -/
theorem run_falls {I : S → Prop} {m : S → Nat}
    (keeps : ∀ s e t, I s → step s e = some t → I t ∧ m t < m s) {s t : S} {events : List E}
    (start : I s) (run : events.foldlM step s = some t) : I t ∧ m t + events.length ≤ m s := by
  induction events generalizing s with
  | nil =>
    cases run
    exact ⟨start, Nat.le_refl _⟩
  | cons e rest ih =>
    rw [List.foldlM_cons, Option.bind_eq_bind, Option.bind_eq_some_iff] at run
    obtain ⟨u, stepped, run⟩ := run
    obtain ⟨kept, less⟩ := keeps s e u start stepped
    obtain ⟨kept, rest_less⟩ := ih kept run
    refine ⟨kept, ?_⟩
    rw [List.length_cons]
    omega

/-- An event that lowers a measure each time cannot go on for ever. -/
theorem settles {I : S → Prop} {m : S → Nat} {e : E}
    (keeps : ∀ s t, I s → step s e = some t → I t ∧ m t < m s) {s : S} (start : I s) :
    ∃ k ≤ m s, ∃ t, (List.replicate k e).foldlM step s = some t ∧ I t ∧ step t e = none := by
  induction bound : m s using Nat.strong_induction_on generalizing s with
  | _ n ih =>
    cases stepped : step s e with
    | none => exact ⟨0, Nat.zero_le n, s, rfl, start, stepped⟩
    | some u =>
      obtain ⟨kept, less⟩ := keeps s u start stepped
      obtain ⟨k, few, t, run, settled⟩ := ih (m u) (by omega) kept rfl
      refine ⟨k + 1, by omega, t, ?_, settled⟩
      rw [List.replicate_succ, List.foldlM_cons, stepped]
      exact run

end Reachable

section Parties

variable {ι M : Type*} [Fintype ι] [DecidableEq ι] [AddCommMonoid M]

/-- When one party moves, a sum over all of them changes by that party's term. -/
theorem sum_change {f g : ι → M} (i : ι) (others : ∀ j, j ≠ i → f j = g j) :
    ∑ j, f j + g i = ∑ j, g j + f i := by
  have frame : ∑ j ∈ Finset.univ.erase i, f j = ∑ j ∈ Finset.univ.erase i, g j :=
    Finset.sum_congr rfl fun j other => others j (Finset.ne_of_mem_erase other)
  have here : i ∈ Finset.univ := Finset.mem_univ i
  rw [← Finset.add_sum_erase _ f here, ← Finset.add_sum_erase _ g here, frame]
  ac_rfl

theorem sum_update {α : Type*} (f : ι → α) (i : ι) (a : α) (g : α → M) :
    ∑ j, g (Function.update f i a j) + g (f i) = ∑ j, g (f j) + g a := by
  have change := sum_change (f := fun j => g (Function.update f i a j)) (g := fun j => g (f j)) i
    fun j other => congrArg g (Function.update_of_ne other ..)
  rw [Function.update_self] at change
  exact change

end Parties

end Tlpi.Transitions
