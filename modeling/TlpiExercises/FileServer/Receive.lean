import TlpiExercises.FileServer.Server

/-!
# The requests that get a child

The loop tests `errno` and not what `mq_receive` has returned. A success leaves `errno` as it was,
so that after one interrupted receive every request is taken for another one.
-/

namespace Tlpi.FileServer

/-- The request that a turn has received before a quit request. -/
def Turn.delivered (t : Turn) : Option (List UInt8) :=
  match t.calls.receive with
  | .message bytes => if t.calls.quitReq then none else some bytes
  | .failed _ => none

/-- The request that it has forked a child for, before a quit request. -/
def Turn.handed (t : Turn) : Option (List UInt8) := if t.calls.quitReq then none else t.result.child

/-- Each request that was received has been handed to one child, in order. -/
def AllServed (ts : List Turn) : Prop := ts.filterMap Turn.handed = ts.filterMap Turn.delivered

/-- No request is received after an interrupted receive, and every fork succeeds. -/
def Undisturbed (ts : List Turn) : Prop :=
  ts.Pairwise (fun a b => a.calls.receive = .failed EINTR → b.delivered = none) ∧
    ∀ t ∈ ts, t.delivered ≠ none → t.calls.fork = none

theorem turn_handed (t : Turn) :
    t.handed = if t.errno ≠ EINTR ∧ t.calls.fork = none then t.delivered else none := by
  unfold Turn.handed Turn.delivered Turn.result iteration
  cases t.calls.quitReq with
  | true => cases t.calls.receive <;> simp
  | false =>
    cases t.calls.receive with
    | message bytes =>
      by_cases interrupted : t.errno = EINTR
      · simp [interrupted]
      · cases t.calls.fork <;> simp [interrupted]
    | failed e =>
      dsimp only
      split_ifs <;> simp

theorem handed_length (ts : List Turn) :
    (ts.filterMap Turn.handed).length ≤ (ts.filterMap Turn.delivered).length := by
  induction ts with
  | nil => exact Nat.le_refl _
  | cons t rest ih =>
    rw [List.filterMap_cons, List.filterMap_cons, turn_handed]
    split_ifs
    · cases t.delivered with
      | none => exact ih
      | some bytes => exact Nat.succ_le_succ ih
    · cases t.delivered with
      | none => exact ih
      | some bytes => exact Nat.le_succ_of_le ih

/-- Nothing is made up for: a request that is dropped leaves the children one too few. -/
theorem allServed_iff (ts : List Turn) :
    AllServed ts ↔ ∀ t ∈ ts, t.delivered ≠ none → t.errno ≠ EINTR ∧ t.calls.fork = none := by
  unfold AllServed
  induction ts with
  | nil => simp
  | cons t rest ih =>
    rw [List.forall_mem_cons, ← ih, List.filterMap_cons, List.filterMap_cons, turn_handed]
    cases delivered : t.delivered with
    | none => simp
    | some bytes =>
      by_cases served : t.errno ≠ EINTR ∧ t.calls.fork = none
      · simp [served]
      · have fewer := handed_length rest
        rw [if_neg served]
        refine iff_of_false (fun same => ?_) (fun all => served (all.1 (by simp)))
        have lengths : (rest.filterMap Turn.handed).length =
            (rest.filterMap Turn.delivered).length + 1 := congrArg List.length same
        omega

theorem iteration_errno {errno : Nat} {calls : Calls}
    (continues : (iteration errno calls).continues = true) :
    (iteration errno calls).errno = EINTR ↔
      errno = EINTR ∧ calls.receive ≠ .failed EINTR ∨ calls.receive = .failed EINTR := by
  revert continues
  unfold iteration
  cases calls.receive with
  | message bytes =>
    by_cases interrupted : errno = EINTR
    · simp [interrupted]
    · cases calls.fork <;> simp [interrupted]
  | failed e =>
    by_cases interrupted : e = EINTR
    · simp [interrupted]
    · simp [interrupted]

/-- `errno` says for the rest of the run that a receive was interrupted. -/
theorem turns_errno (errno : Nat) (run : List Calls) :
    (∀ t ∈ turns errno run, t.delivered ≠ none → t.errno ≠ EINTR) ↔
      (errno = EINTR → ∀ t ∈ turns errno run, t.delivered = none) ∧
        (turns errno run).Pairwise
          (fun a b => a.calls.receive = .failed EINTR → b.delivered = none) := by
  induction run generalizing errno with
  | nil => simp [turns]
  | cons calls rest ih =>
    rw [turns]
    cases continues : (iteration errno calls).continues with
    | false =>
      simp only [Bool.false_eq_true, if_false, List.forall_mem_cons, List.pairwise_singleton,
        List.not_mem_nil, false_implies, implies_true, and_true]
      exact ⟨fun h interrupted => by_contra fun delivered => h delivered interrupted,
        fun h delivered interrupted => delivered (h interrupted)⟩
    | true =>
      simp only [if_true, List.forall_mem_cons, List.pairwise_cons]
      rw [ih, iteration_errno continues]
      tauto

/-- In every run, each request received before a quit request is handed to one child exactly when
no request comes after an interrupted receive. -/
theorem requests_served_iff (run : List Calls) :
    AllServed (turns 0 run) ↔ Undisturbed (turns 0 run) := by
  have history := turns_errno 0 run
  rw [allServed_iff]
  unfold Undisturbed
  constructor
  · intro served
    exact ⟨(history.mp fun t member delivered => (served t member delivered).1).2,
      fun t member delivered => (served t member delivered).2⟩
  · rintro ⟨undisturbed, forked⟩ t member delivered
    have fresh : 0 = EINTR → ∀ t ∈ turns 0 run, t.delivered = none := fun zero => absurd zero (by decide)
    exact ⟨history.mpr ⟨fresh, undisturbed⟩ t member delivered, forked t member delivered⟩

/-- An interrupted receive, and then a request. -/
theorem request_dropped : ¬ ∀ run : List Calls, (∀ calls ∈ run, calls.fork = none) →
    (∀ calls ∈ run, ∀ e, calls.receive = .failed e → e = EINTR) → AllServed (turns 0 run) := by
  intro all
  have served := all [⟨.failed EINTR, false, none⟩, ⟨.message [1], false, none⟩] (by simp) (by simp)
  exact absurd served (by simp [AllServed, turns, iteration, Turn.handed, Turn.delivered, Turn.result])

end Tlpi.FileServer
