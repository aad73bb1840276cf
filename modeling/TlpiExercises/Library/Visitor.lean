import Mathlib.Data.List.Basic

/-!
# Visiting a list

A visitor keeps a state, and after each element it can ask to stop.
-/

namespace Visitor

variable {S V : Type*} (visit : S → V → Bool × S)

/-- The elements that are visited: up to and with the first at which the visitor stops. -/
def visits : S → List V → List V
  | _, [] => []
  | s, v :: rest => v :: if (visit s v).1 then [] else visits (visit s v).2 rest

def after : S → List V → S
  | s, [] => s
  | s, v :: rest => if (visit s v).1 then (visit s v).2 else after (visit s v).2 rest

def stopped : S → List V → Bool
  | _, [] => false
  | s, v :: rest => (visit s v).1 || stopped (visit s v).2 rest

variable {visit} {s : S} {v : V} {first rest : List V}

theorem visits_all (goes_on : stopped visit s first = false) : visits visit s first = first := by
  induction first generalizing s with
  | nil => rfl
  | cons v first ih =>
    obtain ⟨here, later⟩ := Bool.or_eq_false_iff.mp goes_on
    rw [visits, here, ih later]
    rfl

theorem append_stopped (rest : List V) (stops : stopped visit s first = true) :
    visits visit s (first ++ rest) = visits visit s first ∧
      after visit s (first ++ rest) = after visit s first ∧
      stopped visit s (first ++ rest) = true := by
  induction first generalizing s with
  | nil => cases stops
  | cons v first ih =>
    rw [List.cons_append, visits, visits, after, after, stopped]
    cases here : (visit s v).1 with
    | true => exact ⟨rfl, rfl, rfl⟩
    | false =>
      rw [stopped, here, Bool.false_or] at stops
      obtain ⟨same_visits, same_after, same_stop⟩ := ih stops
      simp only [Bool.false_eq_true, if_false, same_visits, same_after, same_stop, Bool.or_true,
        and_self]

theorem append_goes_on (rest : List V) (goes_on : stopped visit s first = false) :
    visits visit s (first ++ rest) = first ++ visits visit (after visit s first) rest ∧
      after visit s (first ++ rest) = after visit (after visit s first) rest ∧
      stopped visit s (first ++ rest) = stopped visit (after visit s first) rest := by
  induction first generalizing s with
  | nil => exact ⟨rfl, rfl, rfl⟩
  | cons v first ih =>
    obtain ⟨here, later⟩ := Bool.or_eq_false_iff.mp goes_on
    obtain ⟨same_visits, same_after, same_stop⟩ := ih later
    rw [List.cons_append, visits, after, after, stopped, here]
    simp only [Bool.false_eq_true, if_false, same_visits, same_after, same_stop, Bool.false_or,
      List.cons_append, and_self]

end Visitor
