import Mathlib.Data.List.TakeWhile

/-!
# Fields between separators

The maximal pieces without a separator, and what a scan from the left finds of them.
-/

namespace Fields

variable {β : Type*} [DecidableEq β] {sep : β}

section

variable (sep) (u : List β)

def fields : List (List β) := (u.splitOn sep).filter (· ≠ [])

/-- What stands before the first separator. -/
def before : List β := u.takeWhile (· ≠ sep)

/-- What goes on with the first separator. -/
def after : List β := u.dropWhile (· ≠ sep)

end

theorem before_sep (u : List β) : before sep (sep :: u) = [] :=
  List.takeWhile_cons_of_neg (by simp)

theorem before_cons {c : β} (other : c ≠ sep) (u : List β) : before sep (c :: u) = c :: before sep u :=
  List.takeWhile_cons_of_pos (decide_eq_true other)

theorem after_sep (u : List β) : after sep (sep :: u) = sep :: u :=
  List.dropWhile_cons_of_neg (by simp)

theorem after_cons {c : β} (other : c ≠ sep) (u : List β) : after sep (c :: u) = after sep u :=
  List.dropWhile_cons_of_pos (decide_eq_true other)

theorem before_append_after (u : List β) : before sep u ++ after sep u = u :=
  List.takeWhile_append_dropWhile

theorem before_append {u : List β} (free : sep ∉ u) (v : List β) : before sep (u ++ sep :: v) = u := by
  induction u with
  | nil => exact before_sep v
  | cons c u ih =>
    rw [List.mem_cons, not_or] at free
    rw [List.cons_append, before_cons (Ne.symm free.1), ih free.2]

theorem after_append {u : List β} (free : sep ∉ u) (v : List β) :
    after sep (u ++ sep :: v) = sep :: v := by
  induction u with
  | nil => exact after_sep v
  | cons c u ih =>
    rw [List.mem_cons, not_or] at free
    rw [List.cons_append, after_cons (Ne.symm free.1), ih free.2]

theorem before_eq_self {u : List β} (free : sep ∉ u) : before sep u = u :=
  List.takeWhile_eq_self_iff.mpr fun _ member => decide_eq_true fun same => free (same ▸ member)

theorem before_free (u : List β) : sep ∉ before sep u := by
  intro inside
  have other := List.mem_takeWhile_imp inside
  exact of_decide_eq_true other rfl

theorem after_head {u v : List β} {d : β} (left : after sep u = d :: v) : d = sep := by
  have stop := List.head?_dropWhile_not (· ≠ sep) u
  rw [show u.dropWhile (· ≠ sep) = d :: v from left] at stop
  exact not_not.mp (of_decide_eq_false stop)

theorem fields_nil : fields sep [] = [] := by
  unfold fields
  rw [List.splitOn_nil]
  rfl

theorem fields_sep (u : List β) : fields sep (sep :: u) = fields sep u := by
  have first := List.splitOn_append_cons_self (a := sep) [] u
  unfold fields
  rw [← List.nil_append (sep :: u), first, List.splitOn_nil]
  rfl

theorem fields_cons {c : β} (other : c ≠ sep) (u : List β) :
    fields sep (c :: u) = (c :: before sep u) :: fields sep (after sep u) := by
  have free : sep ∉ c :: before sep u :=
    List.not_mem_cons_of_ne_of_not_mem (Ne.symm other) (before_free u)
  have parts : c :: u = (c :: before sep u) ++ after sep u := by
    rw [List.cons_append, before_append_after]
  cases left : after sep u with
  | nil =>
    rw [left, List.append_nil] at parts
    rw [fields_nil, parts]
    unfold fields
    rw [List.splitOn_eq_singleton free]
    rfl
  | cons d v =>
    obtain rfl := after_head left
    rw [left] at parts
    rw [fields_sep, parts]
    unfold fields
    rw [List.splitOn_append_cons_self_of_not_mem free]
    rfl

/-- A scan may skip the separator at which it has stopped. -/
theorem fields_tail (u : List β) : fields sep (after sep u).tail = fields sep (after sep u) := by
  cases left : after sep u with
  | nil => rfl
  | cons d v =>
    rw [after_head left, fields_sep]
    rfl

/-- A scan may skip the separators that come first. -/
theorem fields_dropWhile (u : List β) : fields sep (u.dropWhile (· = sep)) = fields sep u := by
  induction u with
  | nil => rfl
  | cons c u ih =>
    by_cases same : c = sep
    · rw [List.dropWhile_cons, if_pos (decide_eq_true same), ih, same, fields_sep]
    · rw [List.dropWhile_cons, if_neg (fun h => same (of_decide_eq_true h))]

end Fields
