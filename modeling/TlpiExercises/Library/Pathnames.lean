import Mathlib.Data.List.DropRight

/-!
# Pathnames as strings

The names between the separators of a string, the string of a list of names, and the two parts that
`dirname` and `basename` cut a string into.
-/

namespace Pathnames

variable {β : Type*} [DecidableEq β] (sep : β)

/-- The names of a string; any number of separators may stand around each. -/
def names : List β → List (List β)
  | [] => []
  | c :: u =>
    if c = sep then names u
    else if u.head?.all (· = sep) then [c] :: names u
    else
      match names u with
      | [] => [[c]]
      | n :: rest => (c :: n) :: rest

/-- The string with each name behind a single separator. -/
def render (l : List (List β)) : List β := if l = [] then [sep] else l.flatMap (sep :: ·)

/-- The string without its last name, and without the separators around it. -/
def dirPart (s : List β) : List β := (s.rdropWhile (· ≠ sep)).rdropWhile (· = sep)

def basePart (s : List β) : List β := s.rtakeWhile (· ≠ sep)

variable {sep} {s u w n : List β}

theorem names_ne_nil {c : β} (other : c ≠ sep) : names sep (c :: u) ≠ [] := by
  rw [names, if_neg other]
  split
  · exact List.cons_ne_nil _ _
  · split <;> exact List.cons_ne_nil _ _

theorem names_append_sep : names sep (u ++ sep :: w) = names sep u ++ names sep w := by
  induction u with
  | nil =>
    rw [List.nil_append, names, names, if_pos rfl]
    rfl
  | cons c u ih =>
    rw [List.cons_append, names, names, ih]
    by_cases here : c = sep
    · rw [if_pos here, if_pos here]
    rw [if_neg here, if_neg here]
    cases u with
    | nil => simp [names]
    | cons d u =>
      rw [List.cons_append, List.head?_cons, List.head?_cons]
      by_cases last : d = sep
      · simp [last]
      · have some_name := names_ne_nil (u := u) last
        cases found : names sep (d :: u) with
        | nil => exact absurd found some_name
        | cons n rest => simp [last]

theorem names_free (free : sep ∉ n) (nonempty : n ≠ []) : names sep n = [n] := by
  induction n with
  | nil => exact absurd rfl nonempty
  | cons c u ih =>
    rw [List.mem_cons, not_or] at free
    rw [names, if_neg (Ne.symm free.1)]
    cases u with
    | nil => rfl
    | cons d u =>
      have other : d ≠ sep := by
        rintro rfl
        exact free.2 List.mem_cons_self
      rw [ih free.2 (List.cons_ne_nil d u)]
      simp [other]

theorem names_separators (all : ∀ c ∈ u, c = sep) : names sep u = [] := by
  induction u with
  | nil => rfl
  | cons c u ih =>
    rw [List.forall_mem_cons] at all
    rw [names, if_pos all.1, ih all.2]

theorem names_render {l : List (List β)} (valid : ∀ n ∈ l, n ≠ [] ∧ sep ∉ n) :
    names sep (render sep l) = l := by
  unfold render
  split
  · rename_i none
    rw [none]
    exact names_separators (by simp)
  · induction l with
    | nil => rfl
    | cons n l ih =>
      rw [List.forall_mem_cons] at valid
      have first : names sep n = [n] := names_free valid.1.2 valid.1.1
      rw [List.flatMap_cons, List.cons_append, names, if_pos rfl]
      cases l with
      | nil => rw [List.flatMap_nil, List.append_nil, first]
      | cons m l =>
        have later := ih valid.2 (List.cons_ne_nil m l)
        rw [List.flatMap_cons, List.cons_append, names, if_pos rfl] at later
        rw [List.flatMap_cons, List.cons_append, names_append_sep, first, later]
        rfl

/-! ### Empty names -/

variable (sep) in
/-- All parts of a string between its separators, the empty ones too. -/
def fields : List β → List (List β)
  | [] => [[]]
  | c :: u => if c = sep then [] :: fields u else (fields u).modifyHead (c :: ·)

theorem fields_first (sep : β) (u : List β) :
    ∃ n rest, fields sep u = n :: rest ∧ (n = [] ↔ u.head?.all (· = sep) = true) := by
  induction u with
  | nil => exact ⟨[], [], rfl, by simp⟩
  | cons c u ih =>
    obtain ⟨n, rest, split, _⟩ := ih
    rw [fields, split]
    by_cases here : c = sep
    · rw [if_pos here]
      exact ⟨[], n :: rest, rfl, by simp [here]⟩
    · rw [if_neg here]
      exact ⟨c :: n, rest, rfl, by simp [here]⟩

theorem names_eq_fields (s : List β) : names sep s = (fields sep s).filter (· ≠ []) := by
  induction s with
  | nil => simp [names, fields]
  | cons c u ih =>
    obtain ⟨n, rest, split, first⟩ := fields_first sep u
    rw [names, fields, ih, split]
    by_cases here : c = sep
    · rw [if_pos here, if_pos here]
      simp
    rw [if_neg here, if_neg here]
    by_cases ends : u.head?.all (· = sep) = true
    · rw [if_pos ends, first.mpr ends]
      simp
    · rw [if_neg ends]
      have some_name : n ≠ [] := fun none => ends (first.mp none)
      rw [List.filter_cons_of_pos (by simpa using some_name)]
      simp

/-- The first name, behind the separators in front of it. -/
theorem names_dropWhile (s : List β) : names sep (s.dropWhile (· = sep)) = names sep s := by
  induction s with
  | nil => rfl
  | cons c u ih =>
    by_cases here : c = sep
    · rw [List.dropWhile_cons_of_pos (by simpa using here), ih, names, if_pos here]
    · rw [List.dropWhile_cons_of_neg (by simpa using here)]

/-- What is left behind a name begins with its separator. -/
theorem dropWhile_stops {c : β} (rest : s.dropWhile (· ≠ sep) = c :: u) : c = sep := by
  have stops := List.head?_dropWhile_not (fun d => decide (d ≠ sep)) s
  rw [rest] at stops
  simpa using stops

theorem names_behind :
    names sep ((s.dropWhile (· ≠ sep)).drop 1) = names sep (s.dropWhile (· ≠ sep)) := by
  cases rest : s.dropWhile (· ≠ sep) with
  | nil => rfl
  | cons d v => rw [List.drop_one, List.tail_cons, names, if_pos (dropWhile_stops rest)]

theorem names_takeWhile {c : β} (other : c ≠ sep) :
    names sep (c :: u) =
      (c :: u).takeWhile (· ≠ sep) :: names sep ((c :: u).dropWhile (· ≠ sep)) := by
  have name : names sep ((c :: u).takeWhile (· ≠ sep)) = [(c :: u).takeWhile (· ≠ sep)] := by
    refine names_free (fun member => ?_) ?_
    · have name := List.mem_takeWhile_imp member
      exact of_decide_eq_true name rfl
    · rw [List.takeWhile_cons_of_pos (by simpa using other)]
      exact List.cons_ne_nil _ _
  have whole : (c :: u).takeWhile (· ≠ sep) ++ (c :: u).dropWhile (· ≠ sep) = c :: u :=
    List.takeWhile_append_dropWhile
  cases rest : (c :: u).dropWhile (· ≠ sep) with
  | nil =>
    rw [rest, List.append_nil] at whole
    rw [whole] at name
    rw [name, whole]
    rfl
  | cons d v =>
    have last : d = sep := dropWhile_stops rest
    rw [rest, last] at whole
    conv_lhs => rw [← whole, names_append_sep, name]
    rw [last, names, if_pos rfl, List.singleton_append]

/-! ### The last name -/

/-- The string in front of its last name: what is left of it, and the separators behind that. -/
theorem before_base (sep : β) (s : List β) : ∃ w, s.rdropWhile (· ≠ sep) = dirPart sep s ++ w ∧
    (∀ c ∈ w, c = sep) ∧ (s.rdropWhile (· ≠ sep) ≠ [] → w ≠ []) := by
  refine ⟨(s.rdropWhile (· ≠ sep)).rtakeWhile (· = sep), ?_, fun c member => ?_, fun some_part => ?_⟩
  · rw [dirPart, List.rdropWhile_append_rtakeWhile]
  · have same := List.mem_rtakeWhile_imp member
    exact of_decide_eq_true same
  · intro none
    have last := List.rdropWhile_last_not (fun c => decide (c ≠ sep)) s some_part
    have other := List.rtakeWhile_eq_nil_iff.mp none some_part
    simp only [decide_eq_true_eq, not_not] at last other
    exact other last

theorem before_append_base (sep : β) (s : List β) : s.rdropWhile (· ≠ sep) ++ basePart sep s = s :=
  List.rdropWhile_append_rtakeWhile

theorem basePart_free : sep ∉ basePart sep s := by
  intro member
  have other := List.mem_rtakeWhile_imp member
  exact of_decide_eq_true other rfl

theorem basePart_ne_nil {c : β} (last : s.getLast? = some c) (other : c ≠ sep) :
    basePart sep s ≠ [] := by
  intro none
  have nonempty : s ≠ [] := by
    rintro rfl
    cases last
  have stops := List.rtakeWhile_eq_nil_iff.mp none nonempty
  rw [List.getLast?_eq_some_getLast nonempty, Option.some.injEq] at last
  rw [last] at stops
  exact stops (decide_eq_true other)

/-- A string that does not end with a separator ends with its last name. -/
theorem names_last {c : β} (last : s.getLast? = some c) (other : c ≠ sep) :
    names sep s = names sep (dirPart sep s) ++ [basePart sep s] := by
  have base : names sep (basePart sep s) = [basePart sep s] :=
    names_free basePart_free (basePart_ne_nil last other)
  obtain ⟨w, before, separators, some_separator⟩ := before_base sep s
  have whole := before_append_base sep s
  cases part : s.rdropWhile (· ≠ sep) with
  | nil =>
    have none := (List.append_eq_nil_iff.mp (before.symm.trans part)).1
    rw [part, List.nil_append] at whole
    rw [none]
    rw [whole] at base ⊢
    exact base
  | cons d u =>
    obtain ⟨w, rfl⟩ : ∃ v, w = sep :: v := by
      cases w with
      | nil => exact absurd rfl (some_separator (part ▸ List.cons_ne_nil d u))
      | cons e v => exact ⟨v, by rw [separators e List.mem_cons_self]⟩
    have rest : ∀ c ∈ w, c = sep := fun c member => separators c (List.mem_cons_of_mem _ member)
    have cut : names sep (w ++ basePart sep s) = [basePart sep s] := by
      rw [← base]
      clear before some_separator separators
      induction w with
      | nil => rfl
      | cons e w ih =>
        rw [List.forall_mem_cons] at rest
        rw [List.cons_append, names, if_pos rest.1, ih rest.2]
    conv_lhs => rw [← whole, before, List.append_assoc, List.cons_append, names_append_sep, cut]

end Pathnames
