import TlpiExercises.Library.Resolution

/-!
# dirname and basename

The functions of `libgen.h`, on the bytes of a pathname.
-/

namespace Tlpi

open FileSystem Pathnames

/-- The pathname without its separators at the end. -/
def withoutSlashes (s : List UInt8) : List UInt8 := s.rdropWhile (· = slash)

def dirname (s : List UInt8) : List UInt8 :=
  let t := withoutSlashes s
  if t = [] then if s = [] then dot else [slash]
  else if slash ∉ t then dot
  else if dirPart slash t = [] then [slash]
  else dirPart slash t

def basename (s : List UInt8) : List UInt8 :=
  let t := withoutSlashes s
  if t = [] then if s = [] then dot else [slash]
  else basePart slash t

example : (dirname [47, 97, 47, 47, 98, 47], basename [47, 97, 47, 47, 98, 47]) =
    ([47, 97], [98]) := by decide

/-! ### A pathname that does not end with a separator -/

variable {s : List UInt8} {c : UInt8} {cwd p : Position} {a : List Name} {n : Name}

theorem withoutSlashes_eq (last : s.getLast? = some c) (other : c ≠ slash) :
    withoutSlashes s = s := by
  have nonempty : s ≠ [] := by
    rintro rfl
    cases last
  refine List.rdropWhile_eq_self_iff.mpr fun _ => ?_
  rw [List.getLast?_eq_some_getLast nonempty, Option.some.injEq] at last
  rw [last]
  exact fun same => other (of_decide_eq_true same)

theorem dirPart_append (s : List UInt8) : ∃ w, s = dirPart slash s ++ w := by
  obtain ⟨w, before, _, _⟩ := before_base slash s
  have whole := before_append_base slash s
  rw [before, List.append_assoc] at whole
  exact ⟨w ++ basePart slash s, whole.symm⟩

theorem dirPart_last (s : List UInt8) : (dirPart slash s).getLast? ≠ some slash := by
  intro last
  have nonempty : dirPart slash s ≠ [] := by
    intro none
    rw [none] at last
    cases last
  have other := List.rdropWhile_last_not _ _ nonempty
  rw [List.getLast?_eq_some_getLast nonempty, Option.some.injEq] at last
  exact other (decide_eq_true last)

theorem dirPart_free (free : slash ∉ s) : dirPart slash s = [] := by
  have none : s.rdropWhile (· ≠ slash) = [] := by
    refine List.rdropWhile_eq_nil_iff.mpr fun c member => decide_eq_true ?_
    rintro rfl
    exact free member
  rw [dirPart, none, List.rdropWhile_nil]

/-- Without a name in front of the last one, the separators come first. -/
theorem head_of_dirPart_nil (member : slash ∈ s) (none : dirPart slash s = []) :
    s.head? = some slash := by
  obtain ⟨w, before, separators, _⟩ := before_base slash s
  have whole := before_append_base slash s
  rw [none, List.nil_append] at before
  cases w with
  | nil =>
    rw [before, List.nil_append] at whole
    rw [← whole] at member
    exact absurd member basePart_free
  | cons c w =>
    rw [← whole, before, separators c List.mem_cons_self]
    rfl

theorem basename_eq (last : s.getLast? = some c) (other : c ≠ slash) :
    path s = names slash (dirPart slash s) ++ [basename s] := by
  have nonempty : s ≠ [] := by
    rintro rfl
    cases last
  have inside : ¬ s.getLast? = some slash := by
    rw [last]
    exact fun same => other (Option.some.inj same)
  rw [path, if_neg inside, List.append_nil, names_last last other, basename]
  rw [withoutSlashes_eq last other, if_neg nonempty]

/-- `dirname` leads where all the names but the last lead. -/
theorem dirname_eq (cwd : Position) (last : s.getLast? = some c) (other : c ≠ slash) :
    (path (dirname s) = names slash (dirPart slash s) ∨
      names slash (dirPart slash s) = [] ∧ path (dirname s) = [dot]) ∧
    start cwd (dirname s) = start cwd s := by
  have nonempty : s ≠ [] := by
    rintro rfl
    cases last
  have same := withoutSlashes_eq last other
  unfold dirname
  dsimp only
  rw [same, if_neg nonempty]
  by_cases free : slash ∉ s
  · rw [if_pos free, dirPart_free free]
    refine ⟨Or.inr ⟨rfl, rfl⟩, ?_⟩
    have relative : ¬ s.head? = some slash := fun first => free (List.mem_of_head? first)
    rw [start, start, if_neg relative]
    rfl
  · rw [if_neg free]
    have member := not_not.mp free
    by_cases none : dirPart slash s = []
    · rw [if_pos none, none]
      refine ⟨Or.inr ⟨rfl, rfl⟩, ?_⟩
      rw [start, start, if_pos (head_of_dirPart_nil member none)]
      rfl
    · rw [if_neg none]
      refine ⟨Or.inl ?_, ?_⟩
      · rw [path, if_neg (dirPart_last s), List.append_nil]
      · obtain ⟨w, whole⟩ := dirPart_append s
        have first : s.head? = (dirPart slash s).head? := by
          conv_lhs => rw [whole]
          exact List.head?_append_of_ne_nil _ none
        rw [start, start, first]

theorem dirname_length (last : s.getLast? = some c) (other : c ≠ slash) :
    dirname s ≠ [] ∧ (dirname s).length ≤ s.length := by
  have nonempty : s ≠ [] := by
    rintro rfl
    cases last
  have positive := List.length_pos_iff.mpr nonempty
  unfold dirname
  dsimp only
  rw [withoutSlashes_eq last other, if_neg nonempty]
  split
  · exact ⟨by decide, positive⟩
  · split
    · exact ⟨by decide, positive⟩
    · rename_i some_name
      obtain ⟨w, whole⟩ := dirPart_append s
      have length := congrArg List.length whole
      rw [List.length_append] at length
      exact ⟨some_name, by omega⟩

end Tlpi
