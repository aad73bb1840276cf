import TlpiExercises.C.Numbers
import TlpiExercises.DynamicArray.Model

/-!
# `da_sort` with `int_asc`

`qsort` calls the comparator with pointers to the elements. `int_asc` returns the difference of these
pointers and does not look at the elements.
-/

namespace Tlpi.DynamicArray

/-- An `int` in memory. -/
abbrev Located := Pointer × CInt

abbrev Comparator := Located → Located → Int

/-- The sign of the comparator is the order of the values, wherever two elements are. -/
def Consistent (le : CInt → CInt → Prop) (pred : Comparator) : Prop :=
  ∀ x y : Located, x.1 ≠ y.1 → (pred x y ≤ 0 ↔ le x.2 y.2) ∧ (0 ≤ pred x y ↔ le y.2 x.2)

/-- A `qsort` for elements of four bytes. It moves them about, and it sorts them if the comparator
belongs to a total preorder. -/
structure Qsort where
  sort : Pointer → Comparator → List CInt → List CInt
  perm : ∀ base pred xs, (sort base pred xs).Perm xs
  sorted : ∀ base pred xs (le : CInt → CInt → Prop), (∀ a b, le a b ∨ le b a) →
    (∀ a b c, le a b → le b c → le a c) → Consistent le pred → (sort base pred xs).Pairwise le

/-- An array of `int`. -/
structure IntArray where
  data : Pointer
  elements : List CInt

/-- `x - y` -/
def intAsc : Comparator := fun x y => toInt (((x.1 : Int) - y.1).tdiv 4)

def daSort (qsort : Qsort) (arr : IntArray) (pred : Comparator) : IntArray :=
  { arr with elements := qsort.sort arr.data pred arr.elements }

def SortedInto (arr sorted : IntArray) : Prop :=
  sorted.elements.Perm arr.elements ∧ sorted.elements.Pairwise fun a b => a.1 ≤ b.1

/-! ### Insertion sort in place -/

/-- The sorted elements stand back to front. The new one moves down past those that are greater. -/
def sift (base : Pointer) (pred : Comparator) (x : CInt) : List CInt → List CInt
  | [] => [x]
  | y :: ys =>
    if 0 < pred (base + 4 * ys.length, y) (base + 4 * (ys.length + 1), x) then
      y :: sift base pred x ys
    else x :: y :: ys

def insertionSort (base : Pointer) (pred : Comparator) (xs : List CInt) : List CInt :=
  (xs.foldl (fun sorted x => sift base pred x sorted) []).reverse

section

variable (base : Pointer) (pred : Comparator)

theorem sift_perm (x : CInt) (ys : List CInt) : (sift base pred x ys).Perm (x :: ys) := by
  induction ys with
  | nil => exact List.Perm.refl _
  | cons y ys ih =>
    rw [sift]
    split
    · exact (ih.cons y).trans (List.Perm.swap x y ys)
    · exact List.Perm.refl _

theorem insertionSort_perm (xs : List CInt) : (insertionSort base pred xs).Perm xs := by
  have fold : ∀ sorted : List CInt,
      (xs.foldl (fun sorted x => sift base pred x sorted) sorted).Perm (sorted ++ xs) := by
    induction xs with
    | nil => exact fun sorted => (List.append_nil sorted).symm ▸ List.Perm.refl _
    | cons x rest ih =>
      intro sorted
      refine (ih (sift base pred x sorted)).trans ?_
      exact ((sift_perm base pred x sorted).append_right rest).trans List.perm_middle.symm
  exact (List.reverse_perm _).trans (fold [])

variable {base pred} {le : CInt → CInt → Prop}

theorem sift_sorted (trans : ∀ a b c, le a b → le b c → le a c) (consistent : Consistent le pred)
    (x : CInt) {ys : List CInt} (sorted : ys.Pairwise fun a b => le b a) :
    (sift base pred x ys).Pairwise fun a b => le b a := by
  induction ys with
  | nil => exact List.pairwise_singleton _ x
  | cons y ys ih =>
    obtain ⟨greatest, rest⟩ := List.pairwise_cons.mp sorted
    obtain ⟨low, high⟩ := consistent (base + 4 * ys.length, y) (base + 4 * (ys.length + 1), x)
      (Nat.ne_of_lt (Nat.add_lt_add_left (show 4 * ys.length < 4 * (ys.length + 1) by omega) base))
    rw [sift]
    split
    next greater =>
      refine List.pairwise_cons.mpr ⟨fun z member => ?_, ih rest⟩
      rcases List.mem_cons.mp ((sift_perm base pred x ys).mem_iff.mp member) with rfl | before
      · exact high.mp (Int.le_of_lt greater)
      · exact greatest z before
    next not_greater =>
      have above : le y x := low.mp (Int.not_lt.mp not_greater)
      refine List.pairwise_cons.mpr ⟨fun z member => ?_, sorted⟩
      rcases List.mem_cons.mp member with rfl | before
      · exact above
      · exact trans z y x (greatest z before) above

theorem insertionSort_sorted (trans : ∀ a b c, le a b → le b c → le a c)
    (consistent : Consistent le pred) (xs : List CInt) : (insertionSort base pred xs).Pairwise le := by
  have fold : ∀ sorted : List CInt, sorted.Pairwise (fun a b => le b a) →
      (xs.foldl (fun sorted x => sift base pred x sorted) sorted).Pairwise fun a b => le b a := by
    induction xs with
    | nil => exact fun _ sorted => sorted
    | cons x rest ih => exact fun before sorted => ih _ (sift_sorted trans consistent x sorted)
  exact List.pairwise_reverse.mpr (fold [] List.Pairwise.nil)

end

def insertionQsort : Qsort where
  sort := insertionSort
  perm := insertionSort_perm
  sorted := fun _ _ xs _ _ trans consistent => insertionSort_sorted trans consistent xs

/-! ### The comparator -/

/-- What `int_asc` is meant to be. -/
def byValue : Comparator := fun x y => x.2.1 - y.2.1

theorem byValue_consistent : Consistent (fun a b => a.1 ≤ b.1) byValue := by
  intro x y _
  unfold byValue
  constructor <;> omega

/-- An element is less than another one with the same value that stands behind it. -/
theorem intAsc_inconsistent (le : CInt → CInt → Prop) : ¬ Consistent le intAsc := by
  intro consistent
  obtain ⟨low, high⟩ := consistent (0, ⟨0, by decide⟩) (4, ⟨0, by decide⟩) (by decide)
  exact absurd (high.mpr (low.mp (by decide))) (by decide)

open Classical in
/-- A `qsort` that turns the order round where it need not sort. -/
noncomputable def contraryQsort : Qsort where
  sort base pred xs :=
    if ∃ le, (∀ a b, le a b ∨ le b a) ∧ (∀ a b c, le a b → le b c → le a c) ∧ Consistent le pred then
      insertionSort base pred xs
    else (insertionSort base byValue xs).reverse
  perm base pred xs := by
    split
    · exact insertionSort_perm base pred xs
    · exact (List.reverse_perm _).trans (insertionSort_perm base byValue xs)
  sorted base pred xs le total trans consistent := by
    rw [if_pos ⟨le, total, trans, consistent⟩]
    exact insertionSort_sorted trans consistent xs

theorem contraryQsort_intAsc (base : Pointer) (xs : List CInt) :
    contraryQsort.sort base intAsc xs = (insertionSort base byValue xs).reverse :=
  if_neg fun ⟨le, _, _, consistent⟩ => intAsc_inconsistent le consistent

/-- Only an array of equal elements is sorted for certain. -/
theorem sortedInto_iff (arr : IntArray) :
    (∀ qsort, SortedInto arr (daSort qsort arr intAsc)) ↔
      ∀ a ∈ arr.elements, ∀ b ∈ arr.elements, a = b := by
  constructor
  · intro sorts a first b second
    obtain ⟨_, descending⟩ := sorts contraryQsort
    have trans : ∀ a b c : CInt, a.1 ≤ b.1 → b.1 ≤ c.1 → a.1 ≤ c.1 := fun _ _ _ => Int.le_trans
    have ascending : (insertionSort arr.data byValue arr.elements).Pairwise fun a b => a.1 ≤ b.1 :=
      insertionSort_sorted trans byValue_consistent arr.elements
    unfold daSort at descending
    dsimp only at descending
    rw [contraryQsort_intAsc, List.pairwise_reverse] at descending
    have same : (insertionSort arr.data byValue arr.elements).Pairwise fun a b => a = b :=
      (ascending.and descending).imp fun both => Subtype.ext (Int.le_antisymm both.1 both.2)
    have members := insertionSort_perm arr.data byValue arr.elements
    exact List.Pairwise.forall_of_forall (fun _ _ => rfl) same (members.mem_iff.mpr first)
      (members.mem_iff.mpr second)
  · intro equal qsort
    have members := qsort.perm arr.data intAsc arr.elements
    refine ⟨members, List.pairwise_of_forall_mem_list fun a first b second => ?_⟩
    rw [equal a (members.mem_iff.mp first) b (members.mem_iff.mp second)]

/-- Insertion sort leaves 2, 1 as it is. -/
theorem insertion_unsorted :
    ¬ ∀ (qsort : Qsort) (arr : IntArray), SortedInto arr (daSort qsort arr intAsc) := by
  intro all
  obtain ⟨_, ascending⟩ := all insertionQsort ⟨64, [⟨2, by decide⟩, ⟨1, by decide⟩]⟩
  have unchanged : (daSort insertionQsort ⟨64, [⟨2, by decide⟩, ⟨1, by decide⟩]⟩ intAsc).elements =
      [⟨2, by decide⟩, ⟨1, by decide⟩] := by decide
  rw [unchanged] at ascending
  exact absurd (List.rel_of_pairwise_cons ascending List.mem_cons_self) (by decide)

end Tlpi.DynamicArray
