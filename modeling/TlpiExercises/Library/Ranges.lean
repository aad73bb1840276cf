import Mathlib.Data.Finset.Card
import Mathlib.Data.Nat.ModEq
import Mathlib.Order.Interval.Finset.Nat

/-!
# Consecutive ranges

Ranges of numbers that a counter hands out one behind the other, where the counter comes back to 0
after `m - 1`.
-/

namespace Ranges

/-- The numbers of a range that begins at `start`. -/
def range (m start len : Nat) : Finset Nat := (Finset.range len).image fun i => (start + i) % m

/-- Each range begins where the one before has ended. -/
def ranges (m start : Nat) : List Nat → List (Finset Nat)
  | [] => []
  | len :: lens => range m start len :: ranges m (start + len) lens

variable {m start len : Nat} {lens : List Nat}

theorem mem_range {k : Nat} : k ∈ range m start len ↔ ∃ i < len, (start + i) % m = k := by
  simp [range]

theorem same_offset {i j : Nat} (same : (start + i) % m = (start + j) % m) (left : i < m)
    (right : j < m) : i = j :=
  Nat.ModEq.eq_of_lt_of_lt (Nat.ModEq.add_left_cancel' start same) left right

theorem card_range (short : len ≤ m) : (range m start len).card = len := by
  unfold range
  rw [Finset.card_image_of_injOn, Finset.card_range]
  intro i left j right same
  have left := Finset.mem_range.mp left
  have right := Finset.mem_range.mp right
  exact same_offset same (by omega) (by omega)

/-- What comes behind a range is one range. -/
theorem ranges_subset {s : Finset Nat} (member : s ∈ ranges m start lens) :
    s ⊆ range m start lens.sum := by
  induction lens generalizing start with
  | nil => cases member
  | cons len lens ih =>
    rw [List.sum_cons]
    intro k inside
    rw [mem_range]
    rcases List.mem_cons.mp member with rfl | later
    · obtain ⟨i, below, rfl⟩ := mem_range.mp inside
      exact ⟨i, by omega, rfl⟩
    · obtain ⟨i, below, rfl⟩ := mem_range.mp (ih later inside)
      refine ⟨len + i, by omega, ?_⟩
      rw [Nat.add_assoc]

theorem disjoint_of_sum {rest : Nat} (room : len + rest ≤ m) :
    Disjoint (range m start len) (range m (start + len) rest) := by
  rw [Finset.disjoint_left]
  intro k first second
  obtain ⟨i, below, rfl⟩ := mem_range.mp first
  obtain ⟨j, behind, same⟩ := mem_range.mp second
  rw [Nat.add_assoc] at same
  have offset := same_offset same (by omega) (by omega)
  omega

theorem disjoint_of_room (room : lens.sum ≤ m) : (ranges m start lens).Pairwise Disjoint := by
  induction lens generalizing start with
  | nil => exact List.Pairwise.nil
  | cons len lens ih =>
    rw [List.sum_cons] at room
    refine List.Pairwise.cons (fun s member => ?_) (ih (by omega))
    exact Finset.disjoint_of_subset_right (ranges_subset member) (disjoint_of_sum room)

/-- Disjoint ranges have all their numbers together. -/
theorem sum_of_disjoint {all : List (Finset Nat)} (apart : all.Pairwise Disjoint)
    (inside : ∀ s ∈ all, s ⊆ Finset.range m) : (all.map Finset.card).sum ≤ m := by
  suffices union : ∃ t ⊆ Finset.range m, t.card = (all.map Finset.card).sum ∧
      ∀ u, (∀ s ∈ all, Disjoint u s) → Disjoint u t by
    obtain ⟨t, within, card, _⟩ := union
    rw [← card]
    exact (Finset.card_le_card within).trans_eq (Finset.card_range m)
  induction all with
  | nil => exact ⟨∅, Finset.empty_subset _, rfl, fun u _ => Finset.disjoint_empty_right u⟩
  | cons s all ih =>
    obtain ⟨first, rest⟩ := List.pairwise_cons.mp apart
    obtain ⟨here, others⟩ := List.forall_mem_cons.mp inside
    obtain ⟨t, within, card, separate⟩ := ih rest others
    refine ⟨s ∪ t, Finset.union_subset here within, ?_, fun u all => ?_⟩
    · rw [Finset.card_union_of_disjoint (separate s first), card, List.map_cons, List.sum_cons]
    · obtain ⟨now, later⟩ := List.forall_mem_cons.mp all
      exact Finset.disjoint_union_right.mpr ⟨now, separate u later⟩

theorem ranges_inside (pos : 0 < m) : ∀ s ∈ ranges m start lens, s ⊆ Finset.range m := by
  intro s member k inside
  obtain ⟨i, _, rfl⟩ := mem_range.mp (ranges_subset member inside)
  exact Finset.mem_range.mpr (Nat.mod_lt _ pos)

theorem map_card_ranges (short : ∀ len ∈ lens, len ≤ m) :
    (ranges m start lens).map Finset.card = lens := by
  induction lens generalizing start with
  | nil => rfl
  | cons len lens ih =>
    obtain ⟨here, rest⟩ := List.forall_mem_cons.mp short
    rw [ranges, List.map_cons, card_range here, ih rest]

/-- No number is handed out twice exactly while the counter has not come round. -/
theorem disjoint_iff (pos : 0 < m) (short : ∀ len ∈ lens, len ≤ m) :
    (ranges m start lens).Pairwise Disjoint ↔ lens.sum ≤ m := by
  refine ⟨fun apart => ?_, disjoint_of_room⟩
  have room := sum_of_disjoint apart (ranges_inside pos)
  rw [map_card_ranges short] at room
  exact room

end Ranges
