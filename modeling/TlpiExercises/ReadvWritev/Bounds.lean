import TlpiExercises.ReadvWritev.Transfers

/-!
# The check of the lengths

The sum is compared with `SSIZE_MAX` after it has been computed as a `ssize_t`: a sum for which the
comparison would be true has already overflowed.
-/

namespace Tlpi.ReadvWritev

/-- The function itself has failed with `EINVAL`, before any transfer. -/
def FailsEinval (result : Result) : Prop :=
  result.rv = -1 ∧ result.einval = true ∧ result.moved = []

/-- The call returns, and rejects exactly the lengths that it should. -/
def Checks (buffers : List DataBuffer) (length : Int) (call : Except Undefined Result) : Prop :=
  ∃ result, call = .ok result ∧
    (FailsEinval result ↔ length ≤ 0 ∨ sum (buffers.take length.toNat) > SSIZE_MAX)

section Clone

variable {transfer : Nat → DataBuffer → Option (List UInt8 × DataBuffer)}
  {onShort : Int → Int → Int}

theorem loop_einval {i : Nat} {total : Int} {rest : List DataBuffer} :
    (transferLoop transfer onShort i total rest).einval = false := by
  induction rest generalizing i total with
  | nil => rfl
  | cons b rest ih =>
    rw [transferLoop]
    cases transfer i b with
    | none => rfl
    | some moved =>
      dsimp only
      split
      · rfl
      · exact ih

theorem clone_checks_iff {buffers : List DataBuffer} {length : Int} :
    Checks buffers length (vectorClone transfer onShort buffers length) ↔
      length ≤ 0 ∨ Addable buffers length := by
  by_cases positive : 0 < length
  · by_cases add : Addable buffers length
    · refine iff_of_true ⟨_, vectorClone_adds _ _ positive add, ?_⟩ (Or.inr add)
      refine iff_of_false (fun fails => ?_) (by have := add.2.2; omega)
      have set := fails.2.1
      rw [loop_einval] at set
      cases set
    · obtain ⟨u, call⟩ :=
        vectorClone_undefined transfer onShort positive add
      refine iff_of_false ?_ (by rintro (negative | yes); exacts [by omega, add yes])
      rintro ⟨result, returned, -⟩
      rw [call] at returned
      cases returned
  · have call : vectorClone transfer onShort buffers length = .ok ⟨-1, true, [], buffers⟩ :=
      if_pos (by omega)
    refine iff_of_true ⟨_, call, ?_⟩ (Or.inl (by omega))
    exact iff_of_true ⟨rfl, rfl, rfl⟩ (Or.inl (by omega))

end Clone

/-- The check is right exactly where it cannot fail on account of the sum. -/
theorem checks_iff (reads : Nat → Option (List UInt8)) (writes : Nat → Option Nat)
    (buffers : List DataBuffer) (length : Int) :
    (Checks buffers length (readvClone reads buffers length) ∧
      Checks buffers length (writevClone writes buffers length)) ↔
    length ≤ 0 ∨ length ≤ buffers.length ∧ length ≤ INT_MAX ∧
      sum (buffers.take length.toNat) ≤ SSIZE_MAX :=
  (and_congr clone_checks_iff clone_checks_iff).trans and_self_iff

/-- One buffer of `SSIZE_MAX` bytes and one of one byte. -/
theorem sum_overflows : ¬ ∀ (reads : Nat → Option (List UInt8)) (writes : Nat → Option Nat)
    (buffers : List DataBuffer) (length : Int), length ≤ buffers.length →
    Checks buffers length (readvClone reads buffers length) ∧
      Checks buffers length (writevClone writes buffers length) := by
  intro all
  obtain ⟨n, large⟩ : ∃ n : Nat, (n : Int) = SSIZE_MAX := ⟨2 ^ 63 - 1, by decide⟩
  have both := all (fun _ => none) (fun _ => none) [⟨List.replicate n 0⟩, ⟨[0]⟩] 2 (by simp)
  rcases clone_checks_iff.mp both.1 with negative | ⟨-, -, fits⟩
  · omega
  · have total : sum ([⟨List.replicate n 0⟩, ⟨[0]⟩].take (2 : Int).toNat) = n + 1 := by
      simp [sum, DataBuffer.len]
    rw [total] at fits
    omega

end Tlpi.ReadvWritev
