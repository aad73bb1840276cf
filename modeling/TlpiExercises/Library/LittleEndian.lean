import Mathlib.Algebra.Group.Nat.Defs

/-!
# Numbers in bytes

The lowest byte comes first.
-/

namespace LittleEndian

/-- The lowest `count` bytes of a number. -/
def toBytes : Nat → Nat → List UInt8
  | 0, _ => []
  | count + 1, n => UInt8.ofNat n :: toBytes count (n / 256)

def ofBytes : List UInt8 → Nat
  | [] => 0
  | byte :: rest => byte.toNat + 256 * ofBytes rest

@[simp] theorem toBytes_length (count n : Nat) : (toBytes count n).length = count := by
  induction count generalizing n with
  | zero => rfl
  | succ count ih => rw [toBytes, List.length_cons, ih]

theorem ofBytes_toBytes {count n : Nat} (small : n < 256 ^ count) : ofBytes (toBytes count n) = n := by
  induction count generalizing n with
  | zero =>
    rw [Nat.pow_zero] at small
    exact (Nat.lt_one_iff.mp small).symm
  | succ count ih =>
    have high : n / 256 < 256 ^ count := Nat.div_lt_of_lt_mul (by rwa [Nat.pow_succ, Nat.mul_comm] at small)
    rw [toBytes, ofBytes, ih high, UInt8.toNat_ofNat']
    exact Nat.mod_add_div n 256

end LittleEndian
