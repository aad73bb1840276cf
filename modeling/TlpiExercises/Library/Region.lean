import Mathlib.Data.Set.Lattice
import Mathlib.Order.CompletePartialOrder
import Mathlib.Order.Interval.Set.Basic

/-!
# Regions of a memory

A region is a stretch of cells; `fill` writes all of it.
-/

namespace Tlpi

structure Region where
  start : Nat
  size : Nat
  deriving DecidableEq, Repr

namespace Region

variable {α : Type*}

def bytes (r : Region) : Set Nat := Set.Ico r.start (r.start + r.size)

def fill (memory : Nat → α) (r : Region) (contents : Nat → α) : Nat → α :=
  fun a => if r.start ≤ a ∧ a < r.start + r.size then contents a else memory a

end Region

end Tlpi
