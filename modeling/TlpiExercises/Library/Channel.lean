import Mathlib.Data.List.Basic

/-!
# A channel that holds one item

What was sent and what was received, and the item that is on its way.
-/

namespace Tlpi

structure Channel (α : Type*) where
  sent : List α
  received : List α
  slot : Option α

namespace Channel

variable {α : Type*} {c d : Channel α} {a : α}

def put (c : Channel α) (a : α) : Option (Channel α) :=
  match c.slot with
  | none => some { c with sent := c.sent ++ [a], slot := some a }
  | some _ => none

def take (c : Channel α) : Option (Channel α) :=
  match c.slot with
  | some a => some { c with received := c.received ++ [a], slot := none }
  | none => none

/-- Each item is received once, in the order of sending. -/
def InOrder (c : Channel α) : Prop := c.sent = c.received ++ c.slot.toList

theorem inOrder_put (inOrder : c.InOrder) (h : c.put a = some d) : d.InOrder := by
  unfold InOrder at inOrder
  unfold put at h
  split at h
  · rename_i empty
    cases h
    unfold InOrder
    rw [inOrder, empty]
    simp
  · cases h

theorem inOrder_take (inOrder : c.InOrder) (h : c.take = some d) : d.InOrder := by
  unfold InOrder at inOrder
  unfold take at h
  split at h
  · rename_i item full
    cases h
    unfold InOrder
    rw [inOrder, full]
    simp
  · cases h

theorem inOrder_same (inOrder : c.InOrder) (slot : d.slot = c.slot) (sent : d.sent = c.sent)
    (received : d.received = c.received) : d.InOrder := by
  unfold InOrder at inOrder ⊢
  rw [slot, sent, received]
  exact inOrder

theorem inOrder_prefix (inOrder : c.InOrder) : c.received <+: c.sent := by
  unfold InOrder at inOrder
  rw [inOrder]
  exact List.prefix_append _ _

theorem inOrder_empty (inOrder : c.InOrder) (empty : c.slot = none) : c.received = c.sent := by
  unfold InOrder at inOrder
  rw [inOrder, empty, Option.toList_none, List.append_nil]

end Channel

end Tlpi
