import Mathlib

/-!
# What a C call leaves behind

A modelled function returns in `Except Fault`: a call that would run into undefined behaviour
ends in the fault and leaves no result.
-/

namespace Tlpi

/-- The undefined behaviour that ends a run. `stackOverflow` is a recursion deeper than the model
follows. -/
inductive Fault where
  | nullDereference
  | outOfBounds
  | useAfterFree
  | stackOverflow
  deriving DecidableEq, Repr

inductive Errno where
  | EINVAL
  | ENOMEM
  deriving DecidableEq, Repr

/-- The int that a function returns, with the `errno` it sets on the way. -/
structure Status where
  rv : Int
  errno : Option Errno := none
  deriving DecidableEq, Repr

namespace Status

def success : Status := ⟨0, none⟩

def failure (errno : Option Errno) : Status := ⟨-1, errno⟩

@[simp] theorem success_rv : success.rv = 0 := rfl

@[simp] theorem failure_rv (errno : Option Errno) : (failure errno).rv = -1 := rfl

end Status

/-- A value that C reads through a pointer that may be NULL. -/
def fromPointer {α : Type} : Option α → Except Fault α
  | some value => .ok value
  | none => .error .nullDereference

@[simp] theorem fromPointer_some {α : Type} (value : α) : fromPointer (some value) = .ok value := rfl

@[simp] theorem fromPointer_none {α : Type} :
    fromPointer (none : Option α) = .error .nullDereference := rfl

/-! ### Taking a successful call apart -/

theorem bind_ok {ε α β : Type} {x : Except ε α} {f : α → Except ε β} {b : β}
    (h : x >>= f = .ok b) : ∃ a, x = .ok a ∧ f a = .ok b := by
  cases x with
  | error e => cases h
  | ok a => exact ⟨a, rfl, h⟩

@[simp] theorem ok_bind {ε α β : Type} (a : α) (f : α → Except ε β) :
    (Except.ok a : Except ε α) >>= f = f a := rfl

@[simp] theorem error_bind {ε α β : Type} (e : ε) (f : α → Except ε β) :
    (Except.error e : Except ε α) >>= f = .error e := rfl

@[simp] theorem pure_eq_ok {ε α : Type} (a : α) : (pure a : Except ε α) = .ok a := rfl

end Tlpi
