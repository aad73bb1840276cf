import Mathlib.Logic.Basic

/-!
# Mutual exclusion

Who has a mutex, against who is at a place where it must be had. Two semaphores with one unit
between them exclude in the same way.
-/

namespace Tlpi.Mutex

variable {P : Type*}

/-- The owner is the one party inside the critical section. -/
def Guards (owner : Option P) (inside : P → Prop) : Prop := ∀ p, owner = some p ↔ inside p

variable {owner : Option P} {inside after : P → Prop}

theorem guards_exclusive (guards : Guards owner inside) {p q : P} (here : inside p)
    (there : inside q) : p = q := by
  have owned := (guards p).mpr here
  rw [(guards q).mpr there] at owned
  exact (Option.some.inj owned).symm

theorem guards_free (guards : Guards none inside) (p : P) : ¬ inside p := fun here =>
  nomatch (guards p).mpr here

theorem guards_same (guards : Guards owner inside) (same : ∀ p, after p ↔ inside p) :
    Guards owner after := fun p => (guards p).trans (same p).symm

theorem guards_take (guards : Guards none inside) {p : P} (enters : after p)
    (others : ∀ q, q ≠ p → (after q ↔ inside q)) : Guards (some p) after := by
  intro q
  constructor
  · rintro ⟨⟩
    exact enters
  · intro there
    by_cases same : q = p
    · rw [same]
    · exact absurd ((others q same).mp there) (guards_free guards q)

theorem guards_leave (guards : Guards owner inside) {p : P} (was : inside p) (leaves : ¬ after p)
    (others : ∀ q, q ≠ p → (after q ↔ inside q)) : Guards none after := by
  intro q
  refine ⟨nofun, fun there => ?_⟩
  by_cases same : q = p
  · rw [same] at there
    exact absurd there leaves
  · exact absurd (guards_exclusive guards ((others q same).mp there) was) same

/-- Whoever holds the one unit leaves none to a semaphore or to the other party. -/
theorem unit_exclusive {first second : Nat} {holder other : Bool}
    (unit : first + second + holder.toNat + other.toNat ≤ 1) (holds : holder = true) :
    first = 0 ∧ second = 0 ∧ other = false := by
  rw [holds, Bool.toNat_true] at unit
  refine ⟨by omega, by omega, ?_⟩
  cases other with
  | false => rfl
  | true =>
    rw [Bool.toNat_true] at unit
    omega

end Tlpi.Mutex
