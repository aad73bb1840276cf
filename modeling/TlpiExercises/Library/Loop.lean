import Mathlib.Logic.Basic

/-!
# Loops

A body gives the state for its next round, or what the loop ends with. With too little fuel the loop
has no result.
-/

namespace Loop

variable {S E : Type*} (body : S → Except E S)

def loop : Nat → S → Option E
  | 0, _ => none
  | fuel + 1, s =>
    match body s with
    | .error e => some e
    | .ok t => loop fuel t

variable {body}

/-- More fuel changes nothing where there was enough. -/
theorem loop_more {s : S} {e : E} {fuel more : Nat} (ended : loop body fuel s = some e) :
    loop body (fuel + more) s = some e := by
  induction fuel generalizing s with
  | zero => cases ended
  | succ fuel ih =>
    rw [Nat.add_right_comm, loop]
    rw [loop] at ended
    cases round : body s with
    | error _ =>
      rw [round] at ended
      exact ended
    | ok t =>
      rw [round] at ended
      exact ih ended

theorem loop_unique {s : S} {e f : E} {fuel more : Nat} (first : loop body fuel s = some e)
    (second : loop body more s = some f) : e = f := by
  have one : loop body (fuel + more) s = some e := loop_more first
  have two : loop body (more + fuel) s = some f := loop_more second
  rw [Nat.add_comm, one] at two
  exact Option.some.inj two

theorem loop_error {s : S} {e : E} (round : body s = .error e) : loop body 1 s = some e := by
  rw [loop, round]

theorem loop_ok {s t : S} {e : E} {fuel : Nat} (round : body s = .ok t)
    (ended : loop body fuel t = some e) : loop body (fuel + 1) s = some e := by
  rw [loop, round]
  exact ended

/-- What the body preserves holds where the loop ends. -/
theorem loop_invariant {I : S → Prop} (keeps : ∀ s t, I s → body s = .ok t → I t) {s : S} {e : E}
    {fuel : Nat} (start : I s) (ended : loop body fuel s = some e) :
    ∃ t, I t ∧ body t = .error e := by
  induction fuel generalizing s with
  | zero => cases ended
  | succ fuel ih =>
    rw [loop] at ended
    cases round : body s with
    | error _ =>
      rw [round] at ended
      cases ended
      exact ⟨s, start, round⟩
    | ok t =>
      rw [round] at ended
      exact ih (keeps s t start round) ended

/-- A loop whose rounds decrease a measure ends. -/
theorem loop_ends {I : S → Prop} {Q : E → Prop} {m : S → Nat}
    (round : ∀ s, I s → (∃ e, body s = .error e ∧ Q e) ∨ ∃ t, body s = .ok t ∧ I t ∧ m t < m s)
    {s : S} (start : I s) : ∃ fuel e, loop body fuel s = some e ∧ Q e := by
  induction measure : m s using Nat.strongRecOn generalizing s with
  | _ n ih =>
    rcases round s start with ⟨e, last, good⟩ | ⟨t, next, kept, smaller⟩
    · exact ⟨1, e, loop_error last, good⟩
    · obtain ⟨fuel, e, later, good⟩ := ih (m t) (measure ▸ smaller) kept rfl
      exact ⟨fuel + 1, e, loop_ok next later, good⟩

/-- A loop that counts its rounds ends at the count at which the body does. -/
theorem loop_counts {At : Nat → S → Prop} {last : Nat} {e : E}
    (goes_on : ∀ k s, k < last → At k s → ∃ t, body s = .ok t ∧ At (k + 1) t)
    (stops : ∀ s, At last s → body s = .error e) {k : Nat} {s : S} (below : k ≤ last) (now : At k s) :
    ∃ fuel, loop body fuel s = some e := by
  induction rest : last - k generalizing k s with
  | zero =>
    obtain rfl : k = last := by omega
    exact ⟨1, loop_error (stops s now)⟩
  | succ n ih =>
    obtain ⟨t, next, later⟩ := goes_on k s (by omega) now
    obtain ⟨fuel, ended⟩ := ih (by omega) later (by omega)
    exact ⟨fuel + 1, loop_ok next ended⟩

end Loop
