import TlpiExercises.Getcwd.Path

/-!
# The directory that the caller is left in

The climb changes the current directory, and only the way back behind it changes it again.
-/

namespace Tlpi.Getcwd

open FileSystem Loop

variable {v : Volumes} {climb : Nat → Climb} {failures : Failures} {here q : Position}
  {level size : Nat} {names : List Name} {errno : Error} {ending : Ending}

/-- Whatever the call returns, the process is back in its directory. -/
def Restores (v : Volumes) (failures : Failures) (here : Position) (size : Nat) : Prop :=
  ∀ fuel result q, impGetcwd v failures here size fuel = some (.returned result q) → q = here

/-- The call starts at the root, or fails before the first `chdir` has succeeded, or the process exits,
or the path that is found is not refused. -/
inductive Stays (v : Volumes) (failures : Failures) (here : Position) (size : Nat) : Prop where
  | root (at_root : here = [])
  | getcwd (fails : failures.getcwd ≠ none)
  | long (long : PATH_MAX ≤ (absolute here).length)
  | statCurrent (fails : (failures.climb 0).statCurrent ≠ none)
  | chdirUp (fails : (failures.climb 0).chdirUp ≠ none)
  | exits (exits : Exits v failures.climb 0 here)
  | path {names : List Name} (climbs : Climbs v failures.climb 0 here names)
      (fits : pathLength names ≤ size) (allowed : pathLength names < PATH_MAX)

theorem Climbs.not_exits (dir : v.kind here = some .dir)
    (climbs : Climbs v climb level here names) : ¬ Exits v climb level here := by
  induction climbs with
  | root =>
    intro exits
    cases exits
  | up _ _ finds closes _ ih =>
    have parent := v.parent dir
    rintro (⟨_, _, fails⟩ | ⟨_, _, _, fails⟩ | ⟨_, _, _, _, exits⟩)
    · have both := (finds.scan parent dir).symm.trans (fails.scan parent dir)
      cases both
    · exact fails closes
    · exact ih parent exits

theorem restores_ended (begins : failures.getcwd = none)
    (short : (absolute here).length < PATH_MAX)
    (ended : ∃ fuel, loop (round v failures.climb) fuel ⟨here, 0, []⟩ = some ending) :
    Restores v failures here size ↔ ∀ result q,
      afterLoop v failures.chdirBack size (absolute here) ending = .returned result q →
        q = here := by
  constructor
  · intro restores result q same
    obtain ⟨fuel, call⟩ := (impGetcwd_iff begins short ended).mpr same
    exact restores fuel result q call
  · intro back fuel result q call
    exact back result q ((impGetcwd_iff begins short ended).mp ⟨fuel, call⟩)

/-- A call that fails before its loop returns from where it was made. -/
theorem restores_first (first : failures.getcwd ≠ none ∨ PATH_MAX ≤ (absolute here).length) :
    Restores v failures here size := by
  intro fuel result q call
  obtain ⟨errno, fails⟩ :
      ∃ errno, attempt failures.getcwd (FileSystem.getcwd here PATH_MAX) = .error errno := by
    cases found : failures.getcwd with
    | some errno => exact ⟨errno, rfl⟩
    | none =>
      have long := first.resolve_left (not_not_intro found)
      exact ⟨.ERANGE, if_neg (Nat.not_lt.mpr long)⟩
  rw [impGetcwd, fails] at call
  cases call
  rfl

/-- A climb that has found a path too long for the buffer, or for the function, ends at the root. -/
theorem finish_back (dir : v.kind here = some .dir) (short : (absolute here).length < PATH_MAX)
    (climbs : Climbs v failures.climb 0 here names) :
    (∀ result q, finish v failures.chdirBack size (absolute here) [] names = .returned result q →
      q = here) ↔ here = [] ∨ (pathLength names ≤ size ∧ pathLength names < PATH_MAX) := by
  rcases finish_cases size [] names failures.chdirBack dir short with ⟨small, ended⟩ | ⟨_, long, ended⟩ | ⟨at_root, _, ended⟩ |
      ⟨_, fits, allowed, ⟨_, ended⟩ | ⟨_, ended⟩⟩ <;> rw [ended]
  · constructor
    · intro back
      exact Or.inl (back _ [] rfl).symm
    · rintro (rfl | ⟨fits, _⟩) result q same
      · exact (Outcome.returned.inj same).2.symm
      · omega
  · constructor
    · intro back
      exact Or.inl (back _ [] rfl).symm
    · rintro (rfl | ⟨_, allowed⟩) result q same
      · exact (Outcome.returned.inj same).2.symm
      · omega
  · constructor
    · intro _
      have length := climbs.length
      rw [at_root, List.length_nil] at length
      exact Or.inl (List.eq_nil_of_length_eq_zero length.symm)
    · rintro _ _ _ ⟨⟩
  · constructor
    · intro _
      exact Or.inr ⟨fits, allowed⟩
    · rintro _ _ _ ⟨⟩
  · constructor
    · intro _
      exact Or.inr ⟨fits, allowed⟩
    · intro _ result q same
      exact (Outcome.returned.inj same).2.symm

theorem restores_iff (dir : v.kind here = some .dir) :
    Restores v failures here size ↔ Stays v failures here size := by
  by_cases first : failures.getcwd ≠ none ∨ PATH_MAX ≤ (absolute here).length
  · refine ⟨fun _ => ?_, fun _ => restores_first first⟩
    rcases first with fails | long
    · exact .getcwd fails
    · exact .long long
  obtain ⟨begins, long⟩ := not_or.mp first
  have begins := not_not.mp begins
  have short := Nat.not_le.mp long
  rcases loop_cases failures.climb 0 [] dir with
    ⟨names, climbs, ended⟩ | ⟨exits, ended⟩ | ⟨q, errno, stuck, ended⟩ <;>
    rw [restores_ended begins short ended, afterLoop]
  · rw [List.nil_append, finish_back dir short climbs]
    constructor
    · rintro (at_root | ⟨fits, allowed⟩)
      · exact .root at_root
      · exact .path climbs fits allowed
    · rintro (at_root | fails | long | fails | fails | exits | ⟨again, fits, allowed⟩)
      · exact Or.inl at_root
      · exact absurd begins fails
      · omega
      · exact absurd climbs.goes.statCurrent fails
      · exact absurd climbs.goes.chdirUp fails
      · exact absurd exits (climbs.not_exits dir)
      · rw [climbs.unique dir again]
        exact Or.inr ⟨fits, allowed⟩
  · constructor
    · intro _
      exact .exits exits
    · rintro _ _ _ ⟨⟩
  · constructor
    · intro back
      obtain rfl := back _ q rfl
      rcases stuck.place with ⟨_, at_root | fails | fails⟩ | ⟨lower, _⟩
      · exact .root at_root
      · exact .statCurrent fails
      · exact .chdirUp fails
      · exact absurd lower (lt_irrefl _)
    · intro stays result p same
      obtain rfl := (Outcome.returned.inj same).2
      rcases stuck.place with ⟨at_here, _⟩ | ⟨lower, statCurrent, chdirUp⟩
      · exact at_here
      · cases stays with
        | root at_root =>
          rw [at_root, List.length_nil] at lower
          omega
        | getcwd fails => exact absurd begins fails
        | long long => omega
        | statCurrent fails => exact absurd statCurrent fails
        | chdirUp fails => exact absurd chdirUp fails
        | exits exits => exact absurd exits stuck.exits
        | path climbs _ _ => exact absurd climbs (stuck.climbs _)

theorem restores_dir : Restores dirAndDangling.volumes noFailures [[100]] 3 :=
  (restores_iff rfl).mpr (.path climbs_dir (by decide) (by decide))

/-- A buffer that is too small leaves the caller in the root. -/
theorem small_buffer_at_root : dirAndDangling.volumes.kind [[100]] = some .dir ∧
    ¬ Restores dirAndDangling.volumes noFailures [[100]] 2 := by
  refine ⟨rfl, fun restores => ?_⟩
  have call : impGetcwd dirAndDangling.volumes noFailures [[100]] 2 2 =
      some (.returned (.error .ERANGE) []) := rfl
  have back := restores 2 (.error .ERANGE) [] call
  cases back

end Tlpi.Getcwd
