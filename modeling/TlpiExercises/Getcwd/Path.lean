import TlpiExercises.Getcwd.Climb

/-!
# The path that is put together

When no call fails for another reason, a climb to the root gives a name for every directory on the way:
the first entry that leads to it.
-/

namespace Tlpi.Getcwd

open FileSystem Loop Pathnames

variable {v : Volumes} {calls : Climb} {climb : Nat → Climb} {failures : Failures}
  {cwd current here p : Position} {i level size : Nat} {e : Name} {entries names : List Name}
  {w : List UInt8} {ending : Ending} {outcome : Outcome}

/-! ### The names of a climb -/

theorem Finds.listed (finds : Finds v calls cwd current i entries e) :
    e ∈ entries ∧ e ≠ dot ∧ e ≠ dotDot := by
  induction finds with
  | first leads => exact ⟨List.mem_cons_self, leads.not_dot, leads.not_dotDot⟩
  | later _ _ ih => exact ⟨List.mem_cons_of_mem _ ih.1, ih.2⟩

theorem Finds.valid (finds : Finds v calls p current i (v.readdir p) e) : ValidName e := by
  obtain ⟨listed, not_dot, not_dotDot⟩ := finds.listed
  rcases v.exist listed with is_dot | is_dotDot | there
  · exact absurd is_dot not_dot
  · exact absurd is_dotDot not_dotDot
  · obtain ⟨kind, there⟩ := Option.ne_none_iff_exists'.mp there
    exact v.name there

theorem Climbs.valid (climbs : Climbs v climb level here names) : ∀ n ∈ names, ValidName n := by
  induction climbs with
  | root => nofun
  | up _ _ finds _ _ ih => exact List.forall_mem_cons.mpr ⟨finds.valid, ih⟩

theorem Climbs.length (climbs : Climbs v climb level here names) : names.length = here.length := by
  induction climbs with
  | root => rfl
  | up _ _ _ _ _ ih => rw [List.length_cons, List.length_cons, ih]

theorem Climbs.unique {others : List Name} (dir : v.kind here = some .dir)
    (climbs : Climbs v climb level here names) (again : Climbs v climb level here others) :
    names = others := by
  induction climbs generalizing others with
  | root =>
    cases again
    rfl
  | up _ _ finds _ _ ih =>
    obtain _ | ⟨_, _, found, _, later⟩ := again
    have parent := v.parent dir
    have both := (finds.scan parent dir).symm.trans (found.scan parent dir)
    cases both
    rw [ih parent later]

theorem Climbs.absolute_eq (dir : v.kind here = some .dir)
    (climbs : Climbs v climb level here names) : absolute names = absolute here ↔ names = here := by
  constructor
  · intro same
    have split := congrArg (Pathnames.names slash) same
    have valid (n : Name) (member : n ∈ names.reverse) : n ≠ [] ∧ slash ∉ n :=
      have valid := climbs.valid n (List.mem_reverse.mp member)
      ⟨valid.nonempty, valid.free⟩
    rw [names_absolute dir, absolute, names_render valid] at split
    exact List.reverse_injective split
  · rintro rfl
    rfl

theorem ReadFails.failure (fails : ReadFails v calls cwd current i entries) :
    ∃ j, calls.readdir j ≠ none := by
  induction fails with
  | now fails => exact ⟨_, fails⟩
  | later _ _ ih => exact ih

/-- The process exits only if a call fails for another reason. -/
theorem not_exits : ¬ Exits v noFailures.climb level here := by
  intro exits
  induction exits with
  | readdir _ _ fails =>
    obtain ⟨_, failure⟩ := fails.failure
    exact failure rfl
  | closedir _ _ _ fails => exact fails rfl
  | up _ _ _ _ _ ih => exact ih

/-! ### The string -/

theorem strcat_fits {dest source : List UInt8} (fits : (dest ++ source).length < size) :
    strcat size dest source = .ok (dest ++ source) := by
  rw [List.length_append] at fits
  exact if_pos fits

theorem putComponents_render {components : List Name} (some_component : components ≠ [])
    (fits : (w ++ render slash components).length < size) :
    putComponents size (w ++ [slash]) components = .ok (w ++ render slash components) := by
  induction components generalizing w with
  | nil => exact absurd rfl some_component
  | cons n rest ih =>
    have first : render slash (n :: rest) = slash :: (n ++ rest.flatMap (slash :: ·)) := by
      rw [render, if_neg (List.cons_ne_nil n rest), List.flatMap_cons]
      rfl
    rw [first] at fits ⊢
    have one : strcat size (w ++ [slash]) n = .ok (w ++ slash :: n) := by
      rw [strcat_fits, List.append_assoc]
      · rfl
      · simp only [List.length_append, List.length_cons, List.length_nil] at fits ⊢
        omega
    rw [putComponents, one]
    by_cases last : rest = []
    · subst last
      rw [List.flatMap_nil, List.append_nil]
      rfl
    · have later : render slash rest = rest.flatMap (slash :: ·) := if_neg last
      have all : w ++ slash :: (n ++ rest.flatMap (slash :: ·)) =
          (w ++ slash :: n) ++ render slash rest := by
        rw [later, List.append_assoc, List.cons_append]
      rw [all] at fits ⊢
      have two : strcat size (w ++ slash :: n) [slash] = .ok ((w ++ slash :: n) ++ [slash]) := by
        refine strcat_fits ?_
        cases rest with
        | nil => exact absurd rfl last
        | cons m rest =>
          rw [later, List.flatMap_cons] at fits
          simp only [List.length_append, List.length_cons, List.length_nil] at fits ⊢
          omega
      rw [← ih last fits]
      simp only [bind, Except.bind, if_neg last, two]

theorem absolute_length (below : p ≠ []) :
    (absolute p).length = (p.map fun n => n.length + 1).sum := by
  have down : p.reverse ≠ [] := mt List.reverse_eq_nil_iff.mp below
  rw [absolute, render, if_neg down, List.length_flatMap, List.map_reverse, List.sum_reverse]
  rfl

theorem pathLength_absolute (below : names ≠ []) :
    pathLength names = (absolute names).length + 1 := by
  rw [absolute_length below, pathLength, Nat.add_comm]

theorem pathLength_le (names : List Name) : pathLength names ≤ (absolute names).length + 1 := by
  by_cases below : names = []
  · rw [below]
    decide
  · exact (pathLength_absolute below).le

/-- The string when there is room: the path of the names, and the root's without a name. -/
theorem put_absolute (fits : (absolute names).length < size) :
    (do
      let cwdbuf ← strcat size [] [slash]
      putComponents size cwdbuf names.reverse) = .ok (absolute names) := by
  have room : 1 < size := by
    have nonempty := List.length_pos_iff.mpr (absolute_ne_nil (p := names))
    omega
  have first : strcat size [] [slash] = .ok ([] ++ [slash]) := if_pos room
  rw [first]
  by_cases below : names = []
  · rw [below]
    rfl
  · exact putComponents_render (mt List.reverse_eq_nil_iff.mp below) fits

/-! ### The end of a call -/

variable {chdirBack : Option Error}

theorem finish_small (small : size < pathLength names) :
    finish v chdirBack size w p names = .returned (.error .ERANGE) p := if_pos small

/-- What follows a climb: one of the two refusals, the root's NUL past the end of the buffer, or the
string, if the process gets back. -/
theorem finish_cases (size : Nat) (p : Position) (names : List Name) (chdirBack : Option Error)
    (dir : v.kind here = some .dir) (short : (absolute here).length < PATH_MAX) :
    (size < pathLength names ∧
      finish v chdirBack size (absolute here) p names = .returned (.error .ERANGE) p) ∨
    (pathLength names ≤ size ∧ PATH_MAX ≤ pathLength names ∧
      finish v chdirBack size (absolute here) p names = .returned (.error .ENAMETOOLONG) p) ∨
    (names = [] ∧ size = 1 ∧
      finish v chdirBack size (absolute here) p names = .undefined .outOfBounds) ∨
    ((absolute names).length < size ∧ pathLength names ≤ size ∧ pathLength names < PATH_MAX ∧
      ((chdirBack ≠ none ∧ finish v chdirBack size (absolute here) p names = .exited) ∨
        (chdirBack = none ∧ finish v chdirBack size (absolute here) p names =
          .returned (.ok (absolute names)) here))) := by
  by_cases small : size < pathLength names
  · exact Or.inl ⟨small, finish_small small⟩
  by_cases long : PATH_MAX ≤ pathLength names
  · refine Or.inr (Or.inl ⟨Nat.not_lt.mp small, long, ?_⟩)
    rw [finish, if_neg small, if_pos long]
  refine Or.inr (Or.inr ?_)
  by_cases room : (absolute names).length < size
  · refine Or.inr ⟨room, Nat.not_lt.mp small, Nat.not_le.mp long, ?_⟩
    rw [finish, if_neg small, if_neg long, put_absolute room]
    cases chdirBack with
    | some errno => exact Or.inl ⟨Option.some_ne_none errno, rfl⟩
    | none =>
      refine Or.inr ⟨rfl, ?_⟩
      rw [attempt_none, chdir_absolute dir short]
  · have at_root : names = [] := by
      refine Decidable.not_not.mp fun below => ?_
      have length := pathLength_absolute below
      omega
    subst at_root
    -- the length is counted from 1, and the path of the root has a `/` all the same
    have one : pathLength [] = 1 := rfl
    have slash_only : (absolute []).length = 1 := rfl
    obtain rfl : size = 1 := by omega
    exact Or.inl ⟨rfl, rfl, rfl⟩

theorem impGetcwd_loop {fuel : Nat} (begins : failures.getcwd = none)
    (short : (absolute here).length < PATH_MAX) :
    impGetcwd v failures here size fuel =
      (loop (round v failures.climb) fuel ⟨here, 0, []⟩).map
        (afterLoop v failures.chdirBack size (absolute here)) := by
  rw [impGetcwd, begins, attempt_none, getcwd, if_pos short]

theorem impGetcwd_iff (begins : failures.getcwd = none)
    (short : (absolute here).length < PATH_MAX)
    (ended : ∃ fuel, loop (round v failures.climb) fuel ⟨here, 0, []⟩ = some ending) :
    (∃ fuel, impGetcwd v failures here size fuel = some outcome) ↔
      afterLoop v failures.chdirBack size (absolute here) ending = outcome := by
  obtain ⟨enough, ended⟩ := ended
  constructor
  · rintro ⟨fuel, same⟩
    rw [impGetcwd_loop begins short, Option.map_eq_some_iff] at same
    obtain ⟨other, ended_so, same⟩ := same
    rw [loop_unique ended ended_so, same]
  · intro same
    refine ⟨enough, ?_⟩
    rw [impGetcwd_loop begins short, ended, Option.map_some, same]

/-! ### The path of the current directory -/

/-- The call returns what `getcwd` is to return, and all that it writes is inside the buffer. -/
def Returns (v : Volumes) (here : Position) (size : Nat) : Prop :=
  ∃ q, ∃ fuel, impGetcwd v noFailures here size fuel =
    some (.returned (if (absolute here).length + 1 ≤ size then .ok (absolute here)
      else .error .ERANGE) q)

theorem finish_returns (dir : v.kind here = some .dir)
    (short : (absolute here).length < PATH_MAX) (climbs : Climbs v climb level here names) :
    (∃ q, finish v none size (absolute here) p names =
      .returned (if (absolute here).length + 1 ≤ size then .ok (absolute here)
        else .error .ERANGE) q) ↔
      if (absolute here).length + 1 ≤ size then names = here ∧ (absolute here).length + 1 < PATH_MAX
      else size < pathLength names := by
  have lengths := pathLength_le names
  rcases finish_cases size p names none dir short with
    ⟨small, ended⟩ | ⟨fits, long, ended⟩ | ⟨at_root, one, ended⟩ |
      ⟨room, fits, allowed, ⟨failed, _⟩ | ⟨_, ended⟩⟩
  · rw [ended]
    by_cases enough : (absolute here).length + 1 ≤ size
    · simp only [if_pos enough]
      constructor
      · rintro ⟨_, ⟨⟩⟩
      · rintro ⟨rfl, _⟩
        omega
    · simp only [if_neg enough]
      exact ⟨fun _ => small, fun _ => ⟨p, rfl⟩⟩
  · rw [ended]
    by_cases enough : (absolute here).length + 1 ≤ size
    · simp only [if_pos enough]
      constructor
      · rintro ⟨_, ⟨⟩⟩
      · rintro ⟨rfl, _⟩
        omega
    · simp only [if_neg enough]
      constructor
      · rintro ⟨_, ⟨⟩⟩
      · intro small
        omega
  · rw [ended]
    subst at_root one
    have slash_only : (absolute []).length = 1 := rfl
    by_cases enough : (absolute here).length + 1 ≤ 1
    · have nonempty := List.length_pos_iff.mpr (absolute_ne_nil (p := here))
      omega
    · simp only [if_neg enough]
      constructor
      · rintro ⟨_, ⟨⟩⟩
      · intro small
        exact absurd small (lt_irrefl 1)
  · exact absurd rfl failed
  · rw [ended]
    by_cases enough : (absolute here).length + 1 ≤ size
    · simp only [if_pos enough]
      constructor
      · rintro ⟨_, same⟩
        have path := Except.ok.inj (Outcome.returned.inj same).1
        obtain rfl := (climbs.absolute_eq dir).mp path
        refine ⟨rfl, ?_⟩
        by_cases below : names = []
        · rw [below]
          decide
        · rw [← pathLength_absolute below]
          exact allowed
      · rintro ⟨rfl, _⟩
        exact ⟨names, rfl⟩
    · simp only [if_neg enough]
      constructor
      · rintro ⟨_, ⟨⟩⟩
      · intro small
        omega

/-- The call returns what it is to if every directory on the way up is found under its own name, in
front of any entry that leads nowhere; with too small a buffer the names found need only be too long
for it. -/
theorem returns_iff (dir : v.kind here = some .dir) (short : (absolute here).length < PATH_MAX) :
    Returns v here size ↔ ∃ names, Climbs v noFailures.climb 0 here names ∧
      if (absolute here).length + 1 ≤ size then
        names = here ∧ (absolute here).length + 1 < PATH_MAX
      else size < pathLength names := by
  unfold Returns
  rcases loop_cases noFailures.climb 0 [] dir with
    ⟨names, climbs, ended⟩ | ⟨exits, _⟩ | ⟨q, errno, stuck, ended⟩
  · rw [List.nil_append] at ended
    simp only [impGetcwd_iff rfl short ended, afterLoop]
    refine (finish_returns dir short climbs).trans ⟨fun right => ⟨names, climbs, right⟩, ?_⟩
    rintro ⟨others, again, right⟩
    rw [climbs.unique dir again]
    exact right
  · exact absurd exits not_exits
  · simp only [impGetcwd_iff rfl short ended, afterLoop]
    constructor
    · rintro ⟨_, same⟩
      have result := Outcome.returned.inj same
      split at result
      · cases result.1
      · exact absurd (Except.error.inj result.1) (stuck.reason rfl)
    · rintro ⟨names, climbs, _⟩
      exact absurd climbs (stuck.climbs names)

/-- A directory `d` and a symbolic link `x` to a name that does not exist. -/
def dirAndDangling : Flat := ⟨[([100], .dir), ([120], .link [121])], by decide⟩

def danglingAndDir : Flat := ⟨[([120], .link [121]), ([100], .dir)], by decide⟩

theorem climbs_dir : Climbs dirAndDangling.volumes noFailures.climb 0 [[100]] [[100]] := by
  have finds : Finds dirAndDangling.volumes (noFailures.climb 0) [] [[100]] 0
      (dirAndDangling.volumes.readdir []) [100] :=
    .first ⟨rfl, by decide, by decide, rfl, rfl⟩
  exact .up ⟨rfl, rfl, rfl⟩ rfl finds rfl (.root ⟨rfl, rfl, rfl⟩)

theorem returns_dir_first : Returns dirAndDangling.volumes [[100]] 3 := by
  refine (returns_iff rfl (by decide)).mpr ⟨[[100]], climbs_dir, ?_⟩
  rw [if_pos (by decide)]
  exact ⟨rfl, by decide⟩

/-- `stat` of the link fails in front of the directory. -/
theorem dangling_first : danglingAndDir.volumes.kind [[100]] = some .dir ∧
    (absolute [[100]]).length < PATH_MAX ∧ ¬ Returns danglingAndDir.volumes [[100]] 4096 := by
  have short : (absolute [[100]]).length < PATH_MAX := by decide
  have ended : loop (round danglingAndDir.volumes noFailures.climb) 1 ⟨[[100]], 0, []⟩ =
      some (.null .ENOENT []) := rfl
  refine ⟨rfl, short, ?_⟩
  rintro ⟨q, returns⟩
  have outcome := (impGetcwd_iff rfl short ⟨1, ended⟩).mp returns
  cases outcome

end Tlpi.Getcwd
