import TlpiExercises.Getcwd.Model

/-!
# The way up to the root

What each directory on the way up is found as, and what ends the climb otherwise: the process exits, or
the function returns from where it has got to.
-/

namespace Tlpi.Getcwd

open FileSystem Loop

variable {v : Volumes} {calls : Climb} {climb : Nat → Climb} {cwd current here p q : Position}
  {i level : Nat} {n e : Name} {rest entries names : List Name} {errno : Error}

/-! ### The search of a directory -/

/-- An entry that the search passes over. -/
structure Passes (v : Volumes) (calls : Climb) (cwd current : Position) (i : Nat) (n : Name) :
    Prop where
  read : calls.readdir i = none
  other : n = dot ∨ n = dotDot ∨
    (calls.statEntry i = none ∧ ∃ q, stat v.toTree cwd n = .ok q ∧ q ≠ current)

/-- An entry that leads to the current directory. -/
structure Leads (v : Volumes) (calls : Climb) (cwd current : Position) (i : Nat) (e : Name) :
    Prop where
  read : calls.readdir i = none
  not_dot : e ≠ dot
  not_dotDot : e ≠ dotDot
  call : calls.statEntry i = none
  same : stat v.toTree cwd e = .ok current

/-- The first entry that leads to the current directory, with no failure in front of it. -/
inductive Finds (v : Volumes) (calls : Climb) (cwd current : Position) :
    Nat → List Name → Name → Prop where
  | first {i : Nat} {e : Name} {rest : List Name} (leads : Leads v calls cwd current i e) :
      Finds v calls cwd current i (e :: rest) e
  | later {i : Nat} {n e : Name} {rest : List Name} (passes : Passes v calls cwd current i n)
      (finds : Finds v calls cwd current (i + 1) rest e) : Finds v calls cwd current i (n :: rest) e

/-- `readdir` fails before the current directory is found. -/
inductive ReadFails (v : Volumes) (calls : Climb) (cwd current : Position) :
    Nat → List Name → Prop where
  | now {i : Nat} {entries : List Name} (fails : calls.readdir i ≠ none) :
      ReadFails v calls cwd current i entries
  | later {i : Nat} {n : Name} {rest : List Name} (passes : Passes v calls cwd current i n)
      (fails : ReadFails v calls cwd current (i + 1) rest) :
      ReadFails v calls cwd current i (n :: rest)

theorem resolve_exists {follow : Bool} {s : List UInt8} (dir : v.kind cwd = some .dir)
    (found : resolve v.toTree follow cwd s = .ok q) : v.kind q ≠ none := by
  unfold resolve at found
  split at found
  · cases found
  split at found
  · cases found
  exact walk_exists (dir_start dir) found

theorem same_iff (dir : v.kind current = some .dir) (there : v.kind q ≠ none) :
    (v.ino q = v.ino current ∧ v.dev q = v.dev current) ↔ q = current := by
  constructor
  · rintro ⟨ino, dev⟩
    exact v.distinct dir there ino dev
  · rintro rfl
    exact ⟨rfl, rfl⟩

theorem scan_failed (fails : calls.readdir i ≠ none) :
    scan v calls cwd current i entries = .failed := by
  cases found : calls.readdir i with
  | none => exact absurd found fails
  | some errno => cases entries <;> rw [scan, found]

theorem scan_passes (dir_cwd : v.kind cwd = some .dir) (dir : v.kind current = some .dir)
    (passes : Passes v calls cwd current i n) :
    scan v calls cwd current i (n :: rest) = scan v calls cwd current (i + 1) rest := by
  obtain ⟨read, other⟩ := passes
  rw [scan, read]
  dsimp only
  rcases or_assoc.mpr other with dots | ⟨call, q, found, different⟩
  · rw [if_pos dots]
  · split
    · rfl
    · have there := resolve_exists dir_cwd found
      rw [call, attempt_none, found]
      dsimp only
      rw [if_neg ((same_iff dir there).not.mpr different)]

theorem scan_leads (leads : Leads v calls cwd current i e) :
    scan v calls cwd current i (e :: rest) = .done (some e) := by
  obtain ⟨read, not_dot, not_dotDot, call, same⟩ := leads
  rw [scan, read]
  dsimp only
  rw [if_neg (not_or.mpr ⟨not_dot, not_dotDot⟩), call, attempt_none, same]
  exact if_pos ⟨rfl, rfl⟩

/-- What the search does at one entry. -/
theorem scan_step (v : Volumes) (cwd current : Position) (n : Name) (rest : List Name)
    (read : calls.readdir i = none) :
    Passes v calls cwd current i n ∨ Leads v calls cwd current i n ∨
      ∃ errno, attempt (calls.statEntry i) (stat v.toTree cwd n) = .error errno ∧
        scan v calls cwd current i (n :: rest) = .null errno := by
  by_cases dots : n = dot ∨ n = dotDot
  · exact Or.inl ⟨read, or_assoc.mp (Or.inl dots)⟩
  obtain ⟨not_dot, not_dotDot⟩ := not_or.mp dots
  cases tried : attempt (calls.statEntry i) (stat v.toTree cwd n) with
  | error errno =>
    refine Or.inr (Or.inr ⟨errno, rfl, ?_⟩)
    rw [scan, read]
    dsimp only
    rw [if_neg dots, tried]
  | ok q =>
    cases call : calls.statEntry i with
    | some errno =>
      rw [call] at tried
      cases tried
    | none =>
      rw [call] at tried
      by_cases same : q = current
      · exact Or.inr (Or.inl ⟨read, not_dot, not_dotDot, call, same ▸ tried⟩)
      · exact Or.inl ⟨read, Or.inr (Or.inr ⟨call, q, tried, same⟩)⟩

theorem Finds.scan (dir_cwd : v.kind cwd = some .dir) (dir : v.kind current = some .dir)
    (finds : Finds v calls cwd current i entries e) :
    scan v calls cwd current i entries = .done (some e) := by
  induction finds with
  | first leads => exact scan_leads leads
  | later passes _ ih => rw [scan_passes dir_cwd dir passes, ih]

theorem ReadFails.scan (dir_cwd : v.kind cwd = some .dir) (dir : v.kind current = some .dir)
    (fails : ReadFails v calls cwd current i entries) :
    scan v calls cwd current i entries = .failed := by
  induction fails with
  | now fails => exact scan_failed fails
  | later passes _ ih => rw [scan_passes dir_cwd dir passes, ih]

/-- The search of a list that has the current directory under its own name. -/
theorem scan_cases (calls : Climb) (i : Nat) (dir_cwd : v.kind cwd = some .dir) (dir : v.kind current = some .dir)
    (own : stat v.toTree cwd n = .ok current) (not_dot : n ≠ dot) (not_dotDot : n ≠ dotDot)
    (listed : n ∈ entries) :
    (∃ e, Finds v calls cwd current i entries e) ∨ ReadFails v calls cwd current i entries ∨
      ∃ errno, scan v calls cwd current i entries = .null errno ∧
        ∃ j m, attempt (calls.statEntry j) (stat v.toTree cwd m) = .error errno := by
  induction entries generalizing i with
  | nil => cases listed
  | cons m rest ih =>
    by_cases read : calls.readdir i = none
    · rcases scan_step v cwd current m rest read with
        passes | leads | ⟨errno, tried, null⟩
      · have later : n ∈ rest := by
          refine (List.mem_cons.mp listed).resolve_left fun same => ?_
          rcases passes.other with is_dot | is_dotDot | ⟨_, q, found, different⟩
          · exact not_dot (same.trans is_dot)
          · exact not_dotDot (same.trans is_dotDot)
          · rw [← same, own] at found
            exact different (Except.ok.inj found).symm
        rcases ih (i + 1) later with ⟨e, finds⟩ | fails | ⟨errno, null, tried⟩
        · exact Or.inl ⟨e, .later passes finds⟩
        · exact Or.inr (Or.inl (.later passes fails))
        · exact Or.inr (Or.inr ⟨errno, (scan_passes dir_cwd dir passes).trans null, tried⟩)
      · exact Or.inl ⟨m, .first leads⟩
      · exact Or.inr (Or.inr ⟨errno, null, i, m, tried⟩)
    · exact Or.inr (Or.inl (.now read))

/-! ### The climb -/

/-- The calls that go up one directory. -/
structure Goes (calls : Climb) : Prop where
  statCurrent : calls.statCurrent = none
  chdirUp : calls.chdirUp = none
  statParent : calls.statParent = none

/-- The loop reaches the root, with the names that it has found the directories as. -/
inductive Climbs (v : Volumes) (climb : Nat → Climb) : Nat → Position → List Name → Prop where
  | root {level : Nat} (goes : Goes (climb level)) : Climbs v climb level [] []
  | up {level : Nat} {n e : Name} {p : Position} {names : List Name} (goes : Goes (climb level))
      (opens : (climb level).opendir = none)
      (finds : Finds v (climb level) p (n :: p) 0 (v.readdir p) e)
      (closes : (climb level).closedir = none) (climbs : Climbs v climb (level + 1) p names) :
      Climbs v climb level (n :: p) (e :: names)

/-- The process exits on the way, because of `readdir` or `closedir`. -/
inductive Exits (v : Volumes) (climb : Nat → Climb) : Nat → Position → Prop where
  | readdir {level : Nat} {n : Name} {p : Position} (goes : Goes (climb level))
      (opens : (climb level).opendir = none)
      (fails : ReadFails v (climb level) p (n :: p) 0 (v.readdir p)) :
      Exits v climb level (n :: p)
  | closedir {level : Nat} {n e : Name} {p : Position} (goes : Goes (climb level))
      (opens : (climb level).opendir = none)
      (finds : Finds v (climb level) p (n :: p) 0 (v.readdir p) e)
      (fails : (climb level).closedir ≠ none) : Exits v climb level (n :: p)
  | up {level : Nat} {n e : Name} {p : Position} (goes : Goes (climb level))
      (opens : (climb level).opendir = none)
      (finds : Finds v (climb level) p (n :: p) 0 (v.readdir p) e)
      (closes : (climb level).closedir = none) (exits : Exits v climb (level + 1) p) :
      Exits v climb level (n :: p)

theorem stat_dot : stat v.toTree cwd dot = .ok cwd := resolve_dot

theorem chdir_dotDot (dir : v.kind cwd = some .dir) :
    chdir v.toTree cwd dotDot = .ok cwd.tail := by
  unfold chdir
  rw [resolve_dotDot]
  exact if_pos (dir_tail dir)

theorem stat_name (dir : v.kind (n :: p) = some .dir) : stat v.toTree p n = .ok (n :: p) := by
  unfold stat
  rw [resolve_name (v.name dir), walk_dir dir, walk_nil]

theorem round_root {components : List Name} (goes : Goes (climb level)) :
    round v climb ⟨[], level, components⟩ = .error (.root [] components) := by
  obtain ⟨statCurrent, chdirUp, statParent⟩ := goes
  unfold round
  dsimp only
  rw [statCurrent, chdirUp, statParent]
  simp only [attempt_none, stat_dot, chdir_dotDot v.root, List.tail_nil, and_self, if_true]

/-- One round below the root, behind the first three calls. -/
theorem round_up (components : List Name) (dir : v.kind (n :: p) = some .dir)
    (goes : Goes (climb level)) :
    ((climb level).opendir = none → round v climb ⟨n :: p, level, components⟩ =
      afterScan (climb level).closedir ⟨n :: p, level, components⟩ p
        (scan v (climb level) p (n :: p) 0 (v.readdir p))) ∧
    ∀ errno, (climb level).opendir = some errno →
      round v climb ⟨n :: p, level, components⟩ = .error (.null errno p) := by
  obtain ⟨statCurrent, chdirUp, statParent⟩ := goes
  have parent : v.kind p = some .dir := v.parent dir
  have different : ¬ (v.ino (n :: p) = v.ino p ∧ v.dev (n :: p) = v.dev p) := by
    rw [same_iff parent (dir ▸ Option.some_ne_none _)]
    exact List.cons_ne_self n p
  unfold round
  dsimp only
  rw [statCurrent, chdirUp, statParent]
  simp only [attempt_none, stat_dot, chdir_dotDot dir, List.tail_cons, if_neg different]
  constructor
  · intro opens
    rw [opens]
  · intro errno fails
    rw [fails]

/-- What a call of the loop comes to when it neither reaches the root nor exits. -/
structure Stuck (v : Volumes) (climb : Nat → Climb) (level : Nat) (here q : Position)
    (errno : Error) : Prop where
  climbs : ∀ names, ¬ Climbs v climb level here names
  exits : ¬ Exits v climb level here
  place : (q = here ∧ (here = [] ∨ (climb level).statCurrent ≠ none ∨ (climb level).chdirUp ≠ none)) ∨
    (q.length < here.length ∧ (climb level).statCurrent = none ∧ (climb level).chdirUp = none)
  reason : climb = noFailures.climb → errno ≠ .ERANGE

theorem Climbs.goes (climbs : Climbs v climb level here names) : Goes (climb level) := by
  cases climbs with
  | root goes => exact goes
  | up goes => exact goes

theorem Exits.goes (exits : Exits v climb level here) : Goes (climb level) := by
  cases exits with
  | readdir goes => exact goes
  | closedir goes => exact goes
  | up goes => exact goes

/-- A round in which one of the first calls fails. -/
theorem stuck_first (components : List Name) (dir : v.kind here = some .dir)
    (fails : ¬ Goes (climb level)) :
    ∃ q errno, round v climb ⟨here, level, components⟩ = .error (.null errno q) ∧
      Stuck v climb level here q errno := by
  have climbs (names : List Name) (climbs : Climbs v climb level here names) : False :=
    fails climbs.goes
  have exits (exits : Exits v climb level here) : False := fails exits.goes
  have reason (errno : Error) (none : climb = noFailures.climb) : errno ≠ .ERANGE :=
    absurd ⟨none ▸ rfl, none ▸ rfl, none ▸ rfl⟩ fails
  unfold round
  dsimp only
  cases first : (climb level).statCurrent with
  | some errno =>
    exact ⟨here, errno, rfl, climbs, exits, Or.inl ⟨rfl, Or.inr (Or.inl (first ▸ nofun))⟩,
      reason errno⟩
  | none =>
    rw [attempt_none, stat_dot]
    dsimp only
    cases second : (climb level).chdirUp with
    | some errno =>
      exact ⟨here, errno, rfl, climbs, exits, Or.inl ⟨rfl, Or.inr (Or.inr (second ▸ nofun))⟩,
        reason errno⟩
    | none =>
      rw [attempt_none, chdir_dotDot dir]
      dsimp only
      cases third : (climb level).statParent with
      | some errno =>
        refine ⟨here.tail, errno, rfl, climbs, exits, ?_, reason errno⟩
        cases here with
        | nil => exact Or.inl ⟨rfl, Or.inl rfl⟩
        | cons n p => exact Or.inr ⟨Nat.lt_succ_self _, first, second⟩
      | none => exact absurd ⟨first, second, third⟩ fails

theorem resolve_error {follow : Bool} {s : List UInt8}
    (failed : resolve v.toTree follow cwd s = .error errno) : errno ≠ .ERANGE := by
  unfold resolve at failed
  split at failed
  · cases failed
    decide
  split at failed
  · cases failed
    decide
  · rcases walk_error failed with rfl | rfl | rfl <;> decide

theorem stuck_opendir (goes : Goes (climb level)) (fails : (climb level).opendir = some errno) :
    Stuck v climb level (n :: p) p errno where
  climbs := by
    rintro _ (_ | ⟨_, opens⟩)
    rw [fails] at opens
    cases opens
  exits := by
    rintro (⟨_, opens⟩ | ⟨_, opens⟩ | ⟨_, opens⟩) <;>
    · rw [fails] at opens
      cases opens
  place := Or.inr ⟨Nat.lt_succ_self _, goes.statCurrent, goes.chdirUp⟩
  reason := by
    rintro rfl
    cases fails

theorem stuck_scan {j : Nat} {m : Name} (parent : v.kind p = some .dir)
    (dir : v.kind (n :: p) = some .dir) (goes : Goes (climb level))
    (null : scan v (climb level) p (n :: p) 0 (v.readdir p) = .null errno)
    (tried : attempt ((climb level).statEntry j) (stat v.toTree p m) = .error errno) :
    Stuck v climb level (n :: p) p errno where
  climbs := by
    rintro _ (_ | ⟨_, _, finds⟩)
    rw [finds.scan parent dir] at null
    cases null
  exits := by
    rintro (⟨_, _, fails⟩ | ⟨_, _, finds⟩ | ⟨_, _, finds⟩)
    · rw [fails.scan parent dir] at null
      cases null
    all_goals
      rw [finds.scan parent dir] at null
      cases null
  place := Or.inr ⟨Nat.lt_succ_self _, goes.statCurrent, goes.chdirUp⟩
  reason := by
    rintro rfl
    exact resolve_error tried

/-- Above a directory that has been found the climb is stuck where it is from there. -/
theorem Stuck.up (stuck : Stuck v climb (level + 1) p q errno) (parent : v.kind p = some .dir)
    (dir : v.kind (n :: p) = some .dir) (goes : Goes (climb level))
    (closes : (climb level).closedir = none)
    (finds : Finds v (climb level) p (n :: p) 0 (v.readdir p) e) :
    Stuck v climb level (n :: p) q errno where
  climbs := by
    rintro _ (_ | ⟨_, _, _, _, climbs⟩)
    exact stuck.climbs _ climbs
  exits := by
    rintro (⟨_, _, fails⟩ | ⟨_, _, _, fails⟩ | ⟨_, _, _, _, exits⟩)
    · have both := (finds.scan parent dir).symm.trans (fails.scan parent dir)
      cases both
    · exact fails closes
    · exact stuck.exits exits
  place := by
    refine Or.inr ⟨?_, goes.statCurrent, goes.chdirUp⟩
    rw [List.length_cons]
    rcases stuck.place with ⟨rfl, _⟩ | ⟨lower, _⟩ <;> omega
  reason := stuck.reason

/-- The climb reaches the root, or the process exits, or the call is stuck somewhere. -/
theorem loop_cases (climb : Nat → Climb) (level : Nat) (components : List Name)
    (dir : v.kind here = some .dir) :
    (∃ names, Climbs v climb level here names ∧ ∃ fuel,
      loop (round v climb) fuel ⟨here, level, components⟩ = some (.root [] (components ++ names))) ∨
    (Exits v climb level here ∧ ∃ fuel,
      loop (round v climb) fuel ⟨here, level, components⟩ = some .exit) ∨
    ∃ q errno, Stuck v climb level here q errno ∧ ∃ fuel,
      loop (round v climb) fuel ⟨here, level, components⟩ = some (.null errno q) := by
  induction here generalizing level components with
  | nil =>
    by_cases goes : Goes (climb level)
    · refine Or.inl ⟨[], .root goes, 1, ?_⟩
      rw [List.append_nil]
      exact loop_error (round_root goes)
    · obtain ⟨q, errno, round, stuck⟩ := stuck_first components dir goes
      exact Or.inr (Or.inr ⟨q, errno, stuck, 1, loop_error round⟩)
  | cons n p ih =>
    by_cases goes : Goes (climb level)
    case neg =>
      obtain ⟨q, errno, round, stuck⟩ := stuck_first components dir goes
      exact Or.inr (Or.inr ⟨q, errno, stuck, 1, loop_error round⟩)
    have parent : v.kind p = some .dir := v.parent dir
    obtain ⟨up, closed⟩ := round_up components dir goes
    cases opens : (climb level).opendir with
    | some errno =>
      exact Or.inr (Or.inr ⟨p, errno, stuck_opendir goes opens, 1, loop_error (closed errno opens)⟩)
    | none =>
      have up := up opens
      rcases scan_cases (climb level) 0 parent dir (stat_name dir)
        (v.name dir).not_dot (v.name dir).not_dotDot (v.listed (dir ▸ Option.some_ne_none _)) with
        ⟨e, finds⟩ | fails | ⟨errno, null, j, m, tried⟩
      · rw [finds.scan parent dir] at up
        by_cases closes : (climb level).closedir = none
        · rw [afterScan, if_neg (not_not_intro closes)] at up
          rcases ih (level + 1) (components ++ [e]) parent with
            ⟨names, climbs, fuel, ended⟩ | ⟨exits, fuel, ended⟩ | ⟨q, errno, stuck, fuel, ended⟩
          · refine Or.inl ⟨e :: names, .up goes opens finds closes climbs, fuel + 1, ?_⟩
            rw [List.append_assoc] at ended
            exact loop_ok up ended
          · exact Or.inr (Or.inl ⟨.up goes opens finds closes exits, fuel + 1, loop_ok up ended⟩)
          · exact Or.inr (Or.inr ⟨q, errno, stuck.up parent dir goes closes finds, fuel + 1,
              loop_ok up ended⟩)
        · rw [afterScan, if_pos closes] at up
          exact Or.inr (Or.inl ⟨.closedir goes opens finds closes, 1, loop_error up⟩)
      · rw [fails.scan parent dir] at up
        exact Or.inr (Or.inl ⟨.readdir goes opens fails, 1, loop_error up⟩)
      · rw [null] at up
        exact Or.inr (Or.inr ⟨p, errno, stuck_scan parent dir goes null tried, 1, loop_error up⟩)

end Tlpi.Getcwd
