import TlpiExercises.Realpath.Links

/-!
# One level of the recursion

A level returns before it has changed the directory, or stands in a directory, or at a file, or goes on
with the target of a symbolic link.
-/

namespace Tlpi.Realpath

open FileSystem

variable {fs : Tree} {failures : Nat → Failures} {calls : Failures} {level fuel : Nat}
  {d e q r : Position} {s t : List UInt8} {n : Name} {w : Option (List UInt8)}

/-! ### The calls -/

/-- `getcwd` in the directory fills the buffer of `PATH_MAX + 1` bytes. -/
def Gets (failure : Option Error) (d : Position) : Prop :=
  failure = none ∧ (absolute d).length ≤ PATH_MAX

theorem getcwd_gets {failure : Option Error} (gets : Gets failure d) :
    attempt failure (getcwd d (PATH_MAX + 1)) = .ok (absolute d) := by
  rw [gets.1, attempt_none, getcwd, if_pos (Nat.lt_succ_of_le gets.2)]

theorem getcwd_fails {failure : Option Error} (fails : ¬ Gets failure d) :
    ∃ errno, attempt failure (getcwd d (PATH_MAX + 1)) = .error errno := by
  cases found : failure with
  | some errno => exact ⟨errno, rfl⟩
  | none =>
    refine ⟨.ERANGE, ?_⟩
    rw [attempt_none, getcwd, if_neg fun short => fails ⟨found, Nat.le_of_lt_succ short⟩]

theorem attempt_fails {α : Type} {failure : Option Error} (result : Except Error α)
    (fails : failure ≠ none) : ∃ errno, attempt failure result = .error errno := by
  obtain ⟨errno, rfl⟩ := Option.ne_none_iff_exists'.mp fails
  exact ⟨errno, rfl⟩

/-- The last `chdir` leads back. -/
def Back (calls : Failures) (d : Position) : Prop :=
  calls.chdirBack = none ∧ (absolute d).length < PATH_MAX

theorem back_ok (dir : fs.kind d = some .dir) (leads : Back calls d) {p : Process} :
    back fs calls (absolute d) p = .ok (true, { p with cwd := d }) := by
  rw [back, leads.1, attempt_none, chdir_absolute dir leads.2]

theorem back_fails (fails : ¬ Back calls d) {p : Process} :
    back fs calls (absolute d) p = .ok (false, p) := by
  obtain ⟨errno, failed⟩ :
      ∃ errno, attempt calls.chdirBack (chdir fs p.cwd (absolute d)) = .error errno := by
    cases found : calls.chdirBack with
    | some errno => exact ⟨errno, rfl⟩
    | none =>
      have long : PATH_MAX ≤ (absolute d).length :=
        Nat.not_lt.mp fun short => fails ⟨found, short⟩
      refine ⟨.ENAMETOOLONG, ?_⟩
      rw [attempt_none, chdir, resolve, if_neg absolute_ne_nil, if_pos long]
  rw [back, failed]

/-! ### What a level comes to -/

/-- The first two calls do not fail for another reason. -/
structure Begins (calls : Failures) (d : Position) : Prop where
  getcwd : Gets calls.getcwd d
  chdir : calls.chdir = none

/-- The level returns from the directory in which it has begun. -/
inductive Stops (fs : Tree) (calls : Failures) (d : Position) (s : List UInt8) : Prop where
  | getcwd (fails : ¬ Gets calls.getcwd d)
  | chdir (fails : calls.chdir ≠ none)
  | unresolved {errno : Error} (failed : FileSystem.chdir fs d s = .error errno)
      (other : errno ≠ .ENOTDIR)
  | lstat (not_dir : NotDir fs d s) (fails : calls.lstat ≠ none)
  | missing {errno : Error} (not_dir : NotDir fs d s)
      (failed : FileSystem.lstat fs d s = .error errno)
  | link {r : Position} {t : List UInt8} (not_dir : NotDir fs d s)
      (found : FileSystem.lstat fs d s = .ok r) (link : fs.kind r = some (.link t))
      (fails : calls.readlink ≠ none ∨ calls.chdirDirpart ≠ none)

structure Arrives (fs : Tree) (calls : Failures) (d : Position) (s : List UInt8) (q : Position) :
    Prop where
  begins : Begins calls d
  found : FileSystem.chdir fs d s = .ok q

/-- `lstat` finds the last name of the pathname. -/
structure Finds (fs : Tree) (calls : Failures) (d : Position) (s : List UInt8) (n : Name)
    (e : Position) : Prop where
  begins : Begins calls d
  not_dir : NotDir fs d s
  lstat : calls.lstat = none
  found : FileSystem.lstat fs d s = .ok (n :: e)

structure FindsFile (fs : Tree) (calls : Failures) (d : Position) (s : List UInt8) (n : Name)
    (e : Position) : Prop extends Finds fs calls d s n e where
  file : fs.kind (n :: e) = some .file

/-- The level goes on with the target `t` in the directory `e`. -/
structure Follows (fs : Tree) (calls : Failures) (d : Position) (s : List UInt8) (n : Name)
    (e : Position) (t : List UInt8) : Prop extends Finds fs calls d s n e where
  link : fs.kind (n :: e) = some (.link t)
  readlink : calls.readlink = none
  chdirDirpart : calls.chdirDirpart = none

theorem Finds.entry (finds : Finds fs calls d s n e) (dir : fs.kind d = some .dir) :
    ∃ k, Entry fs d s n e k := by
  obtain ⟨m, p, k, same, entry⟩ := Realpath.entry dir finds.not_dir finds.found
  obtain ⟨rfl, rfl⟩ := List.cons.inj same
  exact ⟨k, entry⟩

theorem level_cases (calls : Failures) (s : List UInt8) (dir : fs.kind d = some .dir) :
    Stops fs calls d s ∨ (∃ q, Arrives fs calls d s q) ∨ (∃ n e, FindsFile fs calls d s n e) ∨
      ∃ n e t, Follows fs calls d s n e t := by
  by_cases gets : Gets calls.getcwd d
  case neg => exact Or.inl (.getcwd gets)
  by_cases changes : calls.chdir = none
  case neg => exact Or.inl (.chdir changes)
  have begins : Begins calls d := ⟨gets, changes⟩
  cases called : FileSystem.chdir fs d s with
  | ok q => exact Or.inr (Or.inl ⟨q, begins, called⟩)
  | error errno =>
    by_cases not_dir : errno = .ENOTDIR
    case neg => exact Or.inl (.unresolved called not_dir)
    subst not_dir
    by_cases looks : calls.lstat = none
    case neg => exact Or.inl (.lstat called looks)
    cases found : FileSystem.lstat fs d s with
    | error errno => exact Or.inl (.missing called found)
    | ok r =>
      obtain ⟨n, e, k, rfl, entry⟩ := entry dir called found
      have finds : Finds fs calls d s n e := ⟨begins, called, looks, found⟩
      cases kind : fs.kind (n :: e) with
      | none =>
        obtain ⟨_, _, walked⟩ := resolve_short found
        exact absurd kind (walk_exists (dir_start dir) walked)
      | some here =>
        cases here with
        | dir => exact absurd kind (NotDir.lstat_not_dir called found)
        | file => exact Or.inr (Or.inr (Or.inl ⟨n, e, finds, kind⟩))
        | link t =>
          by_cases fails : calls.readlink ≠ none ∨ calls.chdirDirpart ≠ none
          · exact Or.inl (.link called found kind fails)
          · obtain ⟨reads, changes⟩ := not_or.mp fails
            exact Or.inr (Or.inr (Or.inr ⟨n, e, t, finds, kind, not_not.mp reads,
              not_not.mp changes⟩))

/-! ### What a level returns -/

theorem readlink_link (found : lstat fs d s = .ok r) (link : fs.kind r = some (.link t)) :
    readlink fs d s = .ok t := by
  rw [readlink, found]
  dsimp only
  rw [link]

theorem stops_call (failures : Nat → Failures) (stops : Stops fs (failures level) d s) :
    impRealpath fs failures (fuel + 1) level s ⟨d, w⟩ = .ok (false, ⟨d, w⟩) := by
  rw [impRealpath]
  dsimp only
  by_cases gets : Gets (failures level).getcwd d
  case neg =>
    obtain ⟨errno, failed⟩ := getcwd_fails gets
    rw [failed]
  rw [getcwd_gets gets]
  dsimp only
  by_cases changes : (failures level).chdir = none
  case neg =>
    obtain ⟨errno, failed⟩ := Option.ne_none_iff_exists'.mp changes
    have other : errno ≠ .ENOTDIR := by
      rintro rfl
      exact (failures level).chdir_other failed
    rw [failed, attempt_some]
    dsimp only
    rw [if_neg other]
  rw [changes, attempt_none]
  cases stops with
  | getcwd fails => exact absurd gets fails
  | chdir fails => exact absurd changes fails
  | unresolved failed other =>
    rw [failed]
    dsimp only
    rw [if_neg other]
  | lstat not_dir fails =>
    obtain ⟨errno, failed⟩ := attempt_fails (FileSystem.lstat fs d s) fails
    rw [not_dir]
    dsimp only
    rw [if_pos rfl, failed]
  | missing not_dir failed =>
    rw [not_dir, failed]
    dsimp only
    rw [if_pos rfl]
    cases (failures level).lstat <;> rfl
  | link not_dir found link fails =>
    rw [not_dir]
    dsimp only
    rw [if_pos rfl, found]
    cases (failures level).lstat with
    | some errno => rfl
    | none =>
      rw [attempt_none]
      dsimp only
      rw [link, readlink_link found link]
      dsimp only
      cases reads : (failures level).readlink with
      | some errno => rfl
      | none =>
        have changes := fails.resolve_left (not_not_intro reads)
        obtain ⟨errno, failed⟩ := attempt_fails (FileSystem.chdir fs d (dirname s)) changes
        rw [attempt_none, failed]

theorem arrives_call (failures : Nat → Failures) (arrives : Arrives fs (failures level) d s q) :
    (Gets (failures level).getcwdReal q → impRealpath fs failures (fuel + 1) level s ⟨d, w⟩ =
      back fs (failures level) (absolute d) ⟨q, some (absolute q)⟩) ∧
    (¬ Gets (failures level).getcwdReal q →
      impRealpath fs failures (fuel + 1) level s ⟨d, w⟩ = .ok (false, ⟨q, w⟩)) := by
  obtain ⟨⟨getcwd, chdir⟩, found⟩ := arrives
  rw [impRealpath]
  dsimp only
  rw [getcwd_gets getcwd, chdir, attempt_none, found]
  dsimp only
  constructor
  · intro gets
    rw [getcwd_gets gets]
  · intro fails
    obtain ⟨errno, failed⟩ := getcwd_fails fails
    rw [failed]

theorem file_call (failures : Nat → Failures) (finds : FindsFile fs (failures level) d s n e) :
    impRealpath fs failures (fuel + 1) level s ⟨d, w⟩ = (do
      let (_, p) ← chDir fs (failures level) s ⟨d, w⟩
      back fs (failures level) (absolute d) p) := by
  obtain ⟨⟨⟨getcwd, chdir⟩, not_dir, lstat, found⟩, file⟩ := finds
  rw [impRealpath]
  dsimp only
  rw [getcwd_gets getcwd, chdir, attempt_none, not_dir]
  dsimp only
  rw [if_pos rfl, lstat, attempt_none, found]
  dsimp only
  rw [file]

/-- The name fits into `resolved_path`. -/
def Fits (e : Position) (n : Name) : Prop := (absolute e ++ slash :: n).length ≤ PATH_MAX

theorem chDir_stuck (fails : calls.chDirChdir ≠ none) :
    chDir fs calls s ⟨d, w⟩ = .ok (false, ⟨d, w⟩) := by
  obtain ⟨errno, failed⟩ := attempt_fails (FileSystem.chdir fs d (dirname s)) fails
  rw [chDir, failed]

theorem chDir_call {k : Nat} (entry : Entry fs d s n e k) (changes : calls.chDirChdir = none) :
    (¬ Gets calls.chDirGetcwd e → chDir fs calls s ⟨d, w⟩ = .ok (false, ⟨e, w⟩)) ∧
    (Gets calls.chDirGetcwd e → ¬ Fits e n → chDir fs calls s ⟨d, w⟩ = .error .outOfBounds) ∧
    (Gets calls.chDirGetcwd e → Fits e n →
      chDir fs calls s ⟨d, w⟩ = .ok (true, ⟨e, some (absolute e ++ slash :: n)⟩)) := by
  rw [chDir]
  dsimp only
  rw [changes, attempt_none, entry.parent]
  dsimp only
  rw [entry.name]
  refine ⟨fun fails => ?_, fun gets long => ?_, fun gets fits => ?_⟩
  · obtain ⟨errno, failed⟩ := getcwd_fails fails
    rw [failed]
  · have put : putName (absolute e) n = .error .outOfBounds := if_neg long
    rw [getcwd_gets gets]
    dsimp only
    rw [put]
    rfl
  · have put : putName (absolute e) n = .ok (absolute e ++ slash :: n) := if_pos fits
    rw [getcwd_gets gets]
    dsimp only
    rw [put]
    rfl

theorem follows_call (failures : Nat → Failures) (dir : fs.kind d = some .dir)
    (follows : Follows fs (failures level) d s n e t) :
    impRealpath fs failures (fuel + 1) level s ⟨d, w⟩ = (do
      let (_, p) ← impRealpath fs failures fuel (level + 1) t ⟨e, w⟩
      back fs (failures level) (absolute d) p) := by
  obtain ⟨k, entry⟩ := follows.entry dir
  obtain ⟨⟨⟨getcwd, chdir⟩, not_dir, lstat, found⟩, link, readlink, chdirDirpart⟩ := follows
  rw [impRealpath]
  dsimp only
  rw [getcwd_gets getcwd, chdir, attempt_none, not_dir]
  dsimp only
  rw [if_pos rfl, lstat, attempt_none, found]
  dsimp only
  rw [link, readlink_link found link, readlink, attempt_none]
  dsimp only
  rw [chdirDirpart, attempt_none, entry.parent]

end Tlpi.Realpath
