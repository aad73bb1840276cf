import TlpiExercises.Realpath.Levels

/-!
# The path that is returned

When no call fails for another reason, the path of a directory is `getcwd`'s, and that of a file has a
separator and its name behind the path of its directory.
-/

namespace Tlpi.Realpath

open FileSystem Pathnames

variable {fs : Tree} {links fuel level : Nat} {here d e q : Position} {s : List UInt8} {n : Name}
  {w : Option (List UInt8)}

/-- All paths are shorter than `PATH_MAX`. -/
def Short (fs : Tree) : Prop := ∀ p, fs.kind p ≠ none → (absolute p).length < PATH_MAX

/-- The string of the function for what the pathname leads to. -/
def spelled (fs : Tree) : Position → List UInt8
  | [] => absolute []
  | n :: e => if fs.kind (n :: e) = some .dir then absolute (n :: e) else absolute e ++ slash :: n

theorem absolute_cons (below : e ≠ []) : absolute (n :: e) = absolute e ++ slash :: n := by
  have some_name : e.reverse ++ [n] ≠ [] := List.append_ne_nil_of_right_ne_nil _ (List.cons_ne_nil n [])
  rw [absolute, absolute, List.reverse_cons, render, render, if_neg some_name,
    if_neg (mt List.reverse_eq_nil_iff.mp below), List.flatMap_append, List.flatMap_cons,
    List.flatMap_nil, List.append_nil]

theorem spelled_dir (dir : fs.kind q = some .dir) : spelled fs q = absolute q := by
  cases q with
  | nil => rfl
  | cons n e => exact if_pos dir

theorem spelled_iff : spelled fs q = absolute q ↔ fs.kind q = some .dir ∨ q.tail ≠ [] := by
  by_cases dir : fs.kind q = some .dir
  · exact iff_of_true (spelled_dir dir) (Or.inl dir)
  cases q with
  | nil => exact absurd fs.root dir
  | cons n e =>
    rw [spelled, if_neg dir]
    by_cases below : e = []
    · subst below
      refine iff_of_false (fun same => ?_) (fun either => (either.resolve_left dir) rfl)
      have lengths := congrArg List.length same
      rw [List.length_append] at lengths
      have one : (absolute []).length = 1 := rfl
      have name : (absolute [n]).length = n.length + 1 := by
        rw [absolute]
        exact congrArg List.length (List.append_nil (slash :: n))
      rw [List.length_cons] at lengths
      omega
    · exact iff_of_true (absolute_cons below).symm (Or.inr below)

theorem chdir_stat (found : stat fs d s = .ok q) :
    chdir fs d s = if fs.kind q = some .dir then .ok q else .error .ENOTDIR := by
  have resolved : resolve fs true d s = .ok q := found
  rw [chdir, resolved]

theorem not_stops (dir : fs.kind d = some .dir) (short : Short fs) (found : stat fs d s = .ok q) :
    ¬ Stops fs noFailures d s := by
  have inside : (absolute d).length ≤ PATH_MAX := (short d (dir ▸ Option.some_ne_none _)).le
  intro stops
  cases stops with
  | getcwd fails => exact fails ⟨rfl, inside⟩
  | chdir fails => exact fails rfl
  | unresolved failed other =>
    rw [chdir_stat found] at failed
    split at failed
    · cases failed
    · exact other (Except.error.inj failed).symm
  | lstat _ fails => exact fails rfl
  | missing _ failed =>
    obtain ⟨r, there⟩ := lstat_of_stat found
    rw [failed] at there
    cases there
  | link _ _ _ fails => exact fails.elim (· rfl) (· rfl)

theorem back_home (dir : fs.kind d = some .dir) (short : Short fs) : Back noFailures d :=
  ⟨rfl, short d (dir ▸ Option.some_ne_none _)⟩

theorem spelled_fits (short : Short fs) (file : fs.kind (n :: e) = some .file) : Fits e n := by
  unfold Fits
  by_cases below : e = []
  · subst below
    have valid := (fs.name file).short
    have one : (absolute []).length = 1 := rfl
    rw [List.length_append, List.length_cons, one]
    unfold NAME_MAX at valid
    unfold PATH_MAX
    omega
  · rw [← absolute_cons below]
    exact (short (n :: e) (file ▸ Option.some_ne_none _)).le

/-- What the call returns, for as many levels as there are links to follow. -/
theorem realpath_call (short : Short fs) (dir : fs.kind d = some .dir)
    (found : stat fs d s = .ok q) (within : Within fs links d s) (enough : links < fuel) :
    impRealpath fs (fun _ => noFailures) fuel level s ⟨d, w⟩ = .ok (true, ⟨d, some (spelled fs q)⟩) := by
  induction fuel generalizing links level d s w with
  | zero => omega
  | succ fuel ih =>
    have home := back_home dir short
    rcases level_cases noFailures s dir with
      stops | ⟨p, arrives⟩ | ⟨n, e, finds⟩ | ⟨n, e, t, follows⟩
    · exact absurd stops (not_stops dir short found)
    · have reached := arrives.found
      rw [chdir_stat found] at reached
      split at reached
      · rename_i here
        obtain rfl := Except.ok.inj reached
        have gets : Gets noFailures.getcwdReal q :=
          ⟨rfl, (short q (here ▸ Option.some_ne_none _)).le⟩
        rw [(arrives_call (fun _ => noFailures) arrives).1 gets, back_ok dir home,
          spelled_dir here]
      · cases reached
    · obtain ⟨k, entry⟩ := finds.entry dir
      have there : stat fs d s = .ok (n :: e) :=
        stat_of_lstat finds.found fun t link => nomatch finds.file.symm.trans link
      obtain rfl := Except.ok.inj (found.symm.trans there)
      have gets : Gets noFailures.chDirGetcwd e :=
        ⟨rfl, (short e (entry.dir ▸ Option.some_ne_none _)).le⟩
      have file : ¬ fs.kind (n :: e) = some .dir := by
        rw [finds.file]
        decide
      rw [file_call (fun _ => noFailures) finds,
        (chDir_call entry rfl).2.2 gets (spelled_fits short finds.file), ok_bind]
      dsimp only
      rw [back_ok dir home, spelled, if_neg file]
    · obtain ⟨k, entry⟩ := follows.entry dir
      obtain ⟨l, fewer, inside⟩ := entry.within follows.link within
      have same : stat fs e t = .ok q := (entry.resolve follows.link follows.not_dir).trans found
      rw [follows_call (fun _ => noFailures) dir follows,
        ih entry.dir same inside (by omega), ok_bind]
      dsimp only
      rw [back_ok dir home]

/-- The call returns the canonical path of what the pathname leads to. -/
def Canonical (fs : Tree) (here : Position) (s : List UInt8) (q : Position) : Prop :=
  ∀ fuel, MAXSYMLINKS < fuel → ∃ cwd,
    impRealpath fs (fun _ => noFailures) fuel 0 s ⟨here, none⟩ =
      .ok (true, ⟨cwd, some (absolute q)⟩)

/-- It does so but for a file directly in the root. -/
theorem canonical_iff (dir : fs.kind here = some .dir) (short : Short fs)
    (found : stat fs here s = .ok q) :
    Canonical fs here s q ↔ fs.kind q = some .dir ∨ q.tail ≠ [] := by
  have within : Within fs MAXSYMLINKS here s := by
    obtain ⟨_, _, walked⟩ := resolve_short found
    rw [Within, walked]
    rintro ⟨⟩
  rw [← spelled_iff]
  constructor
  · intro canonical
    obtain ⟨cwd, call⟩ := canonical (MAXSYMLINKS + 1) (Nat.lt_succ_self _)
    rw [realpath_call short dir found within (Nat.lt_succ_self _)] at call
    have same := (Prod.mk.inj (Except.ok.inj call)).2
    exact Option.some.inj (Process.mk.inj same).2
  · intro same fuel enough
    refine ⟨here, ?_⟩
    rw [realpath_call short dir found within enough, same]

/-! ### Examples -/

theorem flat_short (flat : Flat) : Short flat.tree := by
  intro p there
  cases p with
  | nil => decide
  | cons n p =>
    obtain ⟨kind, there⟩ := Option.ne_none_iff_exists'.mp there
    obtain ⟨rfl, member⟩ := Flat.kind_cons there
    have short : n.length ≤ NAME_MAX := (flat.valid _ member).1.short
    have length : (absolute [n]).length = n.length + 1 :=
      congrArg List.length (List.append_nil (slash :: n))
    rw [length]
    unfold NAME_MAX at short
    unfold PATH_MAX
    omega

/-- A directory `d`, a file `f` and a symbolic link `l` to the directory. -/
def dirFileLink : Flat := ⟨[([100], .dir), ([102], .file), ([108], .link [100])], by decide⟩

/-- From `d` the pathname `../l/.` leads to `d`. -/
theorem canonical_through_link : Canonical dirFileLink.tree [[100]] [46, 46, 47, 108, 47, 46] [[100]] :=
  (canonical_iff rfl (flat_short _) rfl).mpr (Or.inl rfl)

/-- In the root `f` is `//f`. -/
theorem file_in_root : dirFileLink.tree.kind [] = some .dir ∧ Short dirFileLink.tree ∧
    stat dirFileLink.tree [] [102] = .ok [[102]] ∧ ¬ Canonical dirFileLink.tree [] [102] [[102]] := by
  refine ⟨rfl, flat_short _, rfl, fun canonical => ?_⟩
  obtain ⟨cwd, call⟩ := canonical 41 (by decide)
  have returned : impRealpath dirFileLink.tree (fun _ => noFailures) 41 0 [102] ⟨[], none⟩ =
      .ok (true, ⟨[], some [47, 47, 102]⟩) := rfl
  rw [returned] at call
  have same := (Process.mk.inj (Prod.mk.inj (Except.ok.inj call)).2).2
  exact absurd (Option.some.inj same) (by decide)

end Tlpi.Realpath
