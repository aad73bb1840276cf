import TlpiExercises.Realpath.Levels

/-!
# NULL, and the directory that the caller is left in

A call gets to its last `chdir` in some directory, with the string written or not; what the call for a
link's target returns is ignored, and so it matters only where that leaves the process.
-/

namespace Tlpi.Realpath

open FileSystem

variable {fs : Tree} {failures : Nat → Failures} {level links fuel : Nat} {here d e q : Position}
  {s t u : List UInt8} {n : Name} {w : Option (List UInt8)}

/-- The level gets to its last `chdir` in `q`, and `w` has been written. -/
inductive Works (fs : Tree) (failures : Nat → Failures) :
    Nat → Position → List UInt8 → Position → Option (List UInt8) → Prop where
  | dir {level : Nat} {d q : Position} {s : List UInt8} (arrives : Arrives fs (failures level) d s q)
      (gets : Gets (failures level).getcwdReal q) :
      Works fs failures level d s q (some (absolute q))
  | stuck {level : Nat} {d e : Position} {s : List UInt8} {n : Name}
      (finds : FindsFile fs (failures level) d s n e) (fails : (failures level).chDirChdir ≠ none) :
      Works fs failures level d s d none
  | unnamed {level : Nat} {d e : Position} {s : List UInt8} {n : Name}
      (finds : FindsFile fs (failures level) d s n e) (changes : (failures level).chDirChdir = none)
      (fails : ¬ Gets (failures level).chDirGetcwd e) : Works fs failures level d s e none
  | file {level : Nat} {d e : Position} {s : List UInt8} {n : Name}
      (finds : FindsFile fs (failures level) d s n e) (changes : (failures level).chDirChdir = none)
      (gets : Gets (failures level).chDirGetcwd e) (fits : Fits e n) :
      Works fs failures level d s e (some (absolute e ++ slash :: n))
  | linkStops {level : Nat} {d e : Position} {s t : List UInt8} {n : Name}
      (follows : Follows fs (failures level) d s n e t)
      (stops : Stops fs (failures (level + 1)) e t) : Works fs failures level d s e none
  | linkBack {level : Nat} {d e q : Position} {s t : List UInt8} {n : Name}
      {w : Option (List UInt8)} (follows : Follows fs (failures level) d s n e t)
      (works : Works fs failures (level + 1) e t q w) (back : Back (failures (level + 1)) e) :
      Works fs failures level d s e w
  | linkLost {level : Nat} {d e q : Position} {s t : List UInt8} {n : Name}
      {w : Option (List UInt8)} (follows : Follows fs (failures level) d s n e t)
      (works : Works fs failures (level + 1) e t q w) (lost : ¬ Back (failures (level + 1)) e) :
      Works fs failures level d s q w

/-- A file at the end of the links whose path does not fit into `resolved_path`. -/
inductive Overflows (fs : Tree) (failures : Nat → Failures) : Nat → Position → List UInt8 → Prop where
  | file {level : Nat} {d e : Position} {s : List UInt8} {n : Name}
      (finds : FindsFile fs (failures level) d s n e) (changes : (failures level).chDirChdir = none)
      (gets : Gets (failures level).chDirGetcwd e) (long : ¬ Fits e n) : Overflows fs failures level d s
  | link {level : Nat} {d e : Position} {s t : List UInt8} {n : Name}
      (follows : Follows fs (failures level) d s n e t)
      (overflows : Overflows fs failures (level + 1) e t) : Overflows fs failures level d s

theorem stat_of_chdir (found : chdir fs d s = .ok q) : stat fs d s = .ok q := by
  rw [chdir] at found
  split at found
  · cases found
  · rename_i p there
    split at found
    · cases found
      exact there
    · cases found

theorem Works.within (works : Works fs failures level d s q w) : Within fs MAXSYMLINKS d s := by
  cases works with
  | dir arrives =>
    obtain ⟨_, _, walked⟩ := resolve_short (stat_of_chdir arrives.found)
    rw [Within, walked]
    rintro ⟨⟩
  | stuck finds => exact finds.not_dir.within.2.2
  | unnamed finds => exact finds.not_dir.within.2.2
  | file finds => exact finds.not_dir.within.2.2
  | linkStops follows => exact follows.not_dir.within.2.2
  | linkBack follows => exact follows.not_dir.within.2.2
  | linkLost follows => exact follows.not_dir.within.2.2

/-- What has been written to `resolved_path` is the path of something. -/
theorem Works.resolves (works : Works fs failures level d s q (some u))
    (dir : fs.kind d = some .dir) : ∃ p, stat fs d s = .ok p := by
  generalize written : some u = w at works
  induction works with
  | dir arrives => exact ⟨_, stat_of_chdir arrives.found⟩
  | stuck => cases written
  | unnamed => cases written
  | file finds =>
    exact ⟨_, stat_of_lstat finds.found fun t link => nomatch finds.file.symm.trans link⟩
  | linkStops => cases written
  | linkBack follows _ _ ih =>
    obtain ⟨k, entry⟩ := follows.entry dir
    obtain ⟨p, there⟩ := ih entry.dir written
    exact ⟨p, (entry.resolve follows.link follows.not_dir).symm.trans there⟩
  | linkLost follows _ _ ih =>
    obtain ⟨k, entry⟩ := follows.entry dir
    obtain ⟨p, there⟩ := ih entry.dir written
    exact ⟨p, (entry.resolve follows.link follows.not_dir).symm.trans there⟩

theorem works_call (works : Works fs failures level d s q w) (dir : fs.kind d = some .dir)
    (within : Within fs links d s) (enough : links < fuel) :
    impRealpath fs failures fuel level s ⟨d, none⟩ =
      back fs (failures level) (absolute d) ⟨q, w⟩ := by
  induction works generalizing links fuel with
  | dir arrives gets =>
    obtain ⟨fuel, rfl⟩ := Nat.exists_eq_add_one_of_ne_zero (Nat.ne_zero_of_lt enough)
    exact (arrives_call failures arrives).1 gets
  | stuck finds fails =>
    obtain ⟨fuel, rfl⟩ := Nat.exists_eq_add_one_of_ne_zero (Nat.ne_zero_of_lt enough)
    rw [file_call failures finds, chDir_stuck fails, ok_bind]
  | unnamed finds changes fails =>
    obtain ⟨fuel, rfl⟩ := Nat.exists_eq_add_one_of_ne_zero (Nat.ne_zero_of_lt enough)
    obtain ⟨k, entry⟩ := finds.entry dir
    rw [file_call failures finds, (chDir_call entry changes).1 fails, ok_bind]
  | file finds changes gets fits =>
    obtain ⟨fuel, rfl⟩ := Nat.exists_eq_add_one_of_ne_zero (Nat.ne_zero_of_lt enough)
    obtain ⟨k, entry⟩ := finds.entry dir
    rw [file_call failures finds, (chDir_call entry changes).2.2 gets fits, ok_bind]
  | linkStops follows stops =>
    obtain ⟨k, entry⟩ := follows.entry dir
    obtain ⟨l, fewer, _⟩ := entry.within follows.link within
    obtain ⟨fuel, rfl⟩ := Nat.exists_eq_add_of_le' (show 2 ≤ fuel by omega)
    rw [follows_call failures dir follows, stops_call failures stops, ok_bind]
  | linkBack follows works leads ih =>
    obtain ⟨k, entry⟩ := follows.entry dir
    obtain ⟨l, fewer, inside⟩ := entry.within follows.link within
    obtain ⟨fuel, rfl⟩ := Nat.exists_eq_add_one_of_ne_zero (Nat.ne_zero_of_lt enough)
    rw [follows_call failures dir follows, ih entry.dir inside (by omega), back_ok entry.dir leads,
      ok_bind]
  | linkLost follows works lost ih =>
    obtain ⟨k, entry⟩ := follows.entry dir
    obtain ⟨l, fewer, inside⟩ := entry.within follows.link within
    obtain ⟨fuel, rfl⟩ := Nat.exists_eq_add_one_of_ne_zero (Nat.ne_zero_of_lt enough)
    rw [follows_call failures dir follows, ih entry.dir inside (by omega), back_fails lost, ok_bind]

theorem overflows_call (overflows : Overflows fs failures level d s) (dir : fs.kind d = some .dir)
    (within : Within fs links d s) (enough : links < fuel) :
    impRealpath fs failures fuel level s ⟨d, w⟩ = .error .outOfBounds := by
  induction overflows generalizing links fuel w with
  | file finds changes gets long =>
    obtain ⟨fuel, rfl⟩ := Nat.exists_eq_add_one_of_ne_zero (Nat.ne_zero_of_lt enough)
    obtain ⟨k, entry⟩ := finds.entry dir
    rw [file_call failures finds, (chDir_call entry changes).2.1 gets long, error_bind]
  | link follows _ ih =>
    obtain ⟨k, entry⟩ := follows.entry dir
    obtain ⟨l, fewer, inside⟩ := entry.within follows.link within
    obtain ⟨fuel, rfl⟩ := Nat.exists_eq_add_one_of_ne_zero (Nat.ne_zero_of_lt enough)
    rw [follows_call failures dir follows, ih entry.dir inside (by omega), error_bind]

/-- Where a level does not stop at something that is not a directory, it gets to its last `chdir` or
overflows. -/
theorem works_cases (failures : Nat → Failures) (level : Nat) (dir : fs.kind d = some .dir) (not_dir : NotDir fs d s)
    (within : Within fs links d s) : Stops fs (failures level) d s ∨
      Overflows fs failures level d s ∨ ∃ q w, Works fs failures level d s q w := by
  induction links using Nat.strongRecOn generalizing level d s with
  | _ links ih =>
    rcases level_cases (failures level) s dir with
      stops | ⟨q, arrives⟩ | ⟨n, e, finds⟩ | ⟨n, e, t, follows⟩
    · exact Or.inl stops
    · rw [NotDir, arrives.found] at not_dir
      cases not_dir
    · by_cases changes : (failures level).chDirChdir = none
      case neg => exact Or.inr (Or.inr ⟨_, _, .stuck finds changes⟩)
      by_cases gets : Gets (failures level).chDirGetcwd e
      case neg => exact Or.inr (Or.inr ⟨_, _, .unnamed finds changes gets⟩)
      by_cases fits : Fits e n
      · exact Or.inr (Or.inr ⟨_, _, .file finds changes gets fits⟩)
      · exact Or.inr (Or.inl (.file finds changes gets fits))
    · obtain ⟨k, entry⟩ := follows.entry dir
      obtain ⟨l, fewer, inside⟩ := entry.within follows.link within
      rcases ih l fewer (level + 1) entry.dir (entry.not_dir follows.link not_dir)
        inside with stops | overflows | ⟨q, w, works⟩
      · exact Or.inr (Or.inr ⟨_, _, .linkStops follows stops⟩)
      · exact Or.inr (Or.inl (.link follows overflows))
      · by_cases leads : Back (failures (level + 1)) e
        · exact Or.inr (Or.inr ⟨_, _, .linkBack follows works leads⟩)
        · exact Or.inr (Or.inr ⟨_, _, .linkLost follows works leads⟩)

/-- The call returns; non-NULL only if the pathname resolves and the string has been written, and in
any case in the directory in which it was made. -/
def Handled (fs : Tree) (failures : Nat → Failures) (here : Position) (s : List UInt8) : Prop :=
  ∀ fuel, MAXSYMLINKS < fuel → ∃ pointer q w,
    impRealpath fs failures fuel 0 s ⟨here, none⟩ = .ok (pointer, ⟨q, w⟩) ∧
      (pointer = true → (∃ p, stat fs here s = .ok p) ∧ w ≠ none) ∧ q = here

/-- The call stops before it has changed the directory; or it has written the string and gets back; or it
does not get back from where it has been made. -/
inductive Fine (fs : Tree) (failures : Nat → Failures) (here : Position) (s : List UInt8) : Prop where
  | stops (stops : Stops fs (failures 0) here s)
  | written {q : Position} {u : List UInt8} (works : Works fs failures 0 here s q (some u))
      (back : Back (failures 0) here)
  | stayed {w : Option (List UInt8)} (works : Works fs failures 0 here s here w)
      (lost : ¬ Back (failures 0) here)
  | unread (arrives : Arrives fs (failures 0) here s here)
      (fails : ¬ Gets (failures 0).getcwdReal here)

/-- How a call is handled whose outcome is known. -/
theorem handled_outcome (pointer : Bool) (q : Position) (w : Option (List UInt8)) (call : ∀ fuel, MAXSYMLINKS < fuel →
      impRealpath fs failures fuel 0 s ⟨here, none⟩ = .ok (pointer, ⟨q, w⟩)) :
    Handled fs failures here s ↔
      (pointer = true → (∃ p, stat fs here s = .ok p) ∧ w ≠ none) ∧ q = here := by
  constructor
  · intro handled
    obtain ⟨_, _, _, returned, good⟩ := handled (MAXSYMLINKS + 1) (Nat.lt_succ_self _)
    rw [call _ (Nat.lt_succ_self _)] at returned
    cases returned
    exact good
  · intro good fuel enough
    exact ⟨pointer, q, w, call fuel enough, good⟩

theorem stops_handled (stops : Stops fs (failures 0) here s) : Handled fs failures here s := by
  refine (handled_outcome false here none fun fuel enough => ?_).mpr
    ⟨nofun, rfl⟩
  obtain ⟨fuel, rfl⟩ := Nat.exists_eq_add_one_of_ne_zero (Nat.ne_zero_of_lt enough)
  exact stops_call failures stops

theorem unread_handled (arrives : Arrives fs (failures 0) here s q)
    (fails : ¬ Gets (failures 0).getcwdReal q) : Handled fs failures here s ↔ q = here := by
  refine (handled_outcome false q none fun fuel enough => ?_).trans
    (and_iff_right nofun)
  obtain ⟨fuel, rfl⟩ := Nat.exists_eq_add_one_of_ne_zero (Nat.ne_zero_of_lt enough)
  exact (arrives_call failures arrives).2 fails

theorem written_handled (dir : fs.kind here = some .dir)
    (works : Works fs failures 0 here s q w) (leads : Back (failures 0) here) :
    Handled fs failures here s ↔ w ≠ none := by
  refine (handled_outcome true here w fun fuel enough => ?_).trans ?_
  · rw [works_call works dir works.within enough, back_ok dir leads]
  · constructor
    · rintro ⟨good, _⟩
      exact (good rfl).2
    · intro written
      obtain ⟨u, rfl⟩ := Option.ne_none_iff_exists'.mp written
      exact ⟨fun _ => ⟨works.resolves dir, written⟩, rfl⟩

theorem lost_handled (dir : fs.kind here = some .dir)
    (works : Works fs failures 0 here s q w) (lost : ¬ Back (failures 0) here) :
    Handled fs failures here s ↔ q = here := by
  refine (handled_outcome false q w fun fuel enough => ?_).trans
    (and_iff_right nofun)
  rw [works_call works dir works.within enough, back_fails lost]

theorem overflows_not_handled (dir : fs.kind here = some .dir) (not_dir : NotDir fs here s)
    (overflows : Overflows fs failures 0 here s) : ¬ Handled fs failures here s := by
  intro handled
  obtain ⟨_, _, _, returned, _⟩ := handled (MAXSYMLINKS + 1) (Nat.lt_succ_self _)
  rw [overflows_call overflows dir not_dir.within.2.2 (Nat.lt_succ_self _)] at returned
  cases returned

theorem works_fine (dir : fs.kind here = some .dir) (works : Works fs failures 0 here s q w)
    (handled : Handled fs failures here s) : Fine fs failures here s := by
  by_cases leads : Back (failures 0) here
  · have written := (written_handled dir works leads).mp handled
    obtain ⟨u, rfl⟩ := Option.ne_none_iff_exists'.mp written
    exact .written works leads
  · obtain rfl := (lost_handled dir works leads).mp handled
    exact .stayed works leads

theorem handled_iff (dir : fs.kind here = some .dir) :
    Handled fs failures here s ↔ Fine fs failures here s := by
  constructor
  · intro handled
    have at_file (not_dir : NotDir fs here s) : Fine fs failures here s := by
      rcases works_cases failures 0 dir not_dir not_dir.within.2.2 with
        stops | overflows | ⟨q, w, works⟩
      · exact .stops stops
      · exact absurd handled (overflows_not_handled dir not_dir overflows)
      · exact works_fine dir works handled
    rcases level_cases (failures 0) s dir with
      stops | ⟨q, arrives⟩ | ⟨n, e, finds⟩ | ⟨n, e, t, follows⟩
    · exact .stops stops
    · by_cases gets : Gets (failures 0).getcwdReal q
      · exact works_fine dir (.dir arrives gets) handled
      · obtain rfl := (unread_handled arrives gets).mp handled
        exact .unread arrives gets
    · exact at_file finds.not_dir
    · exact at_file follows.not_dir
  · intro fine
    cases fine with
    | stops stops => exact stops_handled stops
    | written works leads => exact (written_handled dir works leads).mpr (Option.some_ne_none _)
    | stayed works lost => exact (lost_handled dir works lost).mpr rfl
    | unread arrives fails => exact (unread_handled arrives fails).mpr rfl

/-- A file `f` and a symbolic link `l` to `f/x`. -/
def fileAndLink : Flat := ⟨[([102], .file), ([108], .link [102, 47, 120])], by decide⟩

theorem handled_file : Handled fileAndLink.tree (fun _ => noFailures) [] [102] := by
  have fits : Fits [] [102] := by
    unfold Fits
    decide
  have finds : FindsFile fileAndLink.tree noFailures [] [102] [102] [] :=
    ⟨⟨⟨⟨rfl, by decide⟩, rfl⟩, rfl, rfl, rfl⟩, rfl⟩
  exact (handled_iff rfl).mpr (.written (.file finds rfl ⟨rfl, by decide⟩ fits) ⟨rfl, by decide⟩)

/-- What the inner call says about the target is ignored. -/
theorem link_below_file : fileAndLink.tree.kind [] = some .dir ∧
    stat fileAndLink.tree [] [108] = .error .ENOTDIR ∧
    ¬ Handled fileAndLink.tree (fun _ => noFailures) [] [108] := by
  refine ⟨rfl, rfl, fun handled => ?_⟩
  obtain ⟨pointer, q, w, call, good, _⟩ := handled 41 (by decide)
  have returned : impRealpath fileAndLink.tree (fun _ => noFailures) 41 0 [108] ⟨[], none⟩ =
      .ok (true, ⟨[], none⟩) := rfl
  rw [returned] at call
  cases call
  exact (good rfl).2 rfl

end Tlpi.Realpath
