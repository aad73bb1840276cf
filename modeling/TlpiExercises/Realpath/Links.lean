import TlpiExercises.Realpath.Model

/-!
# The entry that a pathname ends with

Where `chdir` fails because something is not a directory, the last name is an entry of the directory
that `dirname` leads to; and what a symbolic link leads to is what its target leads to from there.
-/

namespace Tlpi.Realpath

open FileSystem Pathnames

variable {fs : Tree} {links k : Nat} {d e r : Position} {s t : List UInt8} {n : Name}

/-- Something that is not a directory is in the way, or the last of the names. -/
def NotDir (fs : Tree) (d : Position) (s : List UInt8) : Prop := chdir fs d s = .error .ENOTDIR

theorem chdir_congr (same : resolve fs true d s = resolve fs true e t) :
    chdir fs d s = chdir fs e t := by
  rw [chdir, chdir, same]

theorem resolve_short {follow : Bool} (found : resolve fs follow d s = .ok r) :
    s ≠ [] ∧ s.length < PATH_MAX ∧ walk fs follow MAXSYMLINKS (start d s) (path s) = .ok r := by
  unfold resolve at found
  split at found
  · cases found
  rename_i nonempty
  split at found
  · cases found
  rename_i short
  exact ⟨nonempty, Nat.not_le.mp short, found⟩

theorem resolve_walk {follow : Bool} (nonempty : s ≠ []) (short : s.length < PATH_MAX) :
    resolve fs follow d s = walk fs follow MAXSYMLINKS (start d s) (path s) := by
  rw [resolve, if_neg nonempty, if_neg (Nat.not_le.mpr short)]

theorem stat_of_lstat (found : lstat fs d s = .ok r) (other : ∀ t, fs.kind r ≠ some (.link t)) :
    stat fs d s = .ok r := by
  obtain ⟨nonempty, short, walked⟩ := resolve_short found
  rw [stat, resolve_walk nonempty short]
  exact walk_follow walked other

theorem NotDir.lstat_not_dir (other : NotDir fs d s) (found : lstat fs d s = .ok r) :
    fs.kind r ≠ some .dir := by
  intro dir
  have resolved : resolve fs true d s = .ok r :=
    stat_of_lstat found fun t link => nomatch dir.symm.trans link
  rw [NotDir, chdir, resolved] at other
  dsimp only at other
  rw [if_pos dir] at other
  cases other

/-- What resolves has a last name that exists. -/
theorem lstat_of_stat (found : stat fs d s = .ok r) : ∃ q, lstat fs d s = .ok q := by
  obtain ⟨nonempty, short, walked⟩ := resolve_short found
  rw [lstat, resolve_walk nonempty short]
  rcases List.eq_nil_or_concat' (path s) with none | ⟨a, n, names⟩
  · rw [none]
    exact ⟨_, walk_nil⟩
  rw [names] at walked ⊢
  obtain ⟨k, m, e, enough, reaches, walked⟩ := walk_split (List.cons_ne_nil n []) walked
  rw [← enough, reaches.walk (Or.inr (List.cons_ne_nil n [])), List.nil_append]
  by_cases is_dot : n = dot
  · rw [is_dot, walk_dot, walk_nil]
    exact ⟨_, rfl⟩
  by_cases is_up : n = dotDot
  · rw [is_up, walk_up, walk_nil]
    exact ⟨_, rfl⟩
  rcases walk_name_cases is_dot is_up walked with
    ⟨here, _⟩ | ⟨here, _⟩ | ⟨t, here, _⟩ | ⟨t, _, here, _⟩
  · exact ⟨n :: e, (walk_dir here).trans walk_nil⟩
  · exact ⟨n :: e, (walk_file here).trans (if_pos rfl)⟩
  · exact ⟨n :: e, walk_last_link here⟩
  · exact ⟨n :: e, walk_last_link here⟩

/-- The last name of the pathname, and the way to its directory. -/
structure Entry (fs : Tree) (d : Position) (s : List UInt8) (n : Name) (e : Position) (k : Nat) :
    Prop where
  dir : fs.kind e = some .dir
  parent : chdir fs d (dirname s) = .ok e
  name : basename s = n
  reaches : ∃ a, path s = a ++ [n] ∧ Reaches fs (start d s) a k e []

theorem path_last {a : List Name} (nonempty : s ≠ []) (names : path s = a ++ [n])
    (not_dot : n ≠ dot) : ∃ c, s.getLast? = some c ∧ c ≠ slash := by
  obtain ⟨c, last⟩ : ∃ c, s.getLast? = some c :=
    ⟨_, List.getLast?_eq_some_getLast nonempty⟩
  refine ⟨c, last, ?_⟩
  rintro rfl
  rw [path, if_pos last] at names
  obtain ⟨_, same⟩ := List.append_inj' names rfl
  exact not_dot (List.singleton_inj.mp same).symm

theorem entry (dir : fs.kind d = some .dir) (other : NotDir fs d s)
    (found : lstat fs d s = .ok r) :
    ∃ n e k, r = n :: e ∧ Entry fs d s n e k := by
  have not_dir := other.lstat_not_dir found
  obtain ⟨nonempty, short, walked⟩ := resolve_short found
  obtain ⟨a, n, names, not_dot, not_up⟩ := walk_last (dir_start dir) walked not_dir
  obtain ⟨c, last, not_slash⟩ := path_last nonempty names not_dot
  obtain ⟨before, name⟩ := List.append_inj' (names.symm.trans (basename_eq last not_slash)) rfl
  rw [names] at walked
  obtain ⟨k, m, e, enough, reaches, walked⟩ := walk_split (List.cons_ne_nil n []) walked
  obtain ⟨rfl, _⟩ := walk_entry not_dot not_up walked
  have inside := reaches.dir (dir_start dir)
  refine ⟨n, e, k, rfl, inside, ?_, (List.singleton_inj.mp name).symm, a, names, reaches⟩
  obtain ⟨some_name, shorter⟩ := dirname_length last not_slash
  obtain ⟨way, from_there⟩ := dirname_eq d last not_slash
  have resolved : resolve fs true d (dirname s) = .ok e := by
    rw [resolve_walk some_name (by omega), from_there]
    have walked := reaches.walk (m := m) (c := []) (Or.inl (Eq.refl true))
    rw [enough, List.append_nil, List.nil_append, walk_nil] at walked
    rw [← before] at way
    rcases way with way | ⟨none, way⟩
    · rw [way, walked]
    · rw [none, walk_nil] at walked
      rw [way, walk_dot, walk_nil, walked]
  rw [chdir, resolved]
  exact if_pos inside

/-! ### What a symbolic link leads to -/

/-- So many links are enough for the pathname. -/
def Within (fs : Tree) (links : Nat) (d : Position) (s : List UInt8) : Prop :=
  walk fs true links (start d s) (path s) ≠ .error .ELOOP

theorem NotDir.within (other : NotDir fs d s) :
    s ≠ [] ∧ s.length < PATH_MAX ∧ Within fs MAXSYMLINKS d s := by
  have settled : resolve fs true d s ≠ .error .ELOOP ∧ resolve fs true d s ≠ .error .ENOENT ∧
      resolve fs true d s ≠ .error .ENAMETOOLONG := by
    refine ⟨fun failed => ?_, fun failed => ?_, fun failed => ?_⟩ <;>
    · rw [NotDir, chdir, failed] at other
      cases other
  obtain ⟨loop, missing, long⟩ := settled
  have nonempty : s ≠ [] := fun none => missing (if_pos none)
  have short : s.length < PATH_MAX := by
    refine Nat.not_le.mp fun too_long => long ?_
    rw [resolve, if_neg nonempty, if_pos too_long]
  rw [resolve_walk nonempty short] at loop
  exact ⟨nonempty, short, loop⟩

theorem Entry.follow (entry : Entry fs d s n e k) (link : fs.kind (n :: e) = some (.link t))
    (within : Within fs links d s) : ∃ l < links,
      walk fs true links (start d s) (path s) = walk fs true l (start e t) (path t) := by
  obtain ⟨a, names, reaches⟩ := entry.reaches
  have goes_on : ¬ (([] : List Name) = [] ∧ true = false) := fun both => nomatch both.2
  rw [Within, names] at within
  rw [names]
  rcases Nat.lt_or_ge links k with few | enough
  · exact absurd (reaches.walk_few (Or.inl rfl) few) within
  obtain ⟨m, rfl⟩ := Nat.exists_eq_add_of_le enough
  rw [reaches.walk (Or.inl rfl), List.nil_append] at within ⊢
  cases m with
  | zero => exact absurd (walk_loop link goes_on) within
  | succ l =>
    refine ⟨l, by omega, ?_⟩
    rw [walk_link link goes_on, List.append_nil]

theorem Entry.within (entry : Entry fs d s n e k) (link : fs.kind (n :: e) = some (.link t))
    (within : Within fs links d s) : ∃ l < links, Within fs l e t := by
  obtain ⟨l, fewer, same⟩ := entry.follow link within
  refine ⟨l, fewer, ?_⟩
  rwa [Within, same] at within

theorem Entry.resolve (entry : Entry fs d s n e k) (link : fs.kind (n :: e) = some (.link t))
    (other : NotDir fs d s) : resolve fs true e t = resolve fs true d s := by
  obtain ⟨nonempty, short, within⟩ := other.within
  obtain ⟨some_target, short_target⟩ := fs.target link
  obtain ⟨l, fewer, same⟩ := entry.follow link within
  rw [Within, same] at within
  rw [resolve_walk nonempty short, resolve_walk some_target short_target, same]
  exact walk_more within fewer.le

theorem Entry.not_dir (entry : Entry fs d s n e k) (link : fs.kind (n :: e) = some (.link t))
    (other : NotDir fs d s) : NotDir fs e t :=
  (chdir_congr (entry.resolve link other)).trans other

end Tlpi.Realpath
