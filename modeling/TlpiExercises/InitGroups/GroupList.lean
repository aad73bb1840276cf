import TlpiExercises.C.Strings

/-!
# 09_Process_Credentials/initgroups_imp.c

The supplementary groups of a user, collected from the group database and installed. The process is
privileged, so that `setgroups` succeeds.
-/

namespace Tlpi.InitGroups

abbrev Gid := UInt32

def NGROUPS_MAX : Nat := 65536

/-- An entry of the group database; `gr_mem` may be NULL. -/
structure GroupEntry where
  gr_gid : Gid
  gr_mem : Option (List CStr)

/-- What the call leaves, when it returns: its result and the groups of the process. -/
structure Outcome where
  rv : Int
  groups : List Gid
  deriving DecidableEq

/-- The loop over the members of one group. -/
def lists (user : CStr) : List CStr → Bool
  | [] => false
  | member :: rest => if strcmp user member = 0 then true else lists user rest

/-- `grouplist[i] = gid` in an array with room for `NGROUPS_MAX`. -/
def store (grouplist : List Gid) (gid : Gid) : Except Fault (List Gid) :=
  if grouplist.length < NGROUPS_MAX then .ok (grouplist ++ [gid]) else .error .outOfBounds

/-- The loop over the database, with the first `i` elements of `grouplist`; `none` is the return in it. -/
def collect (user : CStr) : List Gid → List GroupEntry → Except Fault (Option (List Gid))
  | grouplist, [] => .ok (some grouplist)
  | grouplist, grent :: rest =>
    match grent.gr_mem with
    | none => collect user grouplist rest
    | some gr_mem => do
      let grouplist ← (if lists user gr_mem then store grouplist grent.gr_gid else .ok grouplist)
      if grouplist.length = NGROUPS_MAX then .ok none else collect user grouplist rest

/-- `setgroups`, with the groups that the process has had. -/
def setgroups (size : Nat) (list groups : List Gid) : Outcome :=
  if NGROUPS_MAX < size then ⟨-1, groups⟩ else ⟨0, list.take size⟩

def initgroupsClone (database : List GroupEntry) (user : CStr) (group : Gid) (groups : List Gid) :
    Except Fault Outcome := do
  match ← collect user [group] database with
  | none => .ok ⟨-1, groups⟩
  | some grouplist => .ok (setgroups 1 grouplist groups)

/-! ### The groups of a user -/

def GroupEntry.members (grent : GroupEntry) : List CStr := grent.gr_mem.getD []

/-- The gids of the groups that list the user, in the order of the database. -/
def memberOf (database : List GroupEntry) (user : CStr) : List Gid :=
  (database.filter fun grent => user ∈ grent.members).map GroupEntry.gr_gid

variable {database : List GroupEntry} {user : CStr} {group : Gid} {groups grouplist : List Gid}

theorem lists_iff {members : List CStr} : lists user members = true ↔ user ∈ members := by
  induction members with
  | nil => simp [lists]
  | cons member rest ih =>
    rw [lists, List.mem_cons]
    by_cases here : user = member
    · rw [if_pos (strcmp_eq_zero.mpr here)]
      exact iff_of_true rfl (Or.inl here)
    · rw [if_neg (strcmp_eq_zero.not.mpr here), ih]
      exact (or_iff_right here).symm

theorem memberOf_cons {grent : GroupEntry} : memberOf (grent :: database) user =
    (if user ∈ grent.members then [grent.gr_gid] else []) ++ memberOf database user := by
  unfold memberOf
  rw [List.filter_cons]
  by_cases here : user ∈ grent.members
  · rw [if_pos (decide_eq_true here), if_pos here]
    rfl
  · rw [if_neg (by simpa using here), if_neg here]
    rfl

/-- The scans collect the groups as long as there is room for one more. -/
theorem collect_eq (room : grouplist.length + (memberOf database user).length < NGROUPS_MAX) :
    collect user grouplist database = .ok (some (grouplist ++ memberOf database user)) := by
  induction database generalizing grouplist with
  | nil =>
    rw [collect]
    exact congrArg _ (congrArg some (List.append_nil _).symm)
  | cons grent rest ih =>
    rw [memberOf_cons] at room ⊢
    rw [collect]
    cases members : grent.gr_mem with
    | none =>
      have nobody : user ∉ grent.members := by simp [GroupEntry.members, members]
      rw [if_neg nobody, List.nil_append] at room ⊢
      exact ih room
    | some gr_mem =>
      have same : grent.members = gr_mem := by simp [GroupEntry.members, members]
      rw [same] at room ⊢
      dsimp only
      by_cases here : user ∈ gr_mem
      · rw [if_pos here, List.length_append, List.length_singleton] at room
        have stored : store grouplist grent.gr_gid = .ok (grouplist ++ [grent.gr_gid]) :=
          if_pos (by omega)
        have not_full : (grouplist ++ [grent.gr_gid]).length ≠ NGROUPS_MAX := by
          rw [List.length_append, List.length_singleton]
          omega
        rw [if_pos (lists_iff.mpr here), if_pos here, stored, ok_bind, if_neg not_full,
          ih (by rw [List.length_append, List.length_singleton]; omega), List.append_assoc]
      · rw [if_neg here, List.nil_append] at room ⊢
        rw [if_neg (lists_iff.not.mpr here), ok_bind, if_neg (by omega), ih room]

/-- The call succeeds, and the process has the group and those that list the user, each once. -/
def Installs (database : List GroupEntry) (user : CStr) (group : Gid) (groups : List Gid) : Prop :=
  initgroupsClone database user group groups = .ok ⟨0, (group :: memberOf database user).eraseDups⟩

theorem eraseDups_one {gids : List Gid} :
    (group :: gids).eraseDups = [group] ↔ ∀ gid ∈ gids, gid = group := by
  rw [List.eraseDups_cons, List.cons_inj_right]
  cases others : gids.filter fun gid => !gid == group with
  | nil =>
    refine iff_of_true rfl fun gid member => ?_
    simpa using List.filter_eq_nil_iff.mp others gid member
  | cons other rest =>
    have inside : other ∈ gids.filter fun gid => !gid == group := others ▸ List.mem_cons_self
    obtain ⟨member, different⟩ := List.mem_filter.mp inside
    rw [List.eraseDups_cons]
    refine iff_of_false (List.cons_ne_nil _ _) fun all => ?_
    rw [all other member] at different
    simp at different

/-- Only the first element of the list is installed. -/
theorem installs_iff (few : (memberOf database user).length < NGROUPS_MAX - 1) :
    Installs database user group groups ↔ ∀ gid ∈ memberOf database user, gid = group := by
  have collected : collect user [group] database = .ok (some (group :: memberOf database user)) := by
    refine collect_eq ?_
    rw [List.length_singleton]
    omega
  have one : ¬ NGROUPS_MAX < 1 := by decide
  unfold Installs initgroupsClone
  rw [collected, ok_bind]
  dsimp only
  rw [setgroups, if_neg one, ← eraseDups_one]
  constructor
  · intro installed
    exact (congrArg Outcome.groups (Except.ok.inj installed)).symm
  · intro same
    rw [same]
    rfl

def root : CStr := ⟨[114], by decide⟩

def alice : CStr := ⟨[97], by decide⟩

theorem installs_own : Installs [⟨4, some [root, alice]⟩, ⟨5, none⟩, ⟨6, some [root]⟩] alice 4 [0] :=
  (installs_iff (by decide)).mpr fun _ member => List.mem_singleton.mp member

/-- `alice` is a member of one more group. -/
theorem one_more_group : (memberOf [⟨4, some [root, alice]⟩] alice).length < NGROUPS_MAX - 1 ∧
    ¬ Installs [⟨4, some [root, alice]⟩] alice 1000 [0] := by
  refine ⟨by decide, fun installed => ?_⟩
  have returned : initgroupsClone [⟨4, some [root, alice]⟩] alice 1000 [0] = .ok ⟨0, [1000]⟩ := by
    rfl
  rw [Installs, returned] at installed
  have same := congrArg Outcome.groups (Except.ok.inj installed)
  have member : (4 : Gid) ∈ memberOf [⟨4, some [root, alice]⟩] alice := List.mem_singleton_self 4
  exact absurd (eraseDups_one.mp same.symm 4 member) (by decide)

end Tlpi.InitGroups
