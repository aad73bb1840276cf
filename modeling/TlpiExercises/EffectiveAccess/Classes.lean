import Mathlib.Data.UInt

/-!
# 15_File_Attributes/effective_access.c

Which class of permission bits a process has to a file: the program's check and the kernel's rule for
processes that are not root's.
-/

namespace Tlpi.EffectiveAccess

abbrev Id := UInt32

/-- The effective credentials, and what `getgroups` gives. -/
structure Credentials where
  euid : Id
  egid : Id
  grouplist : List Id

structure Stat where
  st_uid : Id
  st_gid : Id
  st_mode : UInt32

def EXIST : UInt8 := 1
def HAS_R : UInt8 := 2
def HAS_W : UInt8 := 4
def HAS_X : UInt8 := 8

/-- The bits of one permission. -/
structure Group where
  user : UInt32
  group : UInt32
  other : UInt32

/-- `S_IRUSR`, `S_IRGRP` and `S_IROTH`. -/
def read : Group := ⟨0x100, 0x20, 0x4⟩

/-- `S_IWUSR`, `S_IWGRP` and `S_IWOTH`. -/
def write : Group := ⟨0x80, 0x10, 0x2⟩

/-- `S_IXUSR`, `S_IXGRP` and `S_IXOTH`. -/
def execute : Group := ⟨0x40, 0x8, 0x1⟩

def groupAccess (sb : Stat) : List Id → Int
  | [] => 0
  | gid :: rest => if gid = sb.st_gid then 1 else groupAccess sb rest

def checkPermGroup (c : Credentials) (permGroup : Group) (sb : Stat) : Int :=
  if c.euid = sb.st_uid then
    if sb.st_mode &&& permGroup.user = 0 then -1 else 0
  else if c.egid = sb.st_gid ∧ groupAccess sb c.grouplist ≠ 0 then
    if sb.st_mode &&& permGroup.group = 0 then -1 else 0
  else if sb.st_mode &&& permGroup.other = 0 then -1
  else 0

/-- `effective_access`, on what `stat` says about the file; every `errno` is handled alike. -/
def effectiveAccess (c : Credentials) (stat : Option Stat) (flags : UInt8) : Int :=
  if flags = 0 then -1
  else
    match stat with
    | none => -1
    | some sb =>
      if flags &&& EXIST ≠ 0 then 1
      else
        let rv := (if flags &&& HAS_R ≠ 0 then checkPermGroup c read sb else 0) +
          (if flags &&& HAS_W ≠ 0 then checkPermGroup c write sb else 0) +
          (if flags &&& HAS_X ≠ 0 then checkPermGroup c execute sb else 0)
        if rv ≠ 0 then -1 else 0

/-! ### The kernel's rule -/

inductive Class where
  | user
  | group
  | other
  deriving DecidableEq

def Group.bit (permGroup : Group) : Class → UInt32
  | .user => permGroup.user
  | .group => permGroup.group
  | .other => permGroup.other

/-- The one class whose bits decide. -/
def kernelClass (c : Credentials) (sb : Stat) : Class :=
  if c.euid = sb.st_uid then .user
  else if sb.st_gid = c.egid ∨ sb.st_gid ∈ c.grouplist then .group
  else .other

def requested (flags : UInt8) : List Group :=
  (if flags &&& HAS_R ≠ 0 then [read] else []) ++ (if flags &&& HAS_W ≠ 0 then [write] else []) ++
    (if flags &&& HAS_X ≠ 0 then [execute] else [])

/-- The class has all the permissions that are asked for. -/
def Grants (sb : Stat) (flags : UInt8) (classOf : Class) : Prop :=
  ∀ permGroup ∈ requested flags, sb.st_mode &&& permGroup.bit classOf ≠ 0

variable {c : Credentials} {sb : Stat} {flags : UInt8}

/-! ### The class of the program -/

def checkedClass (c : Credentials) (sb : Stat) : Class :=
  if c.euid = sb.st_uid then .user
  else if c.egid = sb.st_gid ∧ sb.st_gid ∈ c.grouplist then .group
  else .other

theorem groupAccess_ne_zero {grouplist : List Id} :
    groupAccess sb grouplist ≠ 0 ↔ sb.st_gid ∈ grouplist := by
  induction grouplist with
  | nil => simp [groupAccess]
  | cons gid rest ih =>
    rw [groupAccess, List.mem_cons]
    by_cases here : gid = sb.st_gid
    · rw [if_pos here]
      exact iff_of_true (by decide) (Or.inl here.symm)
    · rw [if_neg here, ih]
      exact (or_iff_right (Ne.symm here)).symm

theorem checkPermGroup_eq (permGroup : Group) : checkPermGroup c permGroup sb =
    if sb.st_mode &&& permGroup.bit (checkedClass c sb) = 0 then -1 else 0 := by
  unfold checkPermGroup checkedClass
  simp only [groupAccess_ne_zero]
  by_cases owner : c.euid = sb.st_uid
  · rw [if_pos owner, if_pos owner]
    rfl
  rw [if_neg owner, if_neg owner]
  by_cases inGroup : c.egid = sb.st_gid ∧ sb.st_gid ∈ c.grouplist
  · rw [if_pos inGroup, if_pos inGroup]
    rfl
  · rw [if_neg inGroup, if_neg inGroup]
    rfl

theorem checks_sum {p q r : Prop} [Decidable p] [Decidable q] [Decidable r] {x y z : Int}
    (hx : x ≤ 0) (hy : y ≤ 0) (hz : z ≤ 0) :
    (if p then x else 0) + (if q then y else 0) + (if r then z else 0) = 0 ↔
      (p → x = 0) ∧ (q → y = 0) ∧ (r → z = 0) := by
  split <;> split <;> split <;> simp_all <;> omega

theorem checkPermGroup_le (permGroup : Group) : checkPermGroup c permGroup sb ≤ 0 := by
  rw [checkPermGroup_eq]
  split <;> decide

theorem checkPermGroup_eq_zero {permGroup : Group} : checkPermGroup c permGroup sb = 0 ↔
    sb.st_mode &&& permGroup.bit (checkedClass c sb) ≠ 0 := by
  rw [checkPermGroup_eq]
  split <;> simp_all

theorem grants_iff {classOf : Class} : Grants sb flags classOf ↔
    (flags &&& HAS_R ≠ 0 → sb.st_mode &&& read.bit classOf ≠ 0) ∧
      (flags &&& HAS_W ≠ 0 → sb.st_mode &&& write.bit classOf ≠ 0) ∧
      (flags &&& HAS_X ≠ 0 → sb.st_mode &&& execute.bit classOf ≠ 0) := by
  unfold Grants requested
  simp only [List.mem_append, or_imp, forall_and, and_assoc]
  refine and_congr ?_ (and_congr ?_ ?_) <;> split <;> simp_all

theorem effectiveAccess_eq_zero (asked : flags ≠ 0) (only : flags &&& EXIST = 0) :
    effectiveAccess c (some sb) flags = 0 ↔ Grants sb flags (checkedClass c sb) := by
  rw [effectiveAccess, if_neg asked]
  dsimp only
  rw [if_neg (not_not_intro only), grants_iff]
  simp only [← checkPermGroup_eq_zero]
  rw [← checks_sum (checkPermGroup_le read) (checkPermGroup_le write) (checkPermGroup_le execute)]
  refine ite_eq_right_iff.trans ⟨fun passes => ?_, fun passes fails => absurd passes fails⟩
  by_contra fails
  exact absurd (passes fails) (by decide)

/-- The program agrees with the kernel about the file. -/
def Agrees (c : Credentials) (sb : Stat) (flags : UInt8) : Prop :=
  effectiveAccess c (some sb) flags = 0 ↔ Grants sb flags (kernelClass c sb)

/-- It does unless only one of the effective group and the supplementary ones is the file's, and the
bits for the group and for others differ about what is asked for. -/
theorem agrees_iff (asked : flags ≠ 0) (only : flags &&& ~~~(HAS_R ||| HAS_W ||| HAS_X) = 0) :
    Agrees c sb flags ↔ c.euid = sb.st_uid ∨ (c.egid = sb.st_gid ↔ sb.st_gid ∈ c.grouplist) ∨
      (Grants sb flags .group ↔ Grants sb flags .other) := by
  have no_exist : flags &&& EXIST = 0 := by
    have part : EXIST = ~~~(HAS_R ||| HAS_W ||| HAS_X) &&& EXIST := by decide
    rw [part, ← UInt8.and_assoc, only]
    rfl
  unfold Agrees
  rw [effectiveAccess_eq_zero asked no_exist, checkedClass, kernelClass]
  by_cases owner : c.euid = sb.st_uid
  · rw [if_pos owner, if_pos owner]
    exact iff_of_true Iff.rfl (Or.inl owner)
  rw [if_neg owner, if_neg owner, or_iff_right owner]
  by_cases effective : c.egid = sb.st_gid <;> by_cases listed : sb.st_gid ∈ c.grouplist
  · rw [if_pos ⟨effective, listed⟩, if_pos (Or.inr listed)]
    exact iff_of_true Iff.rfl (Or.inl (iff_of_true effective listed))
  · rw [if_neg fun both => listed both.2, if_pos (Or.inl effective.symm),
      or_iff_right fun same => listed (same.mp effective)]
    exact Iff.comm
  · rw [if_neg fun both => effective both.1, if_pos (Or.inr listed),
      or_iff_right fun same => effective (same.mpr listed)]
    exact Iff.comm
  · rw [if_neg fun both => effective both.1,
      if_neg fun either => either.elim (fun same => effective same.symm) listed]
    exact iff_of_true Iff.rfl (Or.inl (iff_of_false effective listed))

/-- With the file's group as the effective one and in the list. -/
theorem agrees_both : (6 : UInt8) ≠ 0 ∧ Agrees ⟨1000, 100, [4, 100]⟩ ⟨0, 100, 0x1b0⟩ 6 :=
  ⟨by decide, (agrees_iff (by decide) (by decide)).mpr (Or.inr (Or.inl (by decide)))⟩

/-- A supplementary group, whose members may read, is not the effective one. -/
theorem supplementary_only : HAS_R ≠ 0 ∧ HAS_R &&& ~~~(HAS_R ||| HAS_W ||| HAS_X) = 0 ∧
    ¬ Agrees ⟨1000, 1000, [1000, 4]⟩ ⟨0, 4, 0x1a0⟩ HAS_R := by
  refine ⟨by decide, by decide, fun agrees => ?_⟩
  have returned : effectiveAccess ⟨1000, 1000, [1000, 4]⟩ (some ⟨0, 4, 0x1a0⟩) HAS_R = -1 := by
    decide
  have granted : Grants ⟨0, 4, 0x1a0⟩ HAS_R (kernelClass ⟨1000, 1000, [1000, 4]⟩ ⟨0, 4, 0x1a0⟩) := by
    unfold Grants
    decide
  rw [Agrees, returned] at agrees
  exact absurd (agrees.mpr granted) (by decide)

end Tlpi.EffectiveAccess
