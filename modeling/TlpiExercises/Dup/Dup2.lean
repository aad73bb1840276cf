import Mathlib.Data.List.Range
import Mathlib.Logic.Function.Basic

/-!
# 05_File_IO_More_Details/dup_dup2_imp.c

`dup` and `dup2` by `fcntl` and `close`. `dup2_clone` closes the target before it knows that there is
something to duplicate.
-/

namespace Tlpi.Dup

inductive Errno where
  | EBADF
  | EINVAL
  | EMFILE
  deriving DecidableEq

/-- An open file description, and the close-on-exec flag of one descriptor for it. -/
structure Descriptor (F : Type*) where
  file : F
  closeOnExec : Bool

/-- `limit` is the soft limit `RLIMIT_NOFILE`. It may have been lowered below an open descriptor. -/
structure Table (F : Type*) where
  entries : Nat → Option (Descriptor F)
  limit : Nat

section Calls

variable {F : Type*}

def Table.get (t : Table F) (fd : Int) : Option (Descriptor F) :=
  if fd < 0 then none else t.entries fd.toNat

def Table.set (t : Table F) (fd : Nat) (entry : Option (Descriptor F)) : Table F :=
  { t with entries := Function.update t.entries fd entry }

/-- `fcntl(fd, F_GETFD)`. -/
def fcntlGetFd (t : Table F) (fd : Int) : Except Errno Int :=
  match t.get fd with
  | none => .error .EBADF
  | some d => .ok (if d.closeOnExec then 1 else 0)

/-- The lowest descriptor from `from_` on that is not open. -/
def Table.lowestFree (t : Table F) (from_ : Nat) : Option Nat :=
  (List.range' from_ (t.limit - from_)).find? fun n => (t.entries n).isNone

/-- `fcntl(fd, F_DUPFD, arg)`. -/
def fcntlDupFd (t : Table F) (fd arg : Int) : Except Errno (Int × Table F) :=
  match t.get fd with
  | none => .error .EBADF
  | some d =>
    if arg < 0 ∨ t.limit ≤ arg then .error .EINVAL
    else
      match t.lowestFree arg.toNat with
      | none => .error .EMFILE
      | some n => .ok (n, t.set n (some { d with closeOnExec := false }))

/-- `close` of an open descriptor takes it out of the table, also when it reports an error. -/
def close (t : Table F) (fd : Int) : Table F := t.set fd.toNat none

def MIN_FD : Int := 0

def dupClone (t : Table F) (fd : Int) : Except Errno (Int × Table F) := fcntlDupFd t fd MIN_FD

def dup2Clone (t : Table F) (oldFd newFd : Int) : Except Errno Int × Table F :=
  if oldFd = newFd ∧ fcntlGetFd t newFd = .error .EBADF then (.error .EBADF, t)
  else
    let t := if fcntlGetFd t newFd ≠ .error .EBADF then close t newFd else t
    match fcntlDupFd t oldFd newFd with
    | .error errno => (.error errno, t)
    | .ok (fd, t) => (.ok fd, t)

/-! ### What `dup2` does -/

/-- The result and the table that `dup2(oldFd, newFd)` leaves. -/
structure Dup2 (t : Table F) (oldFd newFd : Int) (result : Except Errno Int × Table F) : Prop where
  notOpen : t.get oldFd = none → result = (.error .EBADF, t)
  same : t.get oldFd ≠ none → oldFd = newFd → result = (.ok newFd, t)
  duplicate : ∀ d, t.get oldFd = some d → oldFd ≠ newFd → 0 ≤ newFd → newFd < t.limit →
    result.1 = .ok newFd ∧ result.2.get newFd = some { d with closeOnExec := false } ∧
      (∀ fd, fd ≠ newFd → result.2.get fd = t.get fd) ∧ result.2.limit = t.limit

variable {t : Table F} {fd oldFd newFd : Int}

theorem get_set {n : Nat} {entry : Option (Descriptor F)} :
    (t.set n entry).get fd = if fd = n then entry else t.get fd := by
  unfold Table.get Table.set
  dsimp only
  by_cases negative : fd < 0
  · rw [if_pos negative, if_neg (by omega), if_pos negative]
  · rw [if_neg negative, if_neg negative]
    by_cases here : fd.toNat = n
    · rw [here, Function.update_self, if_pos (by omega)]
    · rw [Function.update_of_ne here, if_neg (by omega)]

theorem get_close (valid : 0 ≤ newFd) :
    (close t newFd).get fd = if fd = newFd then none else t.get fd := by
  have same : (newFd.toNat : Int) = newFd := Int.toNat_of_nonneg valid
  rw [close, get_set, same]

theorem get_nonneg (present : t.get fd ≠ none) : 0 ≤ fd := by
  by_contra negative
  exact present (if_pos (by omega))

theorem getFd_iff : fcntlGetFd t fd = .error .EBADF ↔ t.get fd = none := by
  unfold fcntlGetFd
  cases t.get fd <;> simp

/-- A free target is what `F_DUPFD` finds first. -/
theorem lowestFree_here {n : Nat} (free : t.entries n = none) (inside : n < t.limit) :
    t.lowestFree n = some n := by
  obtain ⟨k, room⟩ : ∃ k, t.limit - n = k + 1 := ⟨t.limit - n - 1, by omega⟩
  rw [Table.lowestFree, room, List.range'_succ, List.find?_cons_of_pos (by simp [free])]

theorem dupFd_free {d : Descriptor F} (present : t.get oldFd = some d) (free : t.get newFd = none)
    (low : 0 ≤ newFd) (high : newFd < t.limit) :
    fcntlDupFd t oldFd newFd =
      .ok (newFd, t.set newFd.toNat (some { d with closeOnExec := false })) := by
  have same : (newFd.toNat : Int) = newFd := Int.toNat_of_nonneg low
  have empty : t.entries newFd.toNat = none := by
    unfold Table.get at free
    rwa [if_neg (by omega)] at free
  unfold fcntlDupFd
  rw [present]
  simp only
  rw [if_neg (by omega), lowestFree_here empty (by omega)]
  simp only [same]

theorem dupFd_notOpen (absent : t.get oldFd = none) :
    fcntlDupFd t oldFd newFd = .error .EBADF := by
  unfold fcntlDupFd
  rw [absent]

theorem dup2_notOpen (absent : t.get oldFd = none) : dup2Clone t oldFd newFd =
    (.error .EBADF, if t.get newFd = none then t else close t newFd) := by
  unfold dup2Clone
  simp only [getFd_iff, ne_eq]
  by_cases free : t.get newFd = none
  · simp only [free, and_true, not_true_eq_false, if_false, if_true, dupFd_notOpen absent]
    split <;> rfl
  · have valid := get_nonneg free
    have still : (close t newFd).get oldFd = none := by
      rw [get_close valid, absent, ite_self]
    simp only [free, and_false, if_false, not_false_eq_true, if_true, dupFd_notOpen still]

/-- The descriptor itself is closed, and then there is nothing to duplicate. -/
theorem dup2_same (present : t.get oldFd ≠ none) :
    dup2Clone t oldFd oldFd = (.error .EBADF, close t oldFd) := by
  have gone : (close t oldFd).get oldFd = none := by
    rw [get_close (get_nonneg present), if_pos rfl]
  unfold dup2Clone
  simp only [getFd_iff, ne_eq, present, and_false, if_false, not_false_eq_true, if_true,
    dupFd_notOpen gone]

theorem dup2_duplicates {d : Descriptor F} (present : t.get oldFd = some d)
    (different : oldFd ≠ newFd) (low : 0 ≤ newFd) (high : newFd < t.limit) :
    ∃ u : Table F, u.limit = t.limit ∧ (∀ fd, fd ≠ newFd → u.get fd = t.get fd) ∧
      dup2Clone t oldFd newFd =
        (.ok newFd, u.set newFd.toNat (some { d with closeOnExec := false })) := by
  unfold dup2Clone
  simp only [getFd_iff, ne_eq, different, false_and, if_false]
  by_cases free : t.get newFd = none
  · refine ⟨t, rfl, fun _ _ => rfl, ?_⟩
    simp only [free, not_true_eq_false, if_false, dupFd_free present free low high]
  · have others (fd : Int) (other : fd ≠ newFd) : (close t newFd).get fd = t.get fd := by
      rw [get_close low, if_neg other]
    have still := (others oldFd different).trans present
    have gone : (close t newFd).get newFd = none := by
      rw [get_close low, if_pos rfl]
    refine ⟨close t newFd, rfl, others, ?_⟩
    simp only [free, not_false_eq_true, if_true, dupFd_free (t := close t newFd) still gone low high]

theorem close_ne (present : t.get newFd ≠ none) : close t newFd ≠ t := by
  intro unchanged
  have gone : (close t newFd).get newFd = none := by
    rw [get_close (get_nonneg present), if_pos rfl]
  rw [unchanged] at gone
  exact present gone

/-- `dup2_clone` is `dup2` exactly where the target is another open descriptor or none at all. -/
theorem dup2_iff (t : Table F) (oldFd newFd : Int) : Dup2 t oldFd newFd (dup2Clone t oldFd newFd) ↔
    (t.get oldFd ≠ none ∧ oldFd ≠ newFd) ∨ (t.get oldFd = none ∧ t.get newFd = none) := by
  constructor
  · intro good
    by_cases absent : t.get oldFd = none
    · refine Or.inr ⟨absent, ?_⟩
      by_contra present
      have kept := good.notOpen absent
      rw [dup2_notOpen absent, if_neg present] at kept
      exact close_ne present (Prod.mk.inj kept).2
    · refine Or.inl ⟨absent, ?_⟩
      rintro rfl
      have kept := good.same absent rfl
      rw [dup2_same absent] at kept
      cases (Prod.mk.inj kept).1
  · rintro (⟨present, different⟩ | ⟨absent, free⟩)
    · refine ⟨fun absent => absurd absent present, fun _ same => absurd same different,
        fun d found _ low high => ?_⟩
      obtain ⟨u, limit, others, call⟩ := dup2_duplicates found different low high
      have here : (newFd.toNat : Int) = newFd := Int.toNat_of_nonneg low
      rw [call]
      refine ⟨rfl, ?_, fun fd other => ?_, limit⟩
      · rw [get_set, here, if_pos rfl]
      · rw [get_set, here, if_neg other]
        exact others fd other
    · refine ⟨fun _ => ?_, fun present => absurd absent present, fun d found => ?_⟩
      · rw [dup2_notOpen absent, if_pos free]
      · rw [absent] at found
        cases found

end Calls

/-- Standard input alone is open: `dup2(0, 0)` closes it and fails. -/
theorem dup2_closes_itself : ¬ ∀ (t : Table Unit) (oldFd newFd : Int),
    Dup2 t oldFd newFd (dup2Clone t oldFd newFd) := by
  intro all
  have here := all ⟨fun n => if n = 0 then some ⟨(), false⟩ else none, 1024⟩ 0 0
  have kept := here.same nofun rfl
  cases (Prod.mk.inj kept).1

end Tlpi.Dup
