import TlpiExercises.Dup.Dup2

/-!
# Opening files on the table of descriptors

`open` and its like take the lowest free descriptor; `dup2` takes the one it is told.
-/

namespace Tlpi.Dup

variable {F : Type*}

/-- A call that makes a new open file description. -/
def Table.openFile (t : Table F) (file : F) : Option (Nat × Table F) :=
  (t.lowestFree 0).map fun fd => (fd, t.set fd (some ⟨file, false⟩))

/-- The system call. -/
def Table.dup2 (t : Table F) (oldFd newFd : Nat) : Option (Table F) :=
  match t.entries oldFd with
  | none => none
  | some d =>
    if oldFd = newFd then some t
    else if newFd < t.limit then some (t.set newFd (some { d with closeOnExec := false }))
    else none

variable {t u : Table F} {file : F} {fd oldFd newFd : Nat}

@[simp] theorem set_entries (t : Table F) (fd : Nat) (entry : Option (Descriptor F)) :
    (t.set fd entry).entries = Function.update t.entries fd entry := rfl

@[simp] theorem set_limit (t : Table F) (fd : Nat) (entry : Option (Descriptor F)) :
    (t.set fd entry).limit = t.limit := rfl

theorem set_set (t : Table F) (fd : Nat) (entry entry' : Option (Descriptor F)) :
    (t.set fd entry).set fd entry' = t.set fd entry' := by
  simp [Table.set]

/-- The descriptor was free, and those below it were not. -/
theorem openFile_some (h : t.openFile file = some (fd, u)) :
    t.entries fd = none ∧ (∀ lower, lower < fd → t.entries lower ≠ none) ∧ fd < t.limit ∧
      u = t.set fd (some ⟨file, false⟩) := by
  obtain ⟨n, lowest, same⟩ := Option.map_eq_some_iff.mp h
  obtain ⟨rfl, rfl⟩ := Prod.mk.inj same
  unfold Table.lowestFree at lowest
  rw [List.find?_range'_eq_some] at lowest
  obtain ⟨free, inside, below⟩ := lowest
  refine ⟨by simpa using free, fun lower smaller => ?_, ?_, rfl⟩
  · have taken := below lower (Nat.zero_le _) smaller
    exact Option.isSome_iff_ne_none.mp (by simpa using taken)
  · have range := List.mem_range'_1.mp inside
    omega

/-- A descriptor that is closed again leaves no trace. -/
theorem close_openFile (h : t.openFile file = some (fd, u)) : close u fd = t := by
  obtain ⟨free, _, _, rfl⟩ := openFile_some h
  have before : Function.update t.entries fd none = t.entries := by
    rw [← free, Function.update_eq_self]
  show (t.set fd _).set fd none = t
  rw [set_set, Table.set, before]

theorem dup2_some (h : t.dup2 oldFd newFd = some u) : ∃ d, t.entries oldFd = some d ∧
    u.limit = t.limit ∧ (∀ fd, fd ≠ newFd → u.entries fd = t.entries fd) ∧
    ∃ flag, u.entries newFd = some ⟨d.file, flag⟩ ∧ (oldFd ≠ newFd → flag = false) := by
  unfold Table.dup2 at h
  split at h
  · cases h
  · rename_i d source
    split at h
    · rename_i same
      obtain rfl := Option.some.inj h
      exact ⟨d, source, rfl, fun _ _ => rfl, d.closeOnExec, same ▸ source, fun other => absurd same other⟩
    · split at h
      · obtain rfl := Option.some.inj h
        exact ⟨d, source, rfl, fun fd other => by simp [other], false, by simp, fun _ => rfl⟩
      · cases h

end Tlpi.Dup
