import TlpiExercises.PtyFork.Model

/-!
# Who has which end

The parent gets one descriptor for the master or none, the child three for the slave and no other.
-/

namespace Tlpi.PtyFork

open Dup

variable {F : Type*} {t u : Table F} {pty : Pty F} {calls : Calls}

theorem opened {ok : Bool} {file : F} {fd : Nat}
    (h : (if ok then t.openFile file else none) = some (fd, u)) : t.openFile file = some (fd, u) := by
  cases ok with
  | false => cases h
  | true => exact h

theorem ptyMasterOpen_table (t : Table F) (pty : Pty F) (calls : Calls) (snLen : Nat) :
    (ptyMasterOpen t pty calls snLen).1 = none ∧ (ptyMasterOpen t pty calls snLen).2 = t ∨
    ∃ mfd name, t.openFile pty.master = some (mfd, (ptyMasterOpen t pty calls snLen).2) ∧
      (ptyMasterOpen t pty calls snLen).1 = some (mfd, name) ∧ name.length < snLen := by
  unfold ptyMasterOpen
  cases master : if calls.posixOpenpt then t.openFile pty.master else none with
  | none => exact Or.inl ⟨rfl, rfl⟩
  | some pair =>
    obtain ⟨mfd, u⟩ := pair
    have closed : close u mfd = t := close_openFile (opened master)
    dsimp only
    split
    · exact Or.inl ⟨rfl, closed⟩
    · split
      · exact Or.inl ⟨rfl, closed⟩
      · split
        · exact Or.inl ⟨rfl, closed⟩
        · rename_i name _
          split
          · rename_i short
            exact Or.inr ⟨mfd, name, opened master, rfl, short⟩
          · exact Or.inl ⟨rfl, closed⟩

/-- The three calls of `dup2`, whichever descriptor the slave has been given. -/
theorem dup2_standard {slaveFd : Nat} {file : F} {a b c : Table F}
    (open_ : t.entries slaveFd = some ⟨file, false⟩) (first : t.dup2 slaveFd 0 = some a)
    (second : a.dup2 slaveFd 1 = some b) (third : b.dup2 slaveFd 2 = some c) :
    (∀ fd, fd ≤ 2 → c.entries fd = some ⟨file, false⟩) ∧ ∀ fd, 2 < fd → c.entries fd = t.entries fd := by
  have step {t u : Table F} {newFd : Nat} (open_ : t.entries slaveFd = some ⟨file, false⟩)
      (h : t.dup2 slaveFd newFd = some u) : u.entries newFd = some ⟨file, false⟩ ∧
        u.entries slaveFd = some ⟨file, false⟩ ∧ ∀ fd, fd ≠ newFd → u.entries fd = t.entries fd := by
    obtain ⟨d, source, _, others, flag, here, cleared⟩ := dup2_some h
    rw [open_] at source
    obtain rfl := Option.some.inj source
    by_cases same : slaveFd = newFd
    · subst same
      have unchanged : u = t := by
        unfold Table.dup2 at h
        simpa [open_] using h.symm
      subst unchanged
      exact ⟨open_, open_, fun _ _ => rfl⟩
    · rw [cleared same] at here
      exact ⟨here, (others slaveFd same).trans open_, others⟩
  obtain ⟨zero, open_, others⟩ := step open_ first
  obtain ⟨one, open_, others'⟩ := step open_ second
  obtain ⟨two, _, others''⟩ := step open_ third
  refine ⟨fun fd low => ?_, fun fd high => ?_⟩
  · obtain rfl | rfl | rfl : fd = 0 ∨ fd = 1 ∨ fd = 2 := by omega
    · rw [others'' 0 (by decide), others' 0 (by decide), zero]
    · rw [others'' 1 (by decide), one]
    · exact two
  · rw [others'' fd (by omega), others' fd (by omega), others fd (by omega)]

/-- The slave is on the three standard descriptors, and nothing else is left of the pseudoterminal. -/
theorem ptyChild_table {mfd : Nat} {child : Table F} {slaveTermios slaveWS : Bool}
    (master : t.openFile pty.master = some (mfd, u))
    (h : ptyChild u pty calls slaveTermios slaveWS mfd = some child) :
    (∀ fd, fd ≤ 2 → child.entries fd = some ⟨pty.slave, false⟩) ∧
      ∀ fd, 2 < fd → child.entries fd = t.entries fd := by
  unfold ptyChild at h
  rw [close_openFile master] at h
  split at h
  · cases h
  · dsimp only at h
    split at h
    · cases h
    · rename_i slaveFd v slave
      obtain ⟨free, _, _, rfl⟩ := openFile_some (opened slave)
      split at h
      · cases h
      · split at h
        · cases h
        · split at h
          · cases h
          · obtain ⟨a, first, h⟩ := Option.bind_eq_some_iff.mp h
            obtain ⟨b, second, h⟩ := Option.bind_eq_some_iff.mp h
            obtain ⟨c, third, h⟩ := Option.bind_eq_some_iff.mp h
            have open_ : (t.set slaveFd (some ⟨pty.slave, false⟩)).entries slaveFd =
                some ⟨pty.slave, false⟩ := by simp
            obtain ⟨standard, others⟩ := dup2_standard open_ first second third
            obtain rfl := Option.some.inj h
            split
            · rename_i high
              have closed : (close c slaveFd).entries = Function.update c.entries slaveFd none := rfl
              rw [closed]
              refine ⟨fun fd low => ?_, fun fd above => ?_⟩
              · have other : fd ≠ slaveFd := by
                  unfold STDERR_FILENO at high
                  omega
                rw [Function.update_of_ne other, standard fd low]
              · by_cases here : fd = slaveFd
                · rw [here, Function.update_self, free]
                · rw [Function.update_of_ne here, others fd above]
                  simp [here]
            · rename_i low
              refine ⟨standard, fun fd above => ?_⟩
              have other : fd ≠ slaveFd := by
                unfold STDERR_FILENO at low
                omega
              rw [others fd above]
              simp [other]

/-- A call that fails leaves the parent's table as it was and no child. Otherwise the parent has one
descriptor more, for the master; and a child that is returned to has the slave on its three standard
descriptors and the parent's files on the others. -/
theorem ptyFork_descriptors (t : Table F) (pty : Pty F) (calls : Calls) (snLen : Option Nat)
    (slaveTermios slaveWS : Bool) :
    let forked := ptyFork t pty calls snLen slaveTermios slaveWS
    (forked.rv = -1 ∧ forked.masterFd = none ∧ forked.parent = t ∧ forked.child = none ∨
      0 < forked.rv ∧ ∃ mfd, forked.masterFd = some mfd ∧ t.entries mfd = none ∧
        forked.parent = t.set mfd (some ⟨pty.master, false⟩)) ∧
    ∀ child, forked.child = some child → ∀ fd,
      child.entries fd = if fd ≤ 2 then some ⟨pty.slave, false⟩ else t.entries fd := by
  intro forked
  cases opened : ptyMasterOpen t pty calls MAX_SNAME with
  | mk slave u =>
    obtain ⟨none_, table⟩ | ⟨mfd, name, master, some_, _⟩ :=
      ptyMasterOpen_table t pty calls MAX_SNAME
    · rw [opened] at none_ table
      obtain rfl : slave = none := none_
      obtain rfl : u = t := table
      have result : forked = ⟨-1, none, u, none⟩ := by simp [forked, ptyFork, opened]
      rw [result]
      exact ⟨Or.inl ⟨rfl, rfl, rfl, rfl⟩, nofun⟩
    · rw [opened] at master some_
      obtain rfl : slave = some (mfd, name) := some_
      obtain ⟨free, _, _, table⟩ := openFile_some master
      have closed : close u mfd = t := close_openFile master
      by_cases room : (snLen.all fun snLen => decide (name.length < snLen)) = true
      · cases fork : calls.fork with
        | none =>
          have result : forked = ⟨-1, none, t, none⟩ := by simp [forked, ptyFork, opened, fork, closed]
          rw [result]
          exact ⟨Or.inl ⟨rfl, rfl, rfl, rfl⟩, nofun⟩
        | some pid =>
          have result : forked = ⟨pid, some mfd, u, ptyChild u pty calls slaveTermios slaveWS mfd⟩ := by
            simp [forked, ptyFork, opened, fork, room]
          rw [result]
          refine ⟨Or.inr ⟨pid.2, mfd, rfl, free, table⟩, fun child returned fd => ?_⟩
          obtain ⟨standard, others⟩ := ptyChild_table master returned
          split
          · exact standard fd ‹_›
          · exact others fd (by omega)
      · have result : forked = ⟨-1, none, t, none⟩ := by simp [forked, ptyFork, opened, room, closed]
        rw [result]
        exact ⟨Or.inl ⟨rfl, rfl, rfl, rfl⟩, nofun⟩

end Tlpi.PtyFork
