import TlpiExercises.BecomeDaemon.Model

/-!
# What a daemon is

Which of the three processes goes on, in which session, and with which descriptors.
-/

namespace Tlpi.BecomeDaemon

open Dup

variable {F D : Type*} {t u : Table F} {p q : Process F D} {flags : Nat} {null : F} {root : D}
  {calls : Calls} {openNull : Bool}

theorem close_entries (fd : Nat) : (close t fd).entries = Function.update t.entries fd none := rfl

theorem closeAll_entries (t : Table F) (maxfd fd : Nat) :
    (closeAll t maxfd).entries fd = (if fd < maxfd then none else t.entries fd) ∧
      (closeAll t maxfd).limit = t.limit := by
  induction maxfd with
  | zero => exact ⟨rfl, rfl⟩
  | succ maxfd ih =>
    obtain ⟨entries, limit⟩ := ih
    have last : closeAll t (maxfd + 1) = close (closeAll t maxfd) maxfd := by
      simp [closeAll, List.range_succ]
    rw [last, close_entries]
    refine ⟨?_, limit⟩
    by_cases here : fd = maxfd
    · simp [here]
    · rw [Function.update_of_ne here, entries]
      have same : fd < maxfd + 1 ↔ fd < maxfd := by omega
      simp only [same]

theorem dup2_open {oldFd newFd : Nat} (limit : Nat) {file : F} (source : t.entries oldFd = some ⟨file, false⟩)
    (other : oldFd ≠ newFd) (bound : t.limit = limit) :
    t.dup2 oldFd newFd = if newFd < limit then some (t.set newFd (some ⟨file, false⟩)) else none := by
  simp [Table.dup2, source, other, bound]

/-- Descriptor 0 has just been closed, so that it is the lowest free one. -/
theorem reopen_eq (null : F) (openNull : Bool) (t : Table F) :
    (reopen null openNull t).1 = decide (openNull = true ∧ 2 < t.limit) ∧
    ((reopen null openNull t).1 = true → ∀ fd, (reopen null openNull t).2.entries fd =
      if fd ≤ 2 then some ⟨null, false⟩ else t.entries fd) := by
  unfold reopen
  cases openNull with
  | false => simp
  | true =>
    by_cases room : 0 < t.limit
    · have opens : (close t 0).openFile null = some (0, t.set 0 (some ⟨null, false⟩)) := by
        have lowest : (close t 0).lowestFree 0 = some 0 := lowestFree_here (by simp [close]) room
        rw [Table.openFile, lowest]
        simp [close, set_set]
      have first : (t.set 0 (some ⟨null, false⟩)).dup2 0 1 = _ :=
        dup2_open t.limit (by simp; rfl) (by decide) rfl
      simp only [if_true, opens, ne_eq, not_true_eq_false, if_false, first]
      by_cases one : 1 < t.limit
      · have second : ((t.set 0 (some ⟨null, false⟩)).set 1 (some ⟨null, false⟩)).dup2 0 2 = _ :=
          dup2_open t.limit (by simp; rfl) (by decide) rfl
        simp only [if_pos one, second]
        by_cases two : 2 < t.limit
        · simp only [two, if_true, decide_true, and_self]
          refine ⟨trivial, fun _ fd => ?_⟩
          obtain rfl | rfl | rfl | high : fd = 0 ∨ fd = 1 ∨ fd = 2 ∨ 2 < fd := by omega
          · simp
          · simp
          · simp
          · have others : fd ≠ 0 ∧ fd ≠ 1 ∧ fd ≠ 2 ∧ ¬ fd ≤ 2 := by omega
            simp [others]
        · simp [two]
      · have two : ¬ 2 < t.limit := by omega
        simp [one, two]
    · have full : (close t 0).openFile null = none := by
        simp [Table.openFile, Table.lowestFree, close, Nat.eq_zero_of_not_pos room]
      have two : ¬ 2 < t.limit := by omega
      simp [full, two]

/-- The descriptors that a daemon begins with. -/
def daemonEntries (flags : Nat) (null : F) (calls : Calls) (t : Table F) (fd : Nat) :
    Option (Descriptor F) :=
  if isSet flags BD_NO_REOPEN_STD_FDS = false ∧ fd ≤ 2 then some ⟨null, false⟩
  else if isSet flags BD_NO_CLOSE_FILES = false ∧ fd < calls.sysconf.getD BD_MAX_CLOSE then none
  else t.entries fd

/-- A process in its own session that it does not lead. -/
structure Daemon (flags : Nat) (null : F) (root : D) (calls : Calls) (p q : Process F D) : Prop where
  notLeader : q.pid ≠ q.sid
  session : calls.fork = some q.sid ∧ q.pgid = q.sid
  noTty : q.controllingTty = false
  umask : q.umask = if isSet flags BD_NO_UMASK0 then p.umask else 0
  cwd : q.cwd = if isSet flags BD_NO_CHDIR ∨ calls.chdir = false then p.cwd else root
  entries : ∀ fd, q.table.entries fd = daemonEntries flags null calls p.table fd

theorem prepare_eq (flags : Nat) (root : D) (calls : Calls) (p : Process F D) :
    prepare flags root calls p = { p with
      umask := if isSet flags BD_NO_UMASK0 then p.umask else 0
      cwd := if isSet flags BD_NO_CHDIR ∨ calls.chdir = false then p.cwd else root
      table := if isSet flags BD_NO_CLOSE_FILES then p.table
        else closeAll p.table (calls.sysconf.getD BD_MAX_CLOSE) } := by
  unfold prepare
  cases isSet flags BD_NO_UMASK0 <;> cases isSet flags BD_NO_CHDIR <;> cases calls.chdir <;>
    cases isSet flags BD_NO_CLOSE_FILES <;> rfl

/-- The table after the closing of all files. -/
theorem prepare_table (flags : Nat) (root : D) (calls : Calls) (p : Process F D) (fd : Nat) :
    (prepare flags root calls p).table.limit = p.table.limit ∧
    (prepare flags root calls p).table.entries fd =
      if isSet flags BD_NO_CLOSE_FILES = false ∧ fd < calls.sysconf.getD BD_MAX_CLOSE then none
      else p.table.entries fd := by
  rw [prepare_eq]
  cases isSet flags BD_NO_CLOSE_FILES with
  | true => simp
  | false =>
    obtain ⟨entries, limit⟩ := closeAll_entries p.table (calls.sysconf.getD BD_MAX_CLOSE) fd
    simp [entries, limit]

theorem setUp_result (flags : Nat) (null : F) (root : D) (calls : Calls) (p : Process F D) :
    (setUp flags null root calls p).1 = .returned (if isSet flags BD_NO_REOPEN_STD_FDS = true ∨
      calls.openNull = true ∧ 2 < p.table.limit then 0 else -1) ∧
    ∃ table, (setUp flags null root calls p).2 = { prepare flags root calls p with table } ∧
      ((setUp flags null root calls p).1 = .returned 0 →
        ∀ fd, table.entries fd = daemonEntries flags null calls p.table fd) := by
  obtain ⟨limit, _⟩ := prepare_table flags root calls p 0
  unfold setUp daemonEntries
  dsimp only
  cases keeps : isSet flags BD_NO_REOPEN_STD_FDS with
  | true =>
    refine ⟨by simp, (prepare flags root calls p).table, rfl, fun _ fd => ?_⟩
    simpa using (prepare_table flags root calls p fd).2
  | false =>
    obtain ⟨done, entries⟩ := reopen_eq null calls.openNull (prepare flags root calls p).table
    rw [limit] at done
    refine ⟨by simp [done], (reopen null calls.openNull (prepare flags root calls p).table).2, rfl,
      fun returned fd => ?_⟩
    have reopened : (reopen null calls.openNull (prepare flags root calls p).table).1 = true := by
      simpa using returned
    rw [entries reopened fd, (prepare_table flags root calls p fd).2]
    simp

/-- For every flag and every result of the calls, just one of the processes returns. Where it returns 0 it
is a daemon; and it does so unless a `fork` fails, or `/dev/null` cannot be put on three descriptors. -/
theorem becomeDaemon_returns (flags : Nat) (null : F) (root : D) (calls : Calls) (p : Process F D)
    (fresh : ∀ pid, calls.fork = some pid → pid ≠ p.pgid ∧ calls.forkAgain ≠ some pid) :
    ∃ rv q, (becomeDaemon flags null root calls p).filter (fun process => process.1 ≠ .exited) =
      [(.returned rv, q)] ∧
    (rv = 0 → Daemon flags null root calls p q) ∧
    (rv = 0 ↔ calls.fork ≠ none ∧ calls.forkAgain ≠ none ∧
      (isSet flags BD_NO_REOPEN_STD_FDS = true ∨ calls.openNull = true ∧ 2 < p.table.limit)) := by
  unfold becomeDaemon
  cases first : calls.fork with
  | none => exact ⟨-1, p, rfl, by simp, by simp⟩
  | some pid =>
    obtain ⟨notGroup, other⟩ := fresh pid first
    have leader : setsid { p with pid } = some { p with pid, pgid := pid, sid := pid, controllingTty := false } :=
      if_neg (Ne.symm notGroup)
    simp only [leader]
    cases second_ : calls.forkAgain with
    | none => exact ⟨-1, _, rfl, by simp, by simp⟩
    | some pid' =>
      let second : Process F D := { p with pid := pid', pgid := pid, sid := pid, controllingTty := false }
      obtain ⟨result, table, process, entries⟩ := setUp_result flags null root calls second
      let rv : Int := if isSet flags BD_NO_REOPEN_STD_FDS = true ∨
        calls.openNull = true ∧ 2 < p.table.limit then 0 else -1
      have whole : setUp flags null root calls second =
        (.returned rv, (setUp flags null root calls second).2) := Prod.ext result rfl
      refine ⟨rv, (setUp flags null root calls second).2, ?_, fun zero => ?_, ?_⟩
      · rw [← whole]
        show List.filter _ [(End.exited, p), (End.exited, _), setUp flags null root calls second] = _
        simp [result]
      · rw [process, prepare_eq]
        exact ⟨fun same => other (second_ ▸ congrArg some same), ⟨first, rfl⟩, rfl, rfl, rfl,
          entries (result.trans (congrArg _ zero))⟩
      · simp only [rv]
        cases isSet flags BD_NO_REOPEN_STD_FDS <;> simp

/-- No flags: `/dev/null` on the standard descriptors alone. -/
theorem becomeDaemon_returns_sample : ∃ q : Process Unit Unit,
    q.pid ≠ q.sid ∧ ∀ fd, q.table.entries fd = if fd ≤ 2 then some ⟨(), false⟩ else none := by
  let p : Process Unit Unit := ⟨40, 40, 7, true, 18, (), ⟨fun _ => none, 1024⟩⟩
  obtain ⟨rv, q, _, daemon, returns⟩ := becomeDaemon_returns 0 () () ⟨some 41, some 42, true, none, true⟩ p
    fun pid forked => by
      obtain rfl := Option.some.inj forked
      exact ⟨by decide, by decide⟩
  have zero : rv = 0 := returns.mpr ⟨by decide, by decide, Or.inr ⟨rfl, by decide⟩⟩
  refine ⟨q, (daemon zero).notLeader, fun fd => ?_⟩
  rw [(daemon zero).entries fd]
  simp [daemonEntries, isSet, p]

end Tlpi.BecomeDaemon
