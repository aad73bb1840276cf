import Mathlib.Data.List.Nodup
import Mathlib.Order.Defs.LinearOrder
import TlpiExercises.Library.Loop

/-!
# The SIGCHLD handlers of the concurrent servers

`sigchld_handler` of 64_Pseudoterminals/telnet_sv.c, `sigchild_handler` of
61_Sockets_Advanced_Topics/is_shell_sv.c and `grimReaper` of 52_Posix_Message_Queues/pmsg_file_server.c.
Children go on terminating while a handler runs; none is created.
-/

namespace Tlpi.Reaper

open Loop

abbrev Pid := { pid : Int // 0 < pid }

/-- The children that have terminated and not been reaped, and those that run. -/
structure Children where
  terminated : List Pid
  running : List Pid
  distinct : (terminated ++ running).Nodup

/-- What happens up to a call of `waitpid`: the children that terminate before it, and the one of which
it returns the status, if there is a choice. -/
structure Moment where
  ends : Pid → Bool
  chosen : Pid

namespace Children

def advance (c : Children) (ends : Pid → Bool) : Children where
  terminated := c.terminated ++ c.running.filter ends
  running := c.running.filter fun pid => !ends pid
  distinct := by
    have same := (List.filter_append_perm ends c.running).append_left c.terminated
    rw [← List.append_assoc] at same
    exact same.nodup_iff.mpr c.distinct

def reap (c : Children) (pid : Pid) : Children where
  terminated := c.terminated.erase pid
  running := c.running
  distinct := c.distinct.sublist (List.erase_sublist.append_right c.running)

def count (c : Children) : Nat := c.terminated.length + c.running.length

end Children

/-- `waitpid(-1, NULL, WNOHANG)` -/
def waitpid (moment : Moment) (children : Children) : Int × Children :=
  let c := children.advance moment.ends
  match c.terminated with
  | [] => if c.running = [] then (-1, c) else (0, c)
  | first :: _ =>
    let pid := if moment.chosen ∈ c.terminated then moment.chosen else first
    (pid.1, c.reap pid)

/-- A handler, which makes its call number `n` of `waitpid` at `moments n`. -/
abbrev Handler := (Nat → Moment) → Nat → Children → Option Children

/-- `while (waitpid(-1, NULL, WNOHANG) > 0) continue;` -/
def whileReaped (moments : Nat → Moment) (s : Nat × Children) : Except Children (Nat × Children) :=
  let (rv, children) := waitpid (moments s.1) s.2
  if rv > 0 then .ok (s.1 + 1, children) else .error children

/-- `while (1) if (waitpid(-1, NULL, WNOHANG) > 0) break;` -/
def untilReaped (moments : Nat → Moment) (s : Nat × Children) : Except Children (Nat × Children) :=
  let (rv, children) := waitpid (moments s.1) s.2
  if rv > 0 then .error children else .ok (s.1 + 1, children)

/-- 64_Pseudoterminals/telnet_sv.c -/
def sigchldHandler : Handler := fun moments fuel c => loop (untilReaped moments) fuel (0, c)

/-- 61_Sockets_Advanced_Topics/is_shell_sv.c -/
def sigchildHandler : Handler := fun moments fuel c => loop (whileReaped moments) fuel (0, c)

/-- 52_Posix_Message_Queues/pmsg_file_server.c -/
def grimReaper : Handler := fun moments fuel c => loop (whileReaped moments) fuel (0, c)

inductive Server where
  | telnet
  | shell
  | files
  deriving DecidableEq

def Server.handler : Server → Handler
  | .telnet => sigchldHandler
  | .shell => sigchildHandler
  | .files => grimReaper

/-- Whatever happens, the handler returns and has reaped the children that had terminated. -/
def Reaps (handler : Handler) (c : Children) : Prop :=
  ∀ moments, ∃ fuel left, handler moments fuel c = some left ∧
    ∀ pid ∈ c.terminated, pid ∉ left.terminated

/-! ### waitpid -/

variable {c c' : Children} {moment : Moment} {moments : Nat → Moment}

theorem advance_count (c : Children) (ends : Pid → Bool) : (c.advance ends).count = c.count := by
  have parts := (List.filter_append_perm ends c.running).length_eq
  rw [List.length_append] at parts
  unfold Children.count Children.advance
  dsimp only
  rw [List.length_append]
  omega

theorem waitpid_none (moment : Moment) (none_left : (c.advance moment.ends).terminated = []) :
    (waitpid moment c).1 ≤ 0 ∧ (waitpid moment c).2 = c.advance moment.ends := by
  unfold waitpid
  dsimp only
  rw [none_left]
  dsimp only
  split
  · exact ⟨Int.negSucc_le_zero 0, rfl⟩
  · exact ⟨Int.le_refl 0, rfl⟩

theorem waitpid_some (moment : Moment) (some_left : (c.advance moment.ends).terminated ≠ []) :
    ∃ pid ∈ (c.advance moment.ends).terminated,
      waitpid moment c = (pid.1, (c.advance moment.ends).reap pid) := by
  unfold waitpid
  dsimp only
  cases left : (c.advance moment.ends).terminated with
  | nil => exact absurd left some_left
  | cons first rest =>
    dsimp only
    by_cases member : moment.chosen ∈ first :: rest
    · rw [if_pos member]
      exact ⟨moment.chosen, member, rfl⟩
    · rw [if_neg member]
      exact ⟨first, List.mem_cons_self, rfl⟩

/-- The child that `waitpid` was free to take. -/
theorem waitpid_chosen (member : moment.chosen ∈ (c.advance moment.ends).terminated) :
    waitpid moment c = (moment.chosen.1, (c.advance moment.ends).reap moment.chosen) := by
  unfold waitpid
  dsimp only
  cases left : (c.advance moment.ends).terminated with
  | nil =>
    rw [left] at member
    cases member
  | cons first rest =>
    rw [left] at member
    dsimp only
    rw [if_pos member]

theorem reap_count {pid : Pid} (member : pid ∈ c.terminated) : (c.reap pid).count < c.count := by
  have shorter := List.length_erase_of_mem member
  have some_left := List.length_pos_of_mem member
  unfold Children.count Children.reap
  dsimp only
  omega

/-! ### The loop that goes on while there is a child -/

theorem whileReaped_cases (moments : Nat → Moment) (s : Nat × Children) :
    (∃ left, whileReaped moments s = .error left ∧ left.terminated = []) ∨
      ∃ t, whileReaped moments s = .ok t ∧ t.2.count < s.2.count := by
  unfold whileReaped
  dsimp only
  by_cases none_left : (s.2.advance (moments s.1).ends).terminated = []
  · obtain ⟨low, same⟩ := waitpid_none (moments s.1) none_left
    rw [if_neg (Int.not_lt.mpr low)]
    refine Or.inl ⟨_, rfl, ?_⟩
    rw [same]
    exact none_left
  · obtain ⟨pid, member, call⟩ := waitpid_some (moments s.1) none_left
    rw [call]
    dsimp only
    rw [if_pos pid.2]
    refine Or.inr ⟨_, rfl, ?_⟩
    dsimp only
    rw [← advance_count s.2 (moments s.1).ends]
    exact reap_count member

theorem whileReaped_reaps (c : Children) :
    Reaps (fun moments fuel c => loop (whileReaped moments) fuel (0, c)) c := by
  intro moments
  obtain ⟨fuel, left, ended, none_left⟩ := loop_ends (I := fun _ => True) (m := fun s => s.2.count)
    (fun s _ => (whileReaped_cases moments s).imp_right fun ⟨t, next, fewer⟩ => ⟨t, next, trivial, fewer⟩)
    (s := (0, c)) trivial
  refine ⟨fuel, left, ended, fun pid _ member => ?_⟩
  rw [none_left] at member
  cases member

/-! ### The loop that goes on until there is a child -/

/-- No child terminates. -/
def quiet (chosen : Pid) : Nat → Moment := fun _ => ⟨fun _ => false, chosen⟩

theorem advance_quiet (c : Children) : c.advance (fun _ => false) = c := by
  cases c with
  | mk terminated running distinct =>
    unfold Children.advance
    congr 1
    · rw [List.filter_false, List.append_nil]
    · exact List.filter_eq_self.mpr fun _ _ => rfl

theorem untilReaped_waits (chosen : Pid) (none_left : c.terminated = []) (n : Nat) :
    untilReaped (quiet chosen) (n, c) = .ok (n + 1, c) := by
  have still : (c.advance (quiet chosen n).ends) = c := advance_quiet c
  obtain ⟨low, same⟩ := waitpid_none (quiet chosen n) (still.symm ▸ none_left)
  unfold untilReaped
  dsimp only
  rw [if_neg (Int.not_lt.mpr low)]
  exact congrArg (fun children => Except.ok (n + 1, children)) (same.trans still)

/-- Without a child that has terminated the handler does not return. -/
theorem untilReaped_forever (chosen : Pid) (none_left : c.terminated = []) (fuel n : Nat) :
    loop (untilReaped (quiet chosen)) fuel (n, c) = none := by
  induction fuel generalizing n with
  | zero => rfl
  | succ fuel ih =>
    rw [loop, untilReaped_waits chosen none_left]
    exact ih (n + 1)

theorem untilReaped_once {pid : Pid} {left : Children} (call : waitpid (moments 0) c = (pid.1, left)) :
    loop (untilReaped moments) 1 (0, c) = some left := by
  refine loop_error ?_
  unfold untilReaped
  dsimp only
  rw [call]
  exact if_pos pid.2

/-- What is left is what the first call has left. -/
theorem untilReaped_left (moments : Nat → Moment) {fuel : Nat} {left : Children}
    (member : (moments 0).chosen ∈ (c.advance (moments 0).ends).terminated)
    (ended : loop (untilReaped moments) fuel (0, c) = some left) :
    left.terminated = (c.advance (moments 0).ends).terminated.erase (moments 0).chosen :=
  congrArg Children.terminated (loop_unique ended (untilReaped_once (waitpid_chosen member)))

theorem quiet_one {p : Pid} {rest : List Pid} (terminated : c.terminated = p :: rest)
    (reaps : Reaps sigchldHandler c) : rest = [] := by
  obtain ⟨fuel, left, ended, reaped⟩ := reaps (quiet p)
  have still : c.advance (quiet p 0).ends = c := advance_quiet c
  have member : (quiet p 0).chosen ∈ (c.advance (quiet p 0).ends).terminated := by
    rw [still, terminated]
    exact List.mem_cons_self
  have remaining : left.terminated = rest := by
    rw [untilReaped_left (quiet p) member ended, still, terminated]
    exact List.erase_cons_head p rest
  refine List.eq_nil_iff_forall_not_mem.mpr fun q inside => ?_
  have before : q ∈ c.terminated := terminated ▸ List.mem_cons_of_mem p inside
  exact reaped q before (remaining ▸ inside)

/-- A child that terminates in the meantime can be reaped in the place of the other one. -/
theorem alone {p q : Pid} (before : p ∈ c.terminated) (running : q ∈ c.running) :
    ¬ Reaps sigchldHandler c := by
  intro reaps
  obtain ⟨fuel, left, ended, reaped⟩ := reaps fun _ => ⟨fun pid => pid = q, q⟩
  have member : q ∈ (c.advance fun pid => pid = q).terminated :=
    List.mem_append_right _ (List.mem_filter.mpr ⟨running, decide_eq_true rfl⟩)
  have remaining := untilReaped_left (fun _ => ⟨fun pid => pid = q, q⟩) member ended
  have other : p ≠ q := by
    rintro rfl
    exact List.disjoint_of_nodup_append c.distinct before running
  refine reaped p before ?_
  rw [remaining]
  exact (List.mem_erase_of_ne other).mpr (List.mem_append_left _ before)

/-- A handler that reaps one child is right for one child, if no other one is left to terminate. -/
theorem sigchldHandler_iff (c : Children) :
    Reaps sigchldHandler c ↔ c.terminated.length = 1 ∧ c.running = [] := by
  constructor
  · intro reaps
    cases terminated : c.terminated with
    | nil =>
      obtain ⟨fuel, left, ended, _⟩ := reaps (quiet ⟨1, Int.one_pos⟩)
      have never := untilReaped_forever ⟨1, Int.one_pos⟩ terminated fuel 0
      cases never.symm.trans ended
    | cons p rest =>
      obtain rfl := quiet_one terminated reaps
      refine ⟨rfl, List.eq_nil_iff_forall_not_mem.mpr fun q running => ?_⟩
      exact alone (terminated ▸ List.mem_cons_self) running reaps
  · rintro ⟨one, none_running⟩ moments
    obtain ⟨p, terminated⟩ := List.length_eq_one_iff.mp one
    have still : (c.advance (moments 0).ends).terminated = [p] := by
      unfold Children.advance
      dsimp only
      rw [terminated, none_running]
      rfl
    obtain ⟨pid, member, call⟩ := waitpid_some (moments 0)
      (still ▸ List.cons_ne_nil p [])
    refine ⟨1, _, untilReaped_once call, fun other _ left => ?_⟩
    rw [still, List.mem_singleton] at member
    have nothing : ((c.advance (moments 0).ends).reap pid).terminated = [] := by
      unfold Children.reap
      dsimp only
      rw [still, member]
      exact List.erase_cons_head p []
    rw [nothing] at left
    cases left

/-! ### The three servers -/

/-- The handlers of the shell server and the file server reap everything. -/
theorem reaps_iff (server : Server) (c : Children) :
    Reaps server.handler c ↔ (server = .telnet → c.terminated.length = 1 ∧ c.running = []) := by
  cases server with
  | telnet =>
    rw [Server.handler, sigchldHandler_iff]
    exact ⟨fun right _ => right, fun right => right rfl⟩
  | shell => exact iff_of_true (whileReaped_reaps c) (by rintro ⟨⟩)
  | files => exact iff_of_true (whileReaped_reaps c) (by rintro ⟨⟩)

/-- Two children have terminated, and one of them is left. -/
theorem one_left : ¬ ∀ (server : Server) (c : Children), Reaps server.handler c := by
  intro all
  have reaps := all .telnet ⟨[⟨1, Int.one_pos⟩, ⟨2, Int.succ_ofNat_pos 1⟩], [], by decide⟩
  have one := (sigchldHandler_iff _).mp reaps
  exact absurd one.1 (by decide)

end Tlpi.Reaper
