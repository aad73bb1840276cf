import TlpiExercises.SeqnumFifo.Restart

/-!
# Crashes

A process that dies between two of its system calls leaves the backup file as the completed calls
have made it. The client has been answered by then, or the file is empty.
-/

namespace Tlpi.SeqnumFifo

inductive SystemCall where
  | read
  | openDummy
  | openClient
  | closeDummy
  | write
  | closeClient
  | ftruncate
  | lseek
  | writeBackup
  | exit
  deriving DecidableEq

/-- The process before a system call: the response that this iteration has sent, and the backup
file. `truncated` says that the file is empty until the new text is written. -/
structure Moment where
  next : SystemCall
  response : Option Response
  backup : List UInt8
  truncated : Bool

/-- The moments of an iteration, in order. An attempt that is repeated leaves everything as it was,
so each of the retry loops has one moment. -/
def moments (s : Server) (calls : Calls) : List Moment :=
  if calls.stopRequested then [⟨.exit, none, s.backup, false⟩]
  else
    ⟨.read, none, s.backup, false⟩ ::
    match calls.request with
    | none => []
    | some request =>
      ⟨.openDummy, none, s.backup, false⟩ ::
      if ¬ calls.openDummy then []
      else
        ⟨.openClient, none, s.backup, false⟩ :: ⟨.closeDummy, none, s.backup, false⟩ ::
        if ¬ calls.openClient then []
        else
          let response := if writeResponse calls.writes 3 = .complete then
            some { request, seqNum := s.seqNum } else none
          ⟨.write, none, s.backup, false⟩ :: ⟨.closeClient, response, s.backup, false⟩ ::
          ⟨.ftruncate, response, s.backup, false⟩ ::
          if ¬ calls.ftruncate then [⟨.exit, response, s.backup, false⟩]
          else
            ⟨.lseek, response, [], true⟩ ::
            if ¬ calls.lseek then [⟨.exit, response, [], true⟩]
            else
              ⟨.writeBackup, response, [], true⟩ ::
              if ¬ calls.writeBackup then [⟨.exit, response, [], true⟩] else []

/-- The server after the iterations of a run, `none` when the loop ends before. -/
def after (s : Server) : List Calls → Option Server
  | [] => some s
  | calls :: rest =>
    if (iteration s calls).continues then after (iteration s calls).server rest else none

def Fits : Server → List Calls → Prop
  | _, [] => True
  | s, calls :: rest =>
      (∀ request, calls.request = some request → tooLarge s.seqNum request = false) ∧
      ((iteration s calls).continues = true → Fits (iteration s calls).server rest)

/-- Whatever a server that is started on this file is asked, it announces none of these numbers. -/
def NeverAgain (announced : List Response) (backup : List UInt8) : Prop :=
  ∀ next, startup backup = some next → ∀ later : List Calls, (∀ calls ∈ later, Positive calls) →
    Fits next later → ∀ a ∈ announced, ∀ b ∈ responses next later, Disjoint a.range b.range

/-- The client of this iteration has not been answered; or the file is empty, and every announced
number is negative. -/
def Harmless (before : List Response) (m : Moment) : Prop :=
  if m.truncated then ∀ r ∈ before ++ m.response.toList, r.seqNum + r.request.seqLen.1 ≤ 0
  else m.response = none

/-- A backup file, and what has been announced up to now, through any number of crashes and
restarts. -/
inductive Lived : List UInt8 → List Response → Prop where
  | fresh (backup : List UInt8) : Lived backup []
  | crash {backup : List UInt8} {announced : List Response} {s last : Server} {run : List Calls}
      {calls : Calls} {m : Moment} : Lived backup announced → startup backup = some s →
      (∀ c ∈ run ++ [calls], Positive c) → Fits s (run ++ [calls]) → after s run = some last →
      m ∈ moments last calls → Harmless (announced ++ responses s run) m →
      Lived m.backup (announced ++ responses s run ++ m.response.toList)

def MomentOf (s : Server) (calls : Calls) (m : Moment) : Prop :=
  (m.truncated = false → m.backup = s.backup) ∧ (m.truncated = true → m.backup = []) ∧
    ∀ r, m.response = some r → calls.request = some r.request ∧ r.seqNum = s.seqNum

theorem moments_momentOf {s : Server} {calls : Calls} : ∀ m ∈ moments s calls, MomentOf s calls m := by
  have before (next : SystemCall) : MomentOf s calls ⟨next, none, s.backup, false⟩ := by
    simp [MomentOf]
  unfold moments
  split
  · simp [before]
  · cases read : calls.request with
    | none => simp [before]
    | some request =>
      have sent : ∀ r, (if writeResponse calls.writes 3 = .complete then
          some (Response.mk request s.seqNum) else none) = some r →
          calls.request = some r.request ∧ r.seqNum = s.seqNum := by
        intro r answered
        split at answered
        · obtain rfl := Option.some.inj answered
          exact ⟨read, rfl⟩
        · cases answered
      dsimp only
      generalize (if writeResponse calls.writes 3 = .complete then
        some (Response.mk request s.seqNum) else none) = response at sent ⊢
      have closing (next : SystemCall) : MomentOf s calls ⟨next, response, s.backup, false⟩ :=
        ⟨fun _ => rfl, fun h => absurd h Bool.false_ne_true, sent⟩
      have emptied (next : SystemCall) : MomentOf s calls ⟨next, response, [], true⟩ :=
        ⟨fun h => absurd h.symm Bool.false_ne_true, fun _ => rfl, sent⟩
      split_ifs <;> simp [before, closing, emptied]

/-- The server has its counter in the backup file, and all announced numbers are below it. -/
structure Counted (announced : List Response) (s : Server) : Prop where
  inRange : InRange s
  stored : startup s.backup = some s
  below : ∀ r ∈ announced, r.seqNum + r.request.seqLen.1 ≤ s.seqNum ∧ 0 < r.request.seqLen.1

theorem startup_counted {announced : List Response} {backup : List UInt8} {s : Server}
    (started : startup backup = some s)
    (below : ∀ r ∈ announced, r.seqNum + r.request.seqLen.1 ≤ s.seqNum ∧ 0 < r.request.seqLen.1) :
    Counted announced s := by
  refine ⟨startup_inRange started, ?_, below⟩
  rw [startup_backup started, started]

theorem iteration_counted {announced : List Response} {s : Server} {calls : Calls}
    (counted : Counted announced s) (positive : Positive calls)
    (fits : ∀ request, calls.request = some request → tooLarge s.seqNum request = false)
    (continues : (iteration s calls).continues = true) :
    Counted (announced ++ (iteration s calls).response.toList) (iteration s calls).server := by
  obtain ⟨inRange, advanced⟩ := iteration_inRange counted.inRange positive
  refine ⟨inRange, ?_, ?_⟩
  · have low := startup_low counted.stored
    exact iteration_saved counted.inRange (fun _ => counted.stored) continues (by omega)
  · intro r member
    rcases List.mem_append.mp member with old | new
    · obtain ⟨below, pos⟩ := counted.below r old
      exact ⟨by omega, pos⟩
    · rcases iteration_cases s calls with ⟨none, _, _⟩ | ⟨request, read, counter, sent⟩
      · rw [none] at new
        cases new
      · rw [sent] at new
        split at new
        · obtain rfl := List.mem_singleton.mp new
          rw [counter, fits request read]
          exact ⟨le_rfl, positive request read⟩
        · cases new

theorem after_counted {announced : List Response} {s last : Server} {run : List Calls}
    (counted : Counted announced s) (positive : ∀ c ∈ run, Positive c) (fits : Fits s run)
    (completed : after s run = some last) : Counted (announced ++ responses s run) last := by
  induction run generalizing announced s with
  | nil =>
    obtain rfl := Option.some.inj completed
    rw [responses, List.append_nil]
    exact counted
  | cons calls rest ih =>
    rw [after] at completed
    split at completed
    · rename_i continues
      obtain ⟨first, later⟩ := fits
      have step := iteration_counted counted (positive calls List.mem_cons_self) first continues
      have tail := ih step (fun c m => positive c (List.mem_cons_of_mem _ m)) (later continues) completed
      rw [responses, if_pos continues, ← List.append_assoc]
      exact tail
    · cases completed

theorem fits_append {s last : Server} {run : List Calls} {calls : Calls}
    (fits : Fits s (run ++ [calls])) (completed : after s run = some last) :
    Fits s run ∧ ∀ request, calls.request = some request → tooLarge last.seqNum request = false := by
  induction run generalizing s with
  | nil =>
    obtain rfl := Option.some.inj completed
    exact ⟨trivial, fits.1⟩
  | cons c rest ih =>
    rw [after] at completed
    split at completed
    · rename_i continues
      obtain ⟨first, later⟩ := fits
      obtain ⟨tail, final⟩ := ih (later continues) completed
      exact ⟨⟨first, fun _ => tail⟩, final⟩
    · cases completed

theorem harmless_counted {before : List Response} {s next : Server} {calls : Calls} {m : Moment}
    (counted : Counted before s) (positive : Positive calls) (crash : m ∈ moments s calls)
    (harmless : Harmless before m) (started : startup m.backup = some next) :
    Counted (before ++ m.response.toList) next := by
  obtain ⟨kept, emptied, sent⟩ := moments_momentOf m crash
  apply startup_counted started
  unfold Harmless at harmless
  cases truncated : m.truncated with
  | false =>
    rw [truncated, if_neg Bool.false_ne_true] at harmless
    rw [kept truncated, counted.stored] at started
    obtain rfl := Option.some.inj started
    rw [harmless, Option.toList_none, List.append_nil]
    exact counted.below
  | true =>
    rw [truncated, if_pos rfl] at harmless
    rw [emptied truncated] at started
    obtain rfl := Option.some.inj started
    intro r member
    refine ⟨harmless r member, ?_⟩
    rcases List.mem_append.mp member with old | new
    · exact (counted.below r old).2
    · obtain ⟨read, _⟩ := sent r (Option.mem_toList.mp new)
      exact positive r.request read

theorem lived_counted {backup : List UInt8} {announced : List Response} {s : Server}
    (lived : Lived backup announced) (started : startup backup = some s) : Counted announced s := by
  induction lived generalizing s with
  | fresh backup => exact startup_counted started (fun r member => by cases member)
  | crash _ first positive fits completed crash harmless ih =>
    have counted := after_counted (ih first)
      (fun c m => positive c (List.mem_append_left _ m)) (fits_append fits completed).1 completed
    exact harmless_counted counted (positive _ (List.mem_append_right _ List.mem_cons_self)) crash
      harmless started

theorem counted_neverAgain {announced : List Response} {s : Server} {later : List Calls}
    (counted : Counted announced s) (positive : ∀ calls ∈ later, Positive calls) :
    ∀ a ∈ announced, ∀ b ∈ responses s later, Disjoint a.range b.range := by
  intro a old b new
  obtain ⟨below, posA⟩ := counted.below a old
  obtain ⟨above, _, posB⟩ := responses_above counted.inRange positive new
  exact (disjoint_iff posB (by omega)).mpr (by omega)

theorem served_positive {seqLen : CInt} (pos : 0 < seqLen.1) : Positive (served seqLen) := by
  intro request read
  obtain rfl := Option.some.inj read
  exact pos

theorem responses_served (s : Server) (seqLen : CInt) :
    responses s [served seqLen] = [⟨⟨⟨1, by decide⟩, seqLen⟩, s.seqNum⟩] := by
  simp [responses, iteration, served, writeResponse]

theorem not_neverAgain {announced : List Response} {backup : List UInt8} {s : Server} {a : Response}
    {x : Int} (started : startup backup = some s) (member : a ∈ announced) (number : x ∈ a.range)
    (above : s.seqNum ≤ x) (small : x < MAX_SIZE) : ¬ NeverAgain announced backup := by
  intro never
  obtain ⟨low, _⟩ := startup_inRange started
  unfold MAX_SIZE at low small
  have int : INT_MIN ≤ x + 1 - s.seqNum ∧ x + 1 - s.seqNum ≤ INT_MAX := by
    unfold INT_MIN INT_MAX
    omega
  have pos : 0 < x + 1 - s.seqNum := by omega
  have fits : Fits s [served ⟨x + 1 - s.seqNum, int⟩] := by
    refine ⟨?_, fun _ => trivial⟩
    intro request read
    obtain rfl := Option.some.inj read
    rw [← Bool.not_eq_true, tooLarge_iff (startup_inRange started).1 pos]
    unfold MAX_SIZE
    dsimp only
    omega
  have apart := never s started [served ⟨x + 1 - s.seqNum, int⟩]
    (fun c m => by rw [List.mem_singleton.mp m]; exact served_positive pos) fits a member _
    (by rw [responses_served]; exact List.mem_cons_self)
  refine Set.disjoint_left.mp apart number ⟨above, ?_⟩
  dsimp only
  omega

theorem announced_bounded {before : List Response} {s : Server} {calls : Calls} {m : Moment}
    (counted : Counted before s) (positive : Positive calls)
    (fits : ∀ request, calls.request = some request → tooLarge s.seqNum request = false)
    (crash : m ∈ moments s calls) : ∀ r ∈ before ++ m.response.toList,
      0 < r.request.seqLen.1 ∧ r.seqNum + r.request.seqLen.1 ≤ MAX_SIZE := by
  obtain ⟨_, _, sent⟩ := moments_momentOf m crash
  intro r member
  rcases List.mem_append.mp member with old | new
  · obtain ⟨below, pos⟩ := counted.below r old
    have high := counted.inRange.2
    exact ⟨pos, by omega⟩
  · obtain ⟨read, current⟩ := sent r (Option.mem_toList.mp new)
    have pos := positive r.request read
    have small := fits r.request read
    rw [← Bool.not_eq_true, tooLarge_iff counted.inRange.1 pos] at small
    exact ⟨pos, by omega⟩

/-- A restart from the file of a crash that is not harmless announces a number once more. -/
theorem harmless_of_neverAgain {before : List Response} {s : Server} {calls : Calls} {m : Moment}
    (counted : Counted before s) (crash : m ∈ moments s calls)
    (bounded : ∀ r ∈ before ++ m.response.toList,
      0 < r.request.seqLen.1 ∧ r.seqNum + r.request.seqLen.1 ≤ MAX_SIZE)
    (never : NeverAgain (before ++ m.response.toList) m.backup) : Harmless before m := by
  obtain ⟨kept, emptied, sent⟩ := moments_momentOf m crash
  unfold Harmless
  cases truncated : m.truncated with
  | false =>
    rw [if_neg Bool.false_ne_true]
    cases response : m.response with
    | none => rfl
    | some r =>
      have member : r ∈ before ++ m.response.toList := by simp [response]
      obtain ⟨_, current⟩ := sent r response
      obtain ⟨pos, high⟩ := bounded r member
      have again : startup m.backup = some s := by rw [kept truncated, counted.stored]
      exact absurd never (not_neverAgain again member (x := r.seqNum) ⟨le_rfl, by omega⟩
        (by omega) (by omega))
  | true =>
    rw [if_pos rfl]
    intro r member
    by_contra positiveNumber
    obtain ⟨pos, high⟩ := bounded r member
    have again : startup m.backup = some ⟨0, []⟩ := by rw [emptied truncated]; rfl
    exact absurd never (not_neverAgain again member (x := r.seqNum + r.request.seqLen.1 - 1)
      ⟨by omega, by omega⟩ (by dsimp only; omega) (by omega))

/-- No number is announced again after a crash, whatever is asked then, exactly when the crash is
harmless. The crashes before it have been harmless. -/
theorem neverAgain_iff_harmless {backup : List UInt8} {announced : List Response} {s last : Server}
    {run : List Calls} {calls : Calls} {m : Moment} (lived : Lived backup announced)
    (started : startup backup = some s) (positive : ∀ c ∈ run ++ [calls], Positive c)
    (fits : Fits s (run ++ [calls])) (completed : after s run = some last)
    (crash : m ∈ moments last calls) :
    NeverAgain (announced ++ responses s run ++ m.response.toList) m.backup ↔
      Harmless (announced ++ responses s run) m := by
  have positiveLast := positive calls (List.mem_append_right _ List.mem_cons_self)
  obtain ⟨fitsRun, fitsLast⟩ := fits_append fits completed
  have counted := after_counted (lived_counted lived started)
    (fun c m => positive c (List.mem_append_left _ m)) fitsRun completed
  generalize announced ++ responses s run = before at counted ⊢
  constructor
  · intro never
    exact harmless_of_neverAgain counted crash
      (announced_bounded counted positiveLast fitsLast crash) never
  · intro harmless next again later positiveLater _
    have above := harmless_counted counted positiveLast crash harmless again
    exact counted_neverAgain above positiveLater

theorem neverAgain_iff_harmless_sample :
    NeverAgain (responses ⟨0, []⟩ [served ⟨10, by decide⟩]) (seqNumText 10) := by
  have fits : Fits ⟨0, []⟩ ([served ⟨10, by decide⟩] ++ [served ⟨5, by decide⟩]) := by
    refine ⟨?_, fun _ => ⟨?_, fun _ => trivial⟩⟩
    · intro request read
      obtain rfl := Option.some.inj read
      decide
    · intro request read
      obtain rfl := Option.some.inj read
      decide
  have positive : ∀ c ∈ [served ⟨10, by decide⟩] ++ [served ⟨5, by decide⟩], Positive c := by
    intro c member
    simp only [List.cons_append, List.nil_append, List.mem_cons, List.not_mem_nil, or_false] at member
    rcases member with rfl | rfl
    · exact served_positive (by decide)
    · exact served_positive (by decide)
  have crash : ⟨.read, none, seqNumText 10, false⟩ ∈
      moments ⟨10, seqNumText 10⟩ (served ⟨5, by decide⟩) := List.mem_cons_self
  have never := (neverAgain_iff_harmless (Lived.fresh []) (s := ⟨0, []⟩) rfl positive fits rfl crash).mpr rfl
  simpa using never

/-- A crash after the client has been told 0, and before the file is written. -/
theorem crash_announces_again :
    ¬ ∀ (backup : List UInt8) (s last : Server) (run : List Calls) (calls : Calls) (m : Moment),
      startup backup = some s → (∀ c ∈ run ++ [calls], Positive c) → Fits s (run ++ [calls]) →
      after s run = some last → m ∈ moments last calls →
      NeverAgain (responses s run ++ m.response.toList) m.backup := by
  intro all
  have fits : Fits ⟨0, []⟩ [served ⟨10, by decide⟩] := by
    refine ⟨?_, fun _ => trivial⟩
    intro request read
    obtain rfl := Option.some.inj read
    decide
  have positive : ∀ c ∈ [served ⟨10, by decide⟩], Positive c := by
    intro c member
    rw [List.mem_singleton.mp member]
    exact served_positive (by decide)
  have crash : Moment.mk .ftruncate (some ⟨⟨⟨1, by decide⟩, ⟨10, by decide⟩⟩, 0⟩) [] false ∈
      moments ⟨0, []⟩ (served ⟨10, by decide⟩) := by
    simp [moments, served, writeResponse]
  have never := all [] ⟨0, []⟩ ⟨0, []⟩ [] (served ⟨10, by decide⟩) _ rfl positive fits rfl crash
  exact not_neverAgain (s := ⟨0, []⟩) rfl List.mem_cons_self (x := 0) ⟨le_rfl, by decide⟩ le_rfl
    (by decide) never

end Tlpi.SeqnumFifo
