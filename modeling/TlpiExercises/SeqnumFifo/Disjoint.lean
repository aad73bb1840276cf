import TlpiExercises.SeqnumFifo.Server

/-!
# The announced ranges

The response goes out before the request is found too large, and the counter stays where it was;
the next response then starts inside the range already announced.
-/

namespace Tlpi.SeqnumFifo

/-- The numbers that a response announces to its client. -/
def Response.range (r : Response) : Set Int := Set.Ico r.seqNum (r.seqNum + r.request.seqLen.1)

def PairwiseDisjoint (announced : List Response) : Prop :=
  announced.Pairwise (fun a b => Disjoint a.range b.range)

def Calls.answers (calls : Calls) : Bool :=
  !calls.stopRequested && calls.request.isSome && calls.openDummy && calls.openClient &&
    writeResponse calls.writes 3 = .complete

def Silent : Server → List Calls → Prop
  | _, [] => True
  | s, calls :: rest => calls.answers = false ∧
      ((iteration s calls).continues = true → Silent (iteration s calls).server rest)

/-- A client whose request is too large is answered only if none is answered after it. -/
def LargeLast : Server → List Calls → Prop
  | _, [] => True
  | s, calls :: rest => (iteration s calls).continues = true →
      LargeLast (iteration s calls).server rest ∧
      (calls.answers = true → (∃ request, calls.request = some request ∧
        tooLarge s.seqNum request = true) → Silent (iteration s calls).server rest)

def Positive (calls : Calls) : Prop := ∀ request, calls.request = some request → 0 < request.seqLen.1

def InRange (s : Server) : Prop := -MAX_SIZE ≤ s.seqNum ∧ s.seqNum ≤ MAX_SIZE

theorem startup_inRange {backup : List UInt8} {s : Server} (h : startup backup = some s) :
    InRange s := by
  unfold startup at h
  simp only at h
  split at h
  · split at h
    · cases h
    · rename_i seqNum parsed
      obtain rfl := Option.some.inj h
      have short : (cString (backup.take MAX_DIGITS)).length ≤ 9 := by
        have whole := (List.takeWhile_sublist (l := backup.take MAX_DIGITS) (· ≠ 0)).length_le
        have nine : (backup.take MAX_DIGITS).length ≤ MAX_DIGITS := List.length_take_le _ _
        unfold cString
        unfold MAX_DIGITS at whole nine ⊢
        omega
      exact Utils.getNum_short short parsed
  · obtain rfl := Option.some.inj h
    show -MAX_SIZE ≤ 0 ∧ 0 ≤ MAX_SIZE
    decide

theorem iteration_cases (s : Server) (calls : Calls) :
    ((iteration s calls).response = none ∧ (iteration s calls).server = s ∧ calls.answers = false) ∨
      ∃ request, calls.request = some request ∧
        (iteration s calls).server.seqNum =
          (if tooLarge s.seqNum request then s.seqNum else s.seqNum + request.seqLen.1) ∧
        (iteration s calls).response =
          if calls.answers then some { request, seqNum := s.seqNum } else none := by
  unfold iteration
  by_cases stopped : calls.stopRequested = true
  · refine Or.inl ⟨by rw [if_pos stopped], by rw [if_pos stopped], by simp [Calls.answers, stopped]⟩
  · rw [if_neg stopped]
    cases read : calls.request with
    | none => exact Or.inl ⟨rfl, rfl, by simp [Calls.answers, read]⟩
    | some request =>
      dsimp only
      by_cases dummy : calls.openDummy = true
      · by_cases client : calls.openClient = true
        · rw [if_neg (not_not.mpr dummy), if_neg (not_not.mpr client)]
          refine Or.inr ⟨request, rfl, ?_, ?_⟩
          · split_ifs <;> rfl
          · have answers : calls.answers = decide (writeResponse calls.writes 3 = .complete) := by
              simp [Calls.answers, stopped, read, dummy, client]
            rw [answers]
            by_cases complete : writeResponse calls.writes 3 = .complete
            · simp only [complete, if_true, decide_true]
              split_ifs <;> rfl
            · simp only [complete, if_false, decide_false, Bool.false_eq_true]
              split_ifs <;> rfl
        · rw [if_neg (not_not.mpr dummy), if_pos client]
          exact Or.inl ⟨rfl, rfl, by simp [Calls.answers, client]⟩
      · rw [if_pos dummy]
        exact Or.inl ⟨rfl, rfl, by simp [Calls.answers, dummy]⟩

theorem iteration_keeps_range {s : Server} {calls : Calls} (inRange : InRange s) :
    InRange (iteration s calls).server := by
  rcases iteration_cases s calls with ⟨_, same, _⟩ | ⟨request, _, counter, _⟩
  · rw [same]
    exact inRange
  · unfold InRange
    rw [counter]
    split
    · exact inRange
    · rename_i small
      unfold tooLarge at small
      rw [Bool.or_eq_true, decide_eq_true_eq, decide_eq_true_eq] at small
      omega

theorem tooLarge_iff {seqNum : Int} {request : Request} (low : -MAX_SIZE ≤ seqNum)
    (positive : 0 < request.seqLen.1) :
    tooLarge seqNum request = true ↔ MAX_SIZE < seqNum + request.seqLen.1 := by
  unfold tooLarge
  rw [Bool.or_eq_true, decide_eq_true_eq, decide_eq_true_eq]
  omega

theorem iteration_inRange {s : Server} {calls : Calls} (inRange : InRange s)
    (positive : Positive calls) :
    InRange (iteration s calls).server ∧ s.seqNum ≤ (iteration s calls).server.seqNum := by
  refine ⟨iteration_keeps_range inRange, ?_⟩
  rcases iteration_cases s calls with ⟨_, same, _⟩ | ⟨request, read, counter, _⟩
  · rw [same]
  · have pos := positive request read
    rw [counter]
    split
    · exact le_rfl
    · omega

/-- Later ranges start at the counter or above, and below the limit. -/
theorem responses_above {s : Server} {run : List Calls} (inRange : InRange s)
    (positive : ∀ calls ∈ run, Positive calls) {r : Response} (member : r ∈ responses s run) :
    s.seqNum ≤ r.seqNum ∧ r.seqNum ≤ MAX_SIZE ∧ 0 < r.request.seqLen.1 := by
  induction run generalizing s with
  | nil => cases member
  | cons calls rest ih =>
    obtain ⟨inRange', above⟩ := iteration_inRange inRange (positive calls List.mem_cons_self)
    rw [responses, List.mem_append] at member
    rcases member with first | later
    · rcases iteration_cases s calls with ⟨none, _, _⟩ | ⟨request, read, _, sent⟩
      · rw [none] at first
        cases first
      · rw [sent] at first
        split at first
        · obtain rfl := List.mem_singleton.mp first
          exact ⟨le_rfl, inRange.2, positive calls List.mem_cons_self request read⟩
        · cases first
    · split at later
      · obtain ⟨low, high⟩ := ih inRange' (fun c m => positive c (List.mem_cons_of_mem _ m)) later
        exact ⟨above.trans low, high⟩
      · cases later

theorem silent_iff (s : Server) (run : List Calls) : Silent s run ↔ responses s run = [] := by
  induction run generalizing s with
  | nil => exact ⟨fun _ => rfl, fun _ => trivial⟩
  | cons calls rest ih =>
    rw [Silent, responses, List.append_eq_nil_iff]
    have first : calls.answers = false ↔ (iteration s calls).response.toList = [] := by
      rcases iteration_cases s calls with ⟨none, _, silent⟩ | ⟨request, _, _, sent⟩
      · rw [none, silent]
        simp
      · rw [sent]
        cases calls.answers <;> simp
    rw [first]
    apply and_congr Iff.rfl
    cases (iteration s calls).continues with
    | true => simpa using ih _
    | false => simp

theorem disjoint_iff {a b : Response} (positive : 0 < b.request.seqLen.1)
    (order : a.seqNum ≤ b.seqNum) :
    Disjoint a.range b.range ↔ a.seqNum + a.request.seqLen.1 ≤ b.seqNum := by
  unfold Response.range
  rw [Set.Ico_disjoint_Ico]
  omega

theorem first_disjoint_iff {s : Server} {calls : Calls} {rest : List Calls} {request : Request}
    (inRange : InRange s) (positive : ∀ c ∈ calls :: rest, Positive c)
    (read : calls.request = some request)
    (counter : (iteration s calls).server.seqNum =
      if tooLarge s.seqNum request then s.seqNum else s.seqNum + request.seqLen.1) :
    (∀ r ∈ responses (iteration s calls).server rest,
        Disjoint (Response.range { request, seqNum := s.seqNum }) r.range) ↔
      (tooLarge s.seqNum request = true → Silent (iteration s calls).server rest) := by
  have pos := positive calls List.mem_cons_self request read
  obtain ⟨inRange', _⟩ := iteration_inRange inRange (positive calls List.mem_cons_self)
  have later {r : Response} (member : r ∈ responses (iteration s calls).server rest) :=
    responses_above inRange' (fun c m => positive c (List.mem_cons_of_mem _ m)) member
  cases large : tooLarge s.seqNum request with
  | false =>
    rw [large] at counter
    refine ⟨fun _ h => by simp at h, fun _ r member => ?_⟩
    obtain ⟨low, _, posR⟩ := later member
    rw [counter] at low
    simp only [Bool.false_eq_true, if_false] at low
    exact (disjoint_iff posR (by dsimp only; omega)).mpr low
  | true =>
    rw [large] at counter
    have beyond := (tooLarge_iff inRange.1 pos).mp large
    rw [silent_iff]
    constructor
    · intro apart _
      apply List.eq_nil_iff_forall_not_mem.mpr
      intro r member
      obtain ⟨low, high, posR⟩ := later member
      rw [counter] at low
      have after := (disjoint_iff posR low).mp (apart r member)
      dsimp only at after
      omega
    · intro silent r member
      rw [silent rfl] at member
      cases member

theorem responses_disjoint_iff {s : Server} {run : List Calls} (inRange : InRange s)
    (positive : ∀ calls ∈ run, Positive calls) :
    PairwiseDisjoint (responses s run) ↔ LargeLast s run := by
  unfold PairwiseDisjoint
  induction run generalizing s with
  | nil => exact ⟨fun _ => trivial, fun _ => List.Pairwise.nil⟩
  | cons calls rest ih =>
    obtain ⟨inRange', _⟩ := iteration_inRange inRange (positive calls List.mem_cons_self)
    have tail := ih inRange' (fun c m => positive c (List.mem_cons_of_mem _ m))
    rw [responses, LargeLast]
    cases (iteration s calls).continues with
    | false =>
      simp only [Bool.false_eq_true, if_false, List.append_nil, false_implies, iff_true]
      cases (iteration s calls).response with
      | none => exact List.Pairwise.nil
      | some r => exact List.pairwise_singleton _ _
    | true =>
      simp only [if_true, true_implies]
      rcases iteration_cases s calls with ⟨none, _, silent⟩ | ⟨request, read, counter, sent⟩
      · rw [none, silent]
        simpa using tail
      · rw [sent, read]
        cases calls.answers with
        | false => simpa using tail
        | true =>
          have first := first_disjoint_iff inRange positive read counter
          simp only [if_true, Option.toList_some, List.singleton_append, List.pairwise_cons, tail,
            Option.some.injEq, exists_eq_left', true_implies, first]
          exact and_comm

/-- In a run from any backup file, no number is announced twice exactly when no client is answered
after one whose request was too large. -/
theorem announced_disjoint_iff {backup : List UInt8} {s : Server} {run : List Calls}
    (started : startup backup = some s) (positive : ∀ calls ∈ run, Positive calls) :
    PairwiseDisjoint (responses s run) ↔ LargeLast s run :=
  responses_disjoint_iff (startup_inRange started) positive

def served (seqLen : CInt) : Calls where
  stopRequested := false
  request := some { pid := ⟨1, by decide⟩, seqLen }
  openDummy := true
  openClient := true
  writes := fun _ => .complete
  ftruncate := true
  lseek := true
  writeBackup := true

theorem announced_disjoint_iff_sample :
    PairwiseDisjoint (responses ⟨0, []⟩ [served ⟨10, by decide⟩, served ⟨5, by decide⟩]) := by
  have started : startup [] = some ⟨0, []⟩ := rfl
  refine (announced_disjoint_iff started ?_).mpr ?_
  · intro calls member request read
    simp only [List.mem_cons, List.not_mem_nil, or_false] at member
    rcases member with rfl | rfl
    · obtain rfl := Option.some.inj read
      decide
    · obtain rfl := Option.some.inj read
      decide
  · have small : tooLarge 0 ⟨⟨1, by decide⟩, ⟨10, by decide⟩⟩ = false := by decide
    simp [LargeLast, iteration, served, writeResponse, small, Silent, Calls.answers]

/-- A request for a thousand million numbers, twice. -/
theorem large_announced_twice :
    ¬ ∀ (backup : List UInt8) (s : Server) (run : List Calls), startup backup = some s →
      (∀ calls ∈ run, Positive calls) → PairwiseDisjoint (responses s run) := by
  intro all
  have apart := all [] ⟨0, []⟩ [served ⟨1000000000, by decide⟩, served ⟨1000000000, by decide⟩] rfl
    (by
      intro calls member request read
      simp only [List.mem_cons, List.not_mem_nil, or_false, or_self] at member
      subst member
      obtain rfl := Option.some.inj read
      decide)
  have twice : responses ⟨0, []⟩ [served ⟨1000000000, by decide⟩, served ⟨1000000000, by decide⟩] =
      [⟨⟨⟨1, by decide⟩, ⟨1000000000, by decide⟩⟩, 0⟩,
        ⟨⟨⟨1, by decide⟩, ⟨1000000000, by decide⟩⟩, 0⟩] := rfl
  rw [PairwiseDisjoint, twice, List.pairwise_pair] at apart
  have start : (0 : Int) ∈ Set.Ico (0 : Int) (0 + 1000000000) := ⟨le_rfl, by decide⟩
  exact Set.disjoint_left.mp apart start start

end Tlpi.SeqnumFifo
