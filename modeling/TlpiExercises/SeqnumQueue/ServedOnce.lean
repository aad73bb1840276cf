import TlpiExercises.SeqnumQueue.Server

/-!
# What the clients are told

A turn whose receive fails can answer the client of an earlier request once more, and moves the
counter by that request again.
-/

namespace Tlpi.SeqnumQueue

def announced (ts : List Turn) : List Response := ts.filterMap (·.result.response)

def Turn.advances (t : Turn) : Bool := t.result.server.seqVal ≠ t.before.seqVal

/-- The request behind each turn with an effect, as its number among the received requests. -/
def causes (effect : Turn → Bool) (received : Nat) : List Turn → List Nat
  | [] => []
  | t :: rest =>
    let received := if t.calls.request.isSome then received + 1 else received
    (if effect t then [received] else []) ++ causes effect received rest

structure ServedOnce (ts : List Turn) : Prop where
  failedReceive : ∀ t ∈ ts, t.calls.request = none →
    t.result.response = none ∧ t.result.server.seqVal = t.before.seqVal
  amount : ∀ t ∈ ts, ∀ request, t.calls.request = some request →
    t.result.server.seqVal = t.before.seqVal ∨
      t.result.server.seqVal = toInt (t.before.seqVal + request.seqVal.1)
  respondsOnce : (causes (·.result.response.isSome) 0 ts).Nodup
  advancesOnce : (causes Turn.advances 0 ts).Nodup

def Response.range (r : Response) : Set Int := Set.Ico r.seqNum (r.seqNum + r.request.seqVal.1)

def PairwiseDisjoint (announced : List Response) : Prop :=
  announced.Pairwise (fun a b => Disjoint a.range b.range)

/-- A receive that fails ends the loop, or the rest of the iteration has no effect. -/
def Turn.Fresh (t : Turn) : Prop :=
  t.calls.request = none →
    t.calls.quitReceive = true ∨ t.calls.mqOpen = false ∨
      t.calls.mqSend = false ∧ (t.calls.quitSend = true ∨ t.before.req.seqVal.1 = 0)

/-- With a request received, the turn gets as far as `seq_val += req.seq_val`. -/
def Turn.Adds (t : Turn) : Prop :=
  t.calls.mqOpen = true ∧ ¬ (t.calls.mqSend = false ∧ t.calls.quitSend = true)

def Turn.Positive (t : Turn) : Prop :=
  t.Adds → ∀ request, t.calls.request = some request → 0 < request.seqVal.1

def Turn.InInt (t : Turn) : Prop :=
  t.Adds → ∀ request, t.calls.request = some request →
    t.before.seqVal + request.seqVal.1 ≤ INT_MAX

theorem iteration_cases (s : Server) (calls : Calls) :
    ((iteration s calls).response = none ∧ (iteration s calls).server.seqVal = s.seqVal ∧
      (calls.request = none ∧ calls.quitReceive = true ∨ calls.mqOpen = false ∨
        calls.mqSend = false ∧ calls.quitSend = true)) ∨
    ((iteration s calls).server.seqVal = toInt (s.seqVal + (calls.request.getD s.req).seqVal.1) ∧
      (iteration s calls).response =
        (if calls.mqSend then some ⟨calls.request.getD s.req, s.seqVal⟩ else none) ∧
      ¬ (calls.request = none ∧ calls.quitReceive = true) ∧ calls.mqOpen = true ∧
      ¬ (calls.mqSend = false ∧ calls.quitSend = true)) := by
  unfold iteration
  dsimp only
  by_cases quit : ¬ calls.request.isSome = true ∧ calls.quitReceive = true
  · rw [if_pos quit]
    exact Or.inl ⟨rfl, rfl, Or.inl (by simpa using quit)⟩
  · rw [if_neg quit]
    by_cases opened : calls.mqOpen = true
    · rw [if_neg (not_not.mpr opened)]
      by_cases unsent : ¬ calls.mqSend = true ∧ calls.quitSend = true
      · rw [if_pos unsent]
        exact Or.inl ⟨rfl, rfl, Or.inr (Or.inr (by simpa using unsent))⟩
      · rw [if_neg unsent]
        exact Or.inr ⟨rfl, rfl, by simpa using quit, opened, by simpa using unsent⟩
    · rw [if_pos opened]
      exact Or.inl ⟨rfl, rfl, Or.inr (Or.inl (by simpa using opened))⟩

theorem iteration_inInt {s : Server} {calls : Calls}
    (int : INT_MIN ≤ s.seqVal ∧ s.seqVal ≤ INT_MAX) :
    INT_MIN ≤ (iteration s calls).server.seqVal ∧ (iteration s calls).server.seqVal ≤ INT_MAX := by
  rcases iteration_cases s calls with ⟨_, same, _⟩ | ⟨advanced, _⟩
  · rw [same]
    exact int
  · rw [advanced]
    exact toInt_range _

theorem toInt_add_eq {n : Int} (int : INT_MIN ≤ n ∧ n ≤ INT_MAX) (v : CInt) :
    toInt (n + v.1) = n ↔ v.1 = 0 := by
  constructor
  · intro same
    obtain ⟨low, high⟩ := v.2
    unfold INT_MIN at low
    unfold INT_MAX at high
    have congruent := toInt_emod (n + v.1)
    rw [same] at congruent
    omega
  · intro zero
    rw [zero, Int.add_zero]
    exact toInt_small int.1 int.2

theorem turn_fresh_iff {t : Turn} (int : INT_MIN ≤ t.before.seqVal ∧ t.before.seqVal ≤ INT_MAX)
    (failed : t.calls.request = none) :
    (t.result.response = none ∧ t.result.server.seqVal = t.before.seqVal) ↔ t.Fresh := by
  unfold Turn.Fresh Turn.result
  rcases iteration_cases t.before t.calls with ⟨none, same, quiet⟩ | ⟨advanced, sent, quit, opened, unsent⟩
  · refine iff_of_true ⟨none, same⟩ fun _ => ?_
    rcases quiet with ⟨_, quit⟩ | opened | ⟨unsent, quit⟩
    · exact Or.inl quit
    · exact Or.inr (Or.inl opened)
    · exact Or.inr (Or.inr ⟨unsent, Or.inl quit⟩)
  · rw [advanced, sent, failed, Option.getD_none, toInt_add_eq int]
    have running : t.calls.quitReceive = false := by simpa [failed] using quit
    cases send : t.calls.mqSend with
    | true => simp [running, opened]
    | false =>
      have going : t.calls.quitSend = false := by simpa [send] using unsent
      simp [running, opened, going]

theorem turns_inInt {s : Server} {run : List Calls} (int : INT_MIN ≤ s.seqVal ∧ s.seqVal ≤ INT_MAX) :
    ∀ t ∈ turns s run, INT_MIN ≤ t.before.seqVal ∧ t.before.seqVal ≤ INT_MAX := by
  induction run generalizing s with
  | nil => exact fun t member => by cases member
  | cons calls rest ih =>
    intro t member
    rw [turns] at member
    rcases List.mem_cons.mp member with rfl | later
    · exact int
    · split at later
      · exact ih (iteration_inInt int) t later
      · cases later

/-- An effect that needs a receive of its own has a new cause each time. -/
theorem causes_nodup {effect : Turn → Bool} {ts : List Turn}
    (own : ∀ t ∈ ts, t.calls.request = none → effect t = false) (received : Nat) :
    (∀ n ∈ causes effect received ts, received < n) ∧ (causes effect received ts).Nodup := by
  induction ts generalizing received with
  | nil => exact ⟨by simp [causes], List.nodup_nil⟩
  | cons t rest ih =>
    have later := ih (fun t member => own t (List.mem_cons_of_mem _ member))
    rw [causes]
    cases request : t.calls.request with
    | none =>
      rw [own t List.mem_cons_self request]
      exact later received
    | some _ =>
      obtain ⟨above, nodup⟩ := later (received + 1)
      simp only [Option.isSome_some, if_true]
      cases effect t with
      | false =>
        exact ⟨fun n member => Nat.lt_of_succ_lt (above n member), nodup⟩
      | true =>
        refine ⟨?_, List.nodup_cons.mpr ⟨fun again => ?_, nodup⟩⟩
        · intro n member
          rcases List.mem_cons.mp member with rfl | member
          · exact Nat.lt_succ_self _
          · exact Nat.lt_of_succ_lt (above n member)
        · exact absurd (above _ again) (Nat.lt_irrefl _)

theorem servedOnce_iff {ts : List Turn}
    (int : ∀ t ∈ ts, INT_MIN ≤ t.before.seqVal ∧ t.before.seqVal ≤ INT_MAX) :
    ServedOnce ts ↔ ∀ t ∈ ts, t.Fresh := by
  constructor
  · intro served t member failed
    exact (turn_fresh_iff (int t member) failed).mp (served.failedReceive t member failed) failed
  · intro fresh
    have quiet : ∀ t ∈ ts, t.calls.request = none →
        t.result.response = none ∧ t.result.server.seqVal = t.before.seqVal :=
      fun t member failed => (turn_fresh_iff (int t member) failed).mpr (fresh t member)
    refine ⟨quiet, ?_, ?_, ?_⟩
    · intro t _ request received
      rcases iteration_cases t.before t.calls with ⟨_, same, _⟩ | ⟨advanced, _⟩
      · exact Or.inl same
      · rw [received, Option.getD_some] at advanced
        exact Or.inr advanced
    · apply (causes_nodup _ 0).2
      intro t member failed
      rw [(quiet t member failed).1, Option.isSome_none]
    · apply (causes_nodup _ 0).2
      intro t member failed
      exact decide_eq_false (not_not.mpr (quiet t member failed).2)

theorem turn_counts {t : Turn} (int : INT_MIN ≤ t.before.seqVal ∧ t.before.seqVal ≤ INT_MAX)
    (fresh : t.Fresh) (positive : t.Positive) (inInt : t.InInt) :
    t.before.seqVal ≤ t.result.server.seqVal ∧
      ∀ r, t.result.response = some r → r.seqNum = t.before.seqVal ∧ 0 < r.request.seqVal.1 ∧
        t.result.server.seqVal = t.before.seqVal + r.request.seqVal.1 := by
  cases request : t.calls.request with
  | none =>
    obtain ⟨none, same⟩ := (turn_fresh_iff int request).mpr fresh
    rw [none, same]
    exact ⟨le_rfl, fun r answered => absurd answered (by simp)⟩
  | some request' =>
    unfold Turn.result
    rcases iteration_cases t.before t.calls with ⟨none, same, _⟩ | ⟨advanced, sent, _, opened, unsent⟩
    · rw [none, same]
      exact ⟨le_rfl, fun r answered => absurd answered (by simp)⟩
    · have pos := positive ⟨opened, unsent⟩ request' request
      have small := inInt ⟨opened, unsent⟩ request' request
      rw [request, Option.getD_some, toInt_small (by omega) small] at advanced
      rw [sent, advanced, request, Option.getD_some]
      refine ⟨by omega, fun r answered => ?_⟩
      split at answered
      · obtain rfl := Option.some.inj answered
        exact ⟨rfl, pos, rfl⟩
      · cases answered

theorem announced_cons (t : Turn) (ts : List Turn) :
    announced (t :: ts) = t.result.response.toList ++ announced ts := by
  unfold announced
  rw [List.filterMap_cons]
  cases t.result.response <;> rfl

theorem announced_disjoint {s : Server} {run : List Calls}
    (int : INT_MIN ≤ s.seqVal ∧ s.seqVal ≤ INT_MAX) (fresh : ∀ t ∈ turns s run, t.Fresh)
    (positive : ∀ t ∈ turns s run, t.Positive) (inInt : ∀ t ∈ turns s run, t.InInt) :
    (∀ r ∈ announced (turns s run), s.seqVal ≤ r.seqNum) ∧
      PairwiseDisjoint (announced (turns s run)) := by
  induction run generalizing s with
  | nil => exact ⟨by simp [announced, turns], List.Pairwise.nil⟩
  | cons calls rest ih =>
    rw [turns] at fresh positive inInt ⊢
    rw [announced_cons]
    obtain ⟨up, first⟩ := turn_counts int (fresh _ List.mem_cons_self)
      (positive _ List.mem_cons_self) (inInt _ List.mem_cons_self)
    generalize later : (if (iteration s calls).continues then turns (iteration s calls).server rest
      else []) = ts at fresh positive inInt ⊢
    have tail : (∀ r ∈ announced ts, (iteration s calls).server.seqVal ≤ r.seqNum) ∧
        PairwiseDisjoint (announced ts) := by
      cases continues : (iteration s calls).continues with
      | false =>
        rw [continues] at later
        obtain rfl := later
        exact ⟨by simp [announced], List.Pairwise.nil⟩
      | true =>
        rw [continues] at later
        obtain rfl := later
        exact ih (iteration_inInt int) (fun t m => fresh t (List.mem_cons_of_mem _ m))
          (fun t m => positive t (List.mem_cons_of_mem _ m))
          (fun t m => inInt t (List.mem_cons_of_mem _ m))
    obtain ⟨above, disjoint⟩ := tail
    change s.seqVal ≤ (iteration s calls).server.seqVal at up
    cases response : Turn.result ⟨s, calls⟩ |>.response with
    | none => exact ⟨fun r member => up.trans (above r member), disjoint⟩
    | some r =>
      obtain ⟨start, _, next⟩ := first r response
      change r.seqNum = s.seqVal at start
      change (iteration s calls).server.seqVal = s.seqVal + r.request.seqVal.1 at next
      refine ⟨?_, List.pairwise_cons.mpr ⟨?_, disjoint⟩⟩
      · intro r' member
        rcases List.mem_cons.mp member with rfl | member
        · exact start.ge
        · exact up.trans (above r' member)
      · intro r' member
        have after := above r' member
        unfold Response.range
        rw [Set.Ico_disjoint_Ico]
        omega

/-- In a run each request is served once at most exactly when no turn goes on with an old one. The
announced ranges are disjoint then, unless an addition overflows. -/
theorem turns_served_once (garbage : Request) (run : List Calls) :
    (ServedOnce (turns ⟨0, garbage⟩ run) ↔ ∀ t ∈ turns ⟨0, garbage⟩ run, t.Fresh) ∧
    ((∀ t ∈ turns ⟨0, garbage⟩ run, t.Fresh) → (∀ t ∈ turns ⟨0, garbage⟩ run, t.Positive) →
      (∀ t ∈ turns ⟨0, garbage⟩ run, t.InInt) →
      PairwiseDisjoint (announced (turns ⟨0, garbage⟩ run))) := by
  have int : INT_MIN ≤ (Server.mk 0 garbage).seqVal ∧ (Server.mk 0 garbage).seqVal ≤ INT_MAX := by
    show INT_MIN ≤ 0 ∧ 0 ≤ INT_MAX
    decide
  exact ⟨servedOnce_iff (turns_inInt int), fun fresh positive inInt =>
    (announced_disjoint int fresh positive inInt).2⟩

def answered (request : Request) : Calls where
  request := some request
  quitReceive := false
  mqOpen := true
  mqSend := true
  quitSend := false
  mqClose := true

def unreceived : Calls where
  request := none
  quitReceive := false
  mqOpen := true
  mqSend := true
  quitSend := false
  mqClose := true

def request (seqVal : CInt) : Request where
  pid := ⟨17, by decide⟩
  seqVal

/-- The client has gone when its request is served. -/
def dropped (request : Request) : Calls where
  request := some request
  quitReceive := false
  mqOpen := false
  mqSend := true
  quitSend := false
  mqClose := true

theorem turns_served_once_sample :
    PairwiseDisjoint (announced (turns ⟨0, request ⟨0, by decide⟩⟩
      [answered (request ⟨10, by decide⟩), dropped (request ⟨INT_MAX, by decide⟩),
        answered (request ⟨5, by decide⟩)])) := by
  apply (turns_served_once _ _).2
  · intro t member failed
    simp [turns, iteration, answered, dropped] at member
    rcases member with rfl | rfl | rfl
    · cases failed
    · cases failed
    · cases failed
  · intro t member adds received same
    simp [turns, iteration, answered, dropped] at member
    rcases member with rfl | rfl | rfl
    · obtain rfl := Option.some.inj same
      decide
    · exact absurd adds.1 Bool.false_ne_true
    · obtain rfl := Option.some.inj same
      decide
  · intro t member adds received same
    simp [turns, iteration, answered, dropped] at member
    rcases member with rfl | rfl | rfl
    · obtain rfl := Option.some.inj same
      decide
    · exact absurd adds.1 Bool.false_ne_true
    · obtain rfl := Option.some.inj same
      decide

/-- After a request has been answered, `mq_receive` fails. The client is answered again. -/
theorem request_answered_twice :
    ¬ ∀ (garbage : Request) (run : List Calls), ServedOnce (turns ⟨0, garbage⟩ run) := by
  intro all
  have served := all (request ⟨0, by decide⟩) [answered (request ⟨5, by decide⟩), unreceived]
  have again : causes (·.result.response.isSome) 0 (turns ⟨0, request ⟨0, by decide⟩⟩
      [answered (request ⟨5, by decide⟩), unreceived]) = [1, 1] := by decide
  have nodup := served.respondsOnce
  rw [again] at nodup
  exact absurd nodup (by decide)

end Tlpi.SeqnumQueue
