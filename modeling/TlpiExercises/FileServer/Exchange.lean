import TlpiExercises.C.Numbers
import TlpiExercises.FileServer.Server
import TlpiExercises.Library.Delivery

/-!
# A server child and the client of pmsg_file_client.c

The client takes messages from its queue until one of them is the last. It counts bytes and messages in
variables of type `int`.
-/

namespace Tlpi.FileServer

open Delivery

/-- `sizeof(struct response_msg)`, which is also the length of every message. -/
def RESPONSE_SIZE : Nat := 8 + DATA_SIZE

/-- `attr.mq_maxmsg` of the queue that the client creates. -/
def MQ_MAXMSG : Nat := 10

/-- What the client prints before it exits. -/
inductive Report where
  | failure (text : List UInt8)
  | received (totBytes numMsg : Int)
  deriving DecidableEq

structure Client where
  numMsg : Int
  totBytes : Int
  report : Option Report

def Client.start : Client := ⟨0, 0, none⟩

/-- One round of the loop. -/
def Client.receive (c : Client) (resp : ResponseMsg) : Client :=
  if resp.mtype = RESP_MT_FAILURE then
    { c with report := some (.failure (resp.data.1.takeWhile (· ≠ 0))) }
  else
    let c := { c with numMsg := toInt (c.numMsg + 1), totBytes := toInt (c.totBytes + RESPONSE_SIZE) }
    if resp.mtype = RESP_MT_END then { c with report := some (.received c.totBytes c.numMsg) } else c

def exchange : System ResponseMsg Client where
  capacity := MQ_MAXMSG
  take := Client.receive
  done := fun c => c.report.isSome

/-- The blocks that are read and sent before the first call that fails. -/
def sentBlocks (mqSend : Nat → Bool) : Nat → List (Option Chunk) → Nat
  | sent, some _ :: reads => if mqSend sent then sentBlocks mqSend (sent + 1) reads + 1 else 0
  | _, _ => 0

/-- `n` blocks and the last message. -/
def Report.complete (n : Nat) : Report := .received (toInt ((n + 1) * RESPONSE_SIZE)) (toInt (n + 1))

/-- What the client prints, if anything. A block that cannot be sent is as good as the end of the file. -/
def ServeCalls.report (calls : ServeCalls) : Option Report :=
  let n := sentBlocks calls.mqSend 0 calls.reads
  if ¬ calls.mqOpen then none
  else if ¬ calls.openFile then
    if calls.mqSend 0 then some (.failure (couldntOpen.takeWhile (· ≠ 0))) else none
  else
    match calls.reads[n]? with
    | none => if calls.mqSend n then some (.complete n) else none
    | some none => if calls.mqSend n then some (.failure (readFailed.takeWhile (· ≠ 0))) else none
    | some (some _) => if calls.mqSend (n + 1) then some (.complete n) else none

/-! ### What a child sends -/

variable {mqSend : Nat → Bool} {data : Data} {c : Client}

theorem receive_data : c.receive ⟨RESP_MT_DATA, data⟩ =
    { c with numMsg := toInt (c.numMsg + 1), totBytes := toInt (c.totBytes + RESPONSE_SIZE) } := rfl

theorem receive_end : (c.receive ⟨RESP_MT_END, data⟩).report =
    some (.received (toInt (c.totBytes + RESPONSE_SIZE)) (toInt (c.numMsg + 1))) := rfl

theorem receive_send (sent : Nat) (resp : ResponseMsg) :
    ((send mqSend sent resp).foldl Client.receive c).report =
      if mqSend sent then (c.receive resp).report else c.report := by
  unfold send
  split <;> rfl

theorem length_send (sent : Nat) (resp : ResponseMsg) : (send mqSend sent resp).length ≤ 1 := by
  unfold send
  split
  · exact Nat.le_refl 1
  · exact Nat.zero_le 1

theorem read_failed (data : Data) : (data.store readFailed (by decide)).1.takeWhile (· ≠ 0) =
    readFailed.takeWhile (· ≠ 0) := by
  simp [Data.store, readFailed]

theorem couldnt_open (data : Data) : (data.store couldntOpen (by decide)).1.takeWhile (· ≠ 0) =
    couldntOpen.takeWhile (· ≠ 0) := by
  simp [Data.store, couldntOpen]

theorem taken_nil {taken rest messages : List ResponseMsg} (whole : taken ++ rest = messages)
    (more : rest ≠ []) (short : messages.length ≤ 1) : taken = [] := by
  have some_left := List.length_pos_iff.mpr more
  rw [← whole, List.length_append] at short
  exact List.eq_nil_of_length_eq_zero (by omega)

/-- Only the last message makes the client report. -/
theorem transmit_last (data : Data) (c : Client) {sent : Nat} {reads : List (Option Chunk)}
    {taken rest : List ResponseMsg} (fresh : c.report = none)
    (whole : taken ++ rest = transmit mqSend data sent reads) (more : rest ≠ []) :
    (taken.foldl Client.receive c).report = none := by
  have alone (short : (transmit mqSend data sent reads).length ≤ 1) :
      (taken.foldl Client.receive c).report = none := by
    rw [taken_nil whole more short]
    exact fresh
  induction reads generalizing data sent c taken with
  | nil => exact alone (length_send _ _)
  | cons read reads ih =>
    cases read with
    | none => exact alone (length_send _ _)
    | some chunk =>
      rw [transmit] at whole alone
      by_cases goes : mqSend sent = true
      · simp only [if_pos goes] at whole
        cases taken with
        | nil => exact fresh
        | cons first taken =>
          obtain ⟨rfl, tail⟩ := List.cons.inj whole
          refine ih _ (Client.receive c _) fresh tail fun short => ?_
          rw [taken_nil tail more short]
          exact fresh
      · simp only [if_neg goes] at alone
        exact alone (length_send _ _)

/-- The report of a client that has already counted some messages. -/
theorem transmit_report (data : Data) (c : Client) (sent : Nat) (reads : List (Option Chunk))
    (fresh : c.report = none) :
    ((transmit mqSend data sent reads).foldl Client.receive c).report =
      let n := sentBlocks mqSend sent reads
      let complete :=
        Report.received (toInt (c.totBytes + (n + 1) * RESPONSE_SIZE)) (toInt (c.numMsg + (n + 1)))
      match reads[n]? with
      | none => if mqSend (sent + n) then some complete else none
      | some none => if mqSend (sent + n) then some (.failure (readFailed.takeWhile (· ≠ 0))) else none
      | some (some _) => if mqSend (sent + n + 1) then some complete else none := by
  induction reads generalizing data sent c with
  | nil =>
    rw [transmit, receive_send, receive_end, fresh]
    simp [sentBlocks]
  | cons read reads ih =>
    cases read with
    | none =>
      rw [transmit, receive_send, fresh]
      simp only [sentBlocks, List.getElem?_cons_zero, Nat.add_zero, ← read_failed data]
      rfl
    | some chunk =>
      rw [transmit]
      by_cases goes : mqSend sent = true
      · have counted : sentBlocks mqSend sent (some chunk :: reads) =
            sentBlocks mqSend (sent + 1) reads + 1 := if_pos goes
        simp only [if_pos goes, List.foldl_cons, receive_data, counted, List.getElem?_cons_succ]
        rw [ih _ ⟨toInt (c.numMsg + 1), toInt (c.totBytes + RESPONSE_SIZE), c.report⟩ (sent + 1) fresh]
        have place : sent + 1 + sentBlocks mqSend (sent + 1) reads =
            sent + (sentBlocks mqSend (sent + 1) reads + 1) := by omega
        have messages (m : Nat) : toInt (toInt (c.numMsg + 1) + (m + 1)) =
            toInt (c.numMsg + ((m + 1 : Nat) + 1)) := by
          rw [toInt_add, Nat.cast_succ]
          congr 1
          omega
        have bytes (m : Nat) :
            toInt (toInt (c.totBytes + RESPONSE_SIZE) + (m + 1) * RESPONSE_SIZE) =
              toInt (c.totBytes + ((m + 1 : Nat) + 1) * RESPONSE_SIZE) := by
          rw [toInt_add, Nat.cast_succ, Int.add_mul (_ + 1), Int.one_mul]
          congr 1
          omega
        simp only [place, messages, bytes]
      · have counted : sentBlocks mqSend sent (some chunk :: reads) = 0 := if_neg goes
        simp only [if_neg goes, counted, List.getElem?_cons_zero, Nat.add_zero]
        rw [receive_send, receive_end, fresh]
        simp

theorem serveRequest_last (data : Data) (calls : ServeCalls) {taken rest : List ResponseMsg}
    (whole : taken ++ rest = serveRequest data calls) (more : rest ≠ []) :
    (taken.foldl Client.receive .start).report = none := by
  unfold serveRequest at whole
  split at whole
  · rw [(List.append_eq_nil_iff.mp whole).1]
    rfl
  · split at whole
    · rw [taken_nil whole more (length_send _ _)]
      rfl
    · exact transmit_last data .start rfl whole more

theorem serveRequest_report (data : Data) (calls : ServeCalls) :
    ((serveRequest data calls).foldl Client.receive .start).report = calls.report := by
  unfold serveRequest ServeCalls.report
  split
  · rfl
  · split
    · rw [receive_send, ← couldnt_open data]
      rfl
    · rw [transmit_report data .start 0 calls.reads rfl]
      simp [Client.start, Report.complete]

/-- In every order of steps the client prints what the calls of the child say, or waits for ever where
they say nothing, and the child never waits for room in a queue that nobody reads. -/
theorem exchange_ends (data : Data) (calls : ServeCalls) {events : List Event}
    {s : State ResponseMsg Client}
    (run : events.foldlM (step exchange) ⟨serveRequest data calls, [], .start⟩ = some s) :
    events.length ≤ 2 * (serveRequest data calls).length ∧
    ((∀ e, step exchange s e = none) ↔ s.queue ++ s.unsent = []) ∧
    (s.queue ++ s.unsent = [] → s.receiver.report = calls.report) ∧
    (s.receiver.report ≠ none → s.queue ++ s.unsent = []) := by
  have last (taken rest : List ResponseMsg) (whole : taken ++ rest = serveRequest data calls)
      (more : rest ≠ []) : exchange.done (taken.foldl exchange.take .start) = false :=
    Option.isSome_eq_false_iff.mpr (Option.isNone_iff_eq_none.mpr (serveRequest_last data calls whole more))
  obtain ⟨length, done, stuck, all⟩ := delivers_all (by decide) last run
  refine ⟨length, stuck, fun nothing => ?_, fun reported => ?_⟩
  · rw [all nothing]
    exact serveRequest_report data calls
  · exact done (Option.isSome_iff_ne_none.mpr reported)

/-- A file of two blocks. The client takes the first message while the child still sends. -/
theorem exchange_ends_sample : ∃ s : State ResponseMsg Client,
    s.receiver.report = some (.received 12312 3) := by
  let data : Data := ⟨List.replicate DATA_SIZE 0, List.length_replicate⟩
  let calls : ServeCalls := ⟨true, true, [some ⟨[65], by decide⟩, some ⟨[66], by decide⟩], fun _ => true⟩
  obtain ⟨s, run, nothing⟩ : ∃ s : State ResponseMsg Client,
      [.send, .send, .receive, .send, .receive, .receive].foldlM (step exchange)
        ⟨serveRequest data calls, [], .start⟩ = some s ∧ s.queue ++ s.unsent = [] := ⟨_, rfl, rfl⟩
  have report : calls.report = some (.received 12312 3) := by decide
  rw [← report]
  exact ⟨s, (exchange_ends data calls run).2.2.1 nothing⟩

end Tlpi.FileServer
