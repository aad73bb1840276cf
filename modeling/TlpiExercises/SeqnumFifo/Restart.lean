import TlpiExercises.C.Strings
import TlpiExercises.SeqnumFifo.Disjoint

/-!
# Stop and restart

The backup text has nine characters at most, so that a counter of nine digits loses the last one
when it has a sign.
-/

namespace Tlpi.SeqnumFifo

/-- The server as it is when the loop notices a stop request, `none` when it never does. -/
def stopped (s : Server) : List Calls → Option Server
  | [] => none
  | calls :: rest =>
    if calls.stopRequested then some s
    else if (iteration s calls).continues then stopped (iteration s calls).server rest
    else none

/-- The counter of a stopped server, and what the server that is started next counts from. -/
structure Restart where
  seqNum : Int
  restarted : Option Int
  deriving DecidableEq

/-- The restarts of a server that is run, stopped and started again, once for each of the runs. -/
def restarts (s : Server) : List (List Calls) → List Restart
  | [] => []
  | run :: cycles =>
    match stopped s run with
    | none => []
    | some last =>
      match startup last.backup with
      | none => [⟨last.seqNum, none⟩]
      | some next => ⟨last.seqNum, some next.seqNum⟩ :: restarts next cycles

theorem cString_formatInt (n : Int) : cString (formatInt n) = formatInt n :=
  CStr.ofBytes_free (formatInt_free n (by decide) (by decide))

theorem formatInt_ne_nil (n : Int) : formatInt n ≠ [] := by
  unfold formatInt
  split
  · exact List.cons_ne_nil _ _
  · exact decimal_ne_nil _

theorem seqNumText_whole {n : Int} (low : -100000000 < n) (high : n ≤ MAX_SIZE) :
    seqNumText n = formatInt n := by
  unfold MAX_SIZE at high
  apply List.take_of_length_le
  unfold formatInt MAX_DIGITS
  split
  · rw [List.length_cons]
    have digits := decimal_length (n := n.natAbs) (k := 8) (by decide) (by omega)
    omega
  · exact decimal_length (by decide) (by omega)

theorem startup_backup {backup : List UInt8} {s : Server} (h : startup backup = some s) :
    s.backup = backup := by
  unfold startup at h
  simp only at h
  split at h
  · split at h
    · cases h
    · obtain rfl := Option.some.inj h
      rfl
  · obtain rfl := Option.some.inj h
    rfl

/-- No text of nine characters is a number of nine digits with a sign. -/
theorem startup_low {backup : List UInt8} {s : Server} (h : startup backup = some s) :
    -100000000 < s.seqNum := by
  unfold startup at h
  simp only at h
  split at h
  · split at h
    · cases h
    · rename_i seqNum parsed
      obtain rfl := Option.some.inj h
      apply Utils.getNum_low _ parsed
      have whole := (List.takeWhile_sublist (l := backup.take MAX_DIGITS) (· ≠ 0)).length_le
      have nine : (backup.take MAX_DIGITS).length ≤ MAX_DIGITS := List.length_take_le _ _
      unfold cString
      unfold MAX_DIGITS at whole nine ⊢
      omega
  · obtain rfl := Option.some.inj h
    show (-100000000 : Int) < 0
    decide

theorem startup_seqNumText {n : Int} (low : -100000000 < n) (high : n ≤ MAX_SIZE) :
    startup (seqNumText n) = some ⟨n, seqNumText n⟩ := by
  have taken : (seqNumText n).take MAX_DIGITS = seqNumText n := by
    unfold seqNumText
    rw [List.take_take, Nat.min_self]
  have parsed : Utils.getNum (cString (seqNumText n)) = some n := by
    rw [seqNumText_whole low high, cString_formatInt]
    unfold MAX_SIZE at high
    apply Utils.getNum_formatInt
    · unfold INT_MIN
      omega
    · unfold INT_MAX
      omega
  have some_text : (seqNumText n).length ≠ 0 := by
    rw [seqNumText_whole low high]
    exact fun empty => formatInt_ne_nil n (List.length_eq_zero_iff.mp empty)
  unfold startup
  simp only [taken, parsed, if_pos some_text]

def Saved (s : Server) : Prop := -100000000 < s.seqNum → startup s.backup = some s

theorem startup_saved {backup : List UInt8} {s : Server} (h : startup backup = some s) : Saved s := by
  intro _
  rw [startup_backup h, h]

/-- An iteration that goes on has left the server as it was, or has stored its counter. -/
theorem iteration_continues {s : Server} {calls : Calls}
    (continues : (iteration s calls).continues = true) :
    (iteration s calls).server = s ∨
      (iteration s calls).server.backup = seqNumText (iteration s calls).server.seqNum := by
  revert continues
  unfold iteration
  split
  · exact fun _ => Or.inl rfl
  · split
    · exact fun _ => Or.inl rfl
    · rename_i request _
      dsimp only
      generalize (if tooLarge s.seqNum request then s.seqNum else s.seqNum + request.seqLen.1) = seqNum
      generalize (if writeResponse calls.writes 3 = .complete then
        some (Response.mk request s.seqNum) else none) = response
      split_ifs with dummy client truncated sought written
      · exact fun _ => Or.inr rfl
      · simp
      · simp
      · simp
      · exact fun _ => Or.inl rfl
      · exact fun _ => Or.inl rfl

theorem iteration_saved {s : Server} {calls : Calls} (inRange : InRange s) (saved : Saved s)
    (continues : (iteration s calls).continues = true) : Saved (iteration s calls).server := by
  rcases iteration_continues continues with same | stored
  · rw [same]
    exact saved
  · intro low
    rw [stored]
    have high : (iteration s calls).server.seqNum ≤ MAX_SIZE := (iteration_keeps_range inRange).2
    rw [startup_seqNumText low high, ← stored]

theorem stopped_saved {s last : Server} {run : List Calls} (inRange : InRange s) (saved : Saved s)
    (h : stopped s run = some last) : InRange last ∧ Saved last := by
  induction run generalizing s with
  | nil => cases h
  | cons calls rest ih =>
    rw [stopped] at h
    split at h
    · obtain rfl := Option.some.inj h
      exact ⟨inRange, saved⟩
    · split at h
      · rename_i continues
        exact ih (iteration_keeps_range inRange) (iteration_saved inRange saved continues) h
      · cases h

/-- Over any number of stops and restarts, a server starts from the counter of the one before it
exactly when that is above -100000000. -/
theorem restarts_iff {backup : List UInt8} {s : Server} {cycles : List (List Calls)}
    (started : startup backup = some s) :
    ∀ r ∈ restarts s cycles, (r.restarted = some r.seqNum ↔ -100000000 < r.seqNum) := by
  induction cycles generalizing backup s with
  | nil => simp [restarts]
  | cons run cycles ih =>
    intro r member
    rw [restarts] at member
    cases stop : stopped s run with
    | none => simp [stop] at member
    | some last =>
      obtain ⟨_, saved⟩ := stopped_saved (startup_inRange started) (startup_saved started) stop
      rw [stop] at member
      cases again : startup last.backup with
      | none =>
        simp only [again, List.mem_singleton] at member
        subst member
        constructor
        · intro same
          cases same
        · intro low
          rw [saved low] at again
          cases again
      | some next =>
        simp only [again, List.mem_cons] at member
        rcases member with rfl | later
        · constructor
          · intro same
            have above := startup_low again
            rwa [Option.some.inj same] at above
          · intro low
            rw [saved low] at again
            rw [Option.some.inj again]
        · exact ih again r later

def stop : Calls := { served ⟨0, by decide⟩ with stopRequested := true }

theorem restarts_iff_sample :
    (Restart.mk 15 (some 15)).restarted = some 15 ↔ (-100000000 : Int) < 15 := by
  have started : startup [] = some ⟨0, []⟩ := rfl
  have second : Restart.mk 15 (some 15) ∈
      restarts ⟨0, []⟩ [[served ⟨10, by decide⟩, stop], [served ⟨5, by decide⟩, stop]] := by
    decide +kernel
  exact restarts_iff started _ second

/-- A hundred million numbers are given back, and the server is stopped. -/
theorem negative_not_restored :
    ¬ ∀ (backup : List UInt8) (s : Server) (cycles : List (List Calls)), startup backup = some s →
      ∀ r ∈ restarts s cycles, r.restarted = some r.seqNum := by
  intro all
  have lost : Restart.mk (-100000000) (some (-10000000)) ∈
      restarts ⟨0, []⟩ [[served ⟨-100000000, by decide⟩, stop]] := by decide +kernel
  have same := all [] ⟨0, []⟩ _ rfl _ lost
  exact absurd same (by decide)

end Tlpi.SeqnumFifo
