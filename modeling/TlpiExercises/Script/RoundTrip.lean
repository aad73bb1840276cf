import TlpiExercises.Script.Replay

/-!
# Recording and replaying

The player takes an 'n' behind a backslash for an escaped newline, but the recorder does not escape
backslashes. `unescape` is what the player makes of one recorded chunk.
-/

namespace Tlpi.Script

/-! ### The number before the space -/

theorem formatInt_visible {n : Int} {c : UInt8} (member : c ∈ formatInt n) : c ≠ SPACE ∧ c ≠ 0 := by
  constructor
  · rintro rfl
    exact formatInt_free n (by decide) (by decide) member
  · rintro rfl
    exact formatInt_free n (by decide) (by decide) member

theorem readMs_text {ms text : List UInt8} (rest : List UInt8) (visible : ∀ c ∈ text, c ≠ SPACE ∧ c ≠ 0)
    (room : ms.length + text.length ≤ 100) :
    readMs ms (text ++ SPACE :: rest) = .ok (some (ms ++ text, rest)) := by
  induction text generalizing ms with
  | nil =>
    rw [List.nil_append, readMs, if_pos rfl, List.append_nil]
  | cons c text ih =>
    obtain ⟨notSpace, notNul⟩ := visible c List.mem_cons_self
    rw [List.length_cons] at room
    have append : appendMs ms c = .ok (ms ++ [c]) := by
      rw [appendMs, if_pos (by omega), if_neg notNul]
    rw [List.cons_append, readMs, if_neg notSpace, append]
    dsimp only
    rw [ih (fun d member => visible d (List.mem_cons_of_mem _ member))]
    · rw [List.append_assoc]
      rfl
    · rw [List.length_append, List.length_singleton]
      omega

theorem timestamp_eq {ms : Int} (low : INT_MIN ≤ ms) (high : ms ≤ INT_MAX) :
    timestamp ms = formatInt ms ++ [SPACE] := by
  have length := formatInt_length low high
  rw [timestamp, List.take_of_length_le]
  rw [List.length_append, List.length_singleton]
  omega

theorem nanosleepValid_iff (m : Int) : nanosleepValid m = true ↔ 0 ≤ m := by
  unfold nanosleepValid
  simp only [Bool.and_eq_true, decide_eq_true_eq]
  have parts := Int.mul_tdiv_add_tmod m 1000
  constructor
  · omega
  · intro nonneg
    have sec := Int.tdiv_nonneg nonneg (show (0 : Int) ≤ 1000 by decide)
    have low := Int.tmod_nonneg 1000 nonneg
    have high := Int.tmod_lt_of_pos m (show (0 : Int) < 1000 by decide)
    omega

/-! ### One chunk -/

/-- The string that the player builds behind `string` from a recorded chunk; `none` is its access
before the block of the empty string. -/
def unescape (string : List UInt8) : List UInt8 → Option (List UInt8)
  | [] => some string
  | c :: chunk =>
    if c = LETTER_N then
      match string.getLast? with
      | none => none
      | some last =>
        if last = BACKSLASH then unescape (string.dropLast ++ [NEWLINE]) chunk
        else unescape (string ++ [c]) chunk
    else unescape (string ++ [c]) chunk

theorem readString_escape (string chunk rest : List UInt8) :
    readString string (escape chunk ++ NEWLINE :: rest) =
      match unescape string chunk with
      | none => .error .outOfBounds
      | some s => .ok (s, rest, false) := by
  have notN : NEWLINE ≠ LETTER_N := by decide
  induction chunk generalizing string with
  | nil => rw [escape, List.nil_append, readString, if_pos rfl]; rfl
  | cons c chunk ih =>
    by_cases newline : c = NEWLINE
    · -- An escaped newline: the backslash goes in and the 'n' takes it out again.
      subst newline
      have first : BACKSLASH ≠ NEWLINE ∧ BACKSLASH ≠ LETTER_N ∧ LETTER_N ≠ NEWLINE := by decide
      rw [escape, if_pos rfl, unescape, if_neg notN, ← ih]
      simp only [List.cons_append, List.nil_append]
      rw [readString, if_neg first.1, if_neg first.2.1, readString, if_neg first.2.2, if_pos rfl]
      simp
    · rw [escape, if_neg newline, unescape]
      simp only [List.cons_append, List.nil_append]
      rw [readString, if_neg newline]
      split
      · cases string.getLast? with
        | none => rfl
        | some last =>
          dsimp only
          split
          · exact ih _
          · exact ih _
      · exact ih _

/-- The player never makes a chunk longer, and shorter only by taking an 'n' for an escape. -/
theorem unescape_length {string chunk s : List UInt8} (h : unescape string chunk = some s) :
    s.length ≤ string.length + chunk.length ∧
      (string.length + chunk.length ≤ s.length → s = string ++ chunk) := by
  induction chunk generalizing string with
  | nil =>
    obtain rfl := Option.some.inj h
    simp
  | cons c chunk ih =>
    have push (h : unescape (string ++ [c]) chunk = some s) :
        s.length ≤ string.length + (c :: chunk).length ∧
          (string.length + (c :: chunk).length ≤ s.length → s = string ++ c :: chunk) := by
      obtain ⟨short, same⟩ := ih h
      rw [List.length_append, List.length_singleton] at short same
      rw [List.length_cons]
      refine ⟨by omega, fun long => ?_⟩
      rw [same (by omega), List.append_assoc]
      rfl
    unfold unescape at h
    split at h
    · split at h
      · cases h
      · rename_i last present
        split at h
        · have nonempty : string ≠ [] := by
            intro empty
            rw [empty] at present
            cases present
          have pos := List.length_pos_iff.mpr nonempty
          obtain ⟨short, _⟩ := ih h
          rw [List.length_append, List.length_dropLast, List.length_singleton] at short
          rw [List.length_cons]
          omega
        · exact push h
    · exact push h

/-- An 'n' is neither first nor directly behind a backslash. -/
def Plain (chunk : List UInt8) : Prop :=
  chunk.head? ≠ some LETTER_N ∧ ¬ [BACKSLASH, LETTER_N] <:+: chunk

/-- The same, behind a byte. -/
def PlainAfter (last : UInt8) (chunk : List UInt8) : Prop :=
  ¬ [BACKSLASH, LETTER_N] <:+: last :: chunk

theorem plainAfter_cons {last c : UInt8} {chunk : List UInt8} :
    PlainAfter last (c :: chunk) ↔ ¬ (last = BACKSLASH ∧ c = LETTER_N) ∧ PlainAfter c chunk := by
  unfold PlainAfter
  rw [List.infix_cons_iff, not_or]
  refine and_congr (not_congr ?_) Iff.rfl
  rw [List.cons_prefix_cons, List.cons_prefix_cons]
  simp [eq_comm]

theorem unescape_after (string chunk : List UInt8) (last : UInt8) :
    unescape (string ++ [last]) chunk = some (string ++ last :: chunk) ↔ PlainAfter last chunk := by
  induction chunk generalizing string last with
  | nil =>
    simp only [unescape, true_iff]
    unfold PlainAfter
    intro h
    have length := h.length_le
    simp at length
  | cons c chunk ih =>
    have push := ih (string ++ [last]) c
    rw [show string ++ [last] ++ c :: chunk = string ++ last :: c :: chunk by simp] at push
    rw [plainAfter_cons, unescape]
    by_cases isN : c = LETTER_N
    · rw [if_pos isN]
      simp only [List.getLast?_append, List.getLast?_singleton, Option.some_or]
      by_cases escaped : last = BACKSLASH
      · rw [if_pos escaped]
        simp only [escaped, isN, and_self, not_true_eq_false, false_and, iff_false]
        intro same
        obtain ⟨short, _⟩ := unescape_length same
        simp only [List.length_append, List.length_dropLast, List.length_cons, List.length_nil]
          at short
        omega
      · rw [if_neg escaped, push]
        simp [escaped]
    · rw [if_neg isN, push]
      simp [isN]

theorem unescape_iff (chunk : List UInt8) : unescape [] chunk = some chunk ↔ Plain chunk := by
  cases chunk with
  | nil => simp [unescape, Plain]
  | cons c chunk =>
    unfold unescape Plain
    by_cases isN : c = LETTER_N
    · simp [isN]
    · rw [if_neg isN]
      have after := unescape_after [] chunk c
      rw [show ([] : List UInt8) ++ c :: chunk = c :: chunk from rfl] at after
      rw [after]
      simp [PlainAfter, isN]

/-! ### One record -/

theorem elapsedMs_range (startTs ts : Timespec) :
    INT_MIN ≤ elapsedMs startTs ts ∧ elapsedMs startTs ts ≤ INT_MAX := by
  apply toInt_range

theorem readMs_record (startTs ts : Timespec) (chunk : Chunk) (rest : List UInt8) :
    readMs [] (timedRecord startTs ts chunk ++ rest) =
      .ok (some (formatInt (elapsedMs startTs ts), escape chunk.1 ++ NEWLINE :: rest)) := by
  obtain ⟨low, high⟩ := elapsedMs_range startTs ts
  have length := formatInt_length low high
  have room : ([] : List UInt8).length + (formatInt (elapsedMs startTs ts)).length ≤ 100 := by
    rw [List.length_nil]
    omega
  have read := readMs_text (escape chunk.1 ++ NEWLINE :: rest)
    (fun c member => formatInt_visible member) room
  rw [timedRecord, timestamp_eq low high]
  simpa using read

theorem replay_of_eof {lastMs : Int} {printed file : List UInt8}
    (read : readMs [] file = .ok none) : replay lastMs printed file = .ok printed := by
  rw [replay]
  split
  · rename_i h
    rw [read] at h
    cases h
  · rfl
  · rename_i h
    rw [read] at h
    cases h

theorem replay_of_readMs {lastMs : Int} {printed file text afterMs : List UInt8}
    (read : readMs [] file = .ok (some (text, afterMs))) (room : text.length < 100) :
    replay lastMs printed file =
      match GetNum.getInt text GetNum.GN_NONNEG with
      | none => .error (.exit printed)
      | some currentMs =>
        if nanosleepValid (currentMs - lastMs) then
          match readString [] afterMs with
          | .error fault => .error (.fault fault)
          | .ok (s, _, true) => .ok (printed ++ s)
          | .ok (s, rest, false) => replay currentMs (printed ++ s) rest
        else .error (.exit printed) := by
  have terminated : appendMs text 0 = .ok text := by
    rw [appendMs, if_pos room, if_pos rfl]
  rw [replay]
  split
  · rename_i h
    rw [read] at h
    cases h
  · rename_i h
    rw [read] at h
    cases h
  · rename_i text' afterMs' h
    rw [read] at h
    cases h
    rw [terminated]
    dsimp only
    cases GetNum.getInt text GetNum.GN_NONNEG with
    | none => rfl
    | some currentMs =>
      dsimp only
      split
      · split <;> rename_i h <;> rw [h]
      · rfl

/-- What the player does with one record: it may stop at the time, or at the string. -/
theorem replay_record (lastMs : Int) (printed : List UInt8) (startTs ts : Timespec) (chunk : Chunk)
    (rest : List UInt8) :
    replay lastMs printed (timedRecord startTs ts chunk ++ rest) =
      if 0 ≤ elapsedMs startTs ts ∧ lastMs ≤ elapsedMs startTs ts then
        match unescape [] chunk.1 with
        | none => .error (.fault .outOfBounds)
        | some s => replay (elapsedMs startTs ts) (printed ++ s) rest
      else .error (.exit printed) := by
  obtain ⟨low, high⟩ := elapsedMs_range startTs ts
  have length := formatInt_length low high
  rw [replay_of_readMs (readMs_record startTs ts chunk rest) (by omega),
    GetNum.getInt_formatInt low high]
  by_cases negative : elapsedMs startTs ts < 0
  · rw [if_pos negative, if_neg (by omega)]
  · rw [if_neg negative]
    dsimp only
    by_cases earlier : elapsedMs startTs ts < lastMs
    · rw [if_neg (by rw [nanosleepValid_iff]; omega), if_neg (by omega)]
    · rw [if_pos ((nanosleepValid_iff _).mpr (by omega)), if_pos (by omega), readString_escape]
      cases unescape [] chunk.1 with
      | none => rfl
      | some s => rfl

/-! ### A session -/

def chunks (session : List (Timespec × Chunk)) : List UInt8 :=
  (session.map (fun record => record.2.1)).flatten

def times (startTs : Timespec) (session : List (Timespec × Chunk)) : List Int :=
  session.map (fun record => elapsedMs startTs record.1)

theorem replay_length {lastMs : Int} {printed out : List UInt8} {startTs : Timespec}
    {session : List (Timespec × Chunk)}
    (h : replay lastMs printed (recordSession startTs session) = .ok out) :
    out.length ≤ printed.length + (chunks session).length := by
  induction session generalizing lastMs printed with
  | nil =>
    rw [recordSession, replay_of_eof rfl] at h
    obtain rfl := Except.ok.inj h
    exact Nat.le_add_right _ _
  | cons record session ih =>
    obtain ⟨ts, chunk⟩ := record
    rw [recordSession, replay_record] at h
    split at h
    · split at h
      · cases h
      · rename_i s unescaped
        have rest := ih h
        have short := (unescape_length unescaped).1
        simp only [chunks, List.map_cons, List.flatten_cons, List.length_append, List.length_nil]
          at rest short ⊢
        omega
    · cases h

theorem replay_session (lastMs : Int) (nonneg : 0 ≤ lastMs) (printed : List UInt8)
    (startTs : Timespec) (session : List (Timespec × Chunk)) :
    replay lastMs printed (recordSession startTs session) = .ok (printed ++ chunks session) ↔
      (∀ record ∈ session, Plain record.2.1) ∧
        List.IsChain (· ≤ ·) (lastMs :: times startTs session) := by
  induction session generalizing lastMs printed with
  | nil =>
    rw [recordSession, replay_of_eof rfl]
    simp [chunks, times]
  | cons record session ih =>
    obtain ⟨ts, chunk⟩ := record
    have split_chunks : chunks ((ts, chunk) :: session) = chunk.1 ++ chunks session := rfl
    have split_times : times startTs ((ts, chunk) :: session) =
        elapsedMs startTs ts :: times startTs session := rfl
    rw [recordSession, replay_record, split_times, List.isChain_cons_cons, List.forall_mem_cons]
    by_cases inOrder : lastMs ≤ elapsedMs startTs ts
    · rw [if_pos ⟨by omega, inOrder⟩]
      by_cases plain : Plain chunk.1
      · rw [(unescape_iff chunk.1).mpr plain]
        dsimp only
        rw [split_chunks, ← List.append_assoc, ih _ (by omega)]
        simp [plain, inOrder]
      · -- A chunk that is not plain loses a byte, and no later chunk makes up for it.
        have lossy : ∀ s, unescape [] chunk.1 = some s → s.length < chunk.1.length := by
          intro s unescaped
          obtain ⟨short, same⟩ := unescape_length unescaped
          by_contra long
          apply plain
          rw [← unescape_iff, unescaped, same (by simpa using long), List.nil_append]
        simp only [plain, false_and, iff_false]
        intro same
        split at same
        · cases same
        · rename_i s unescaped
          have fewer := lossy s unescaped
          have bound := replay_length same
          rw [split_chunks] at bound
          simp only [List.length_append] at bound
          omega
    · rw [if_neg (by omega)]
      simp [inOrder]

/-- The player prints what was recorded exactly for sessions of plain chunks whose times are not
negative and never go back. -/
theorem replayScript_recordSession_iff (startTs : Timespec) (session : List (Timespec × Chunk)) :
    replayScript (recordSession startTs session) = .ok (chunks session) ↔
      (∀ record ∈ session, Plain record.2.1) ∧
        List.IsChain (· ≤ ·) (0 :: times startTs session) := by
  apply replay_session 0 le_rfl []

/-- A backslash and an 'n' that were typed come back as a newline. -/
theorem typed_backslash_n_replayed :
    ¬ ∀ (startTs : Timespec) (session : List (Timespec × Chunk)),
      replayScript (recordSession startTs session) = .ok (chunks session) := by
  intro same
  have typed := same ⟨0, 0⟩ [(⟨0, 0⟩, ⟨[BACKSLASH, LETTER_N], by decide, by decide, by decide⟩)]
  have now : elapsedMs ⟨0, 0⟩ ⟨0, 0⟩ = 0 := by decide
  have newline : unescape [] [BACKSLASH, LETTER_N] = some [NEWLINE] := by decide
  rw [recordSession, recordSession, replayScript, replay_record, now, if_pos (by decide)] at typed
  dsimp only at typed
  rw [newline] at typed
  dsimp only at typed
  rw [replay_of_eof rfl] at typed
  exact absurd typed (by decide)

end Tlpi.Script
