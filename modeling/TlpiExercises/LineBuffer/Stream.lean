import TlpiExercises.LineBuffer.Refinement

/-!
# Streams of lines

What the calls on a fresh rlbuf return, for every way the bytes come in.
-/

namespace Tlpi.LineBuffer

/-- `read_line_buf_init`, and then `n` calls. -/
def readFresh (n : Nat) (rl : Rlbuf) (fd : Fd) (line : Storage) :
    Except Fault (List (Int × List UInt8)) := do
  let rl ← readLineBufInit rl
  readLines n rl fd line

/-- The bytes that the descriptor delivers. -/
def delivered (fd : Fd) : List UInt8 := Lines.stream Subtype.val fd

def returned : Lines.Reply UInt8 → Int × List UInt8
  | .line l => (l.length, l)
  | .eof => (0, [])
  | .failed => (-1, [])

theorem text_held {line : Storage} {l junk : List UInt8} (held : line.1 = l ++ NUL :: junk)
    (clean : NUL ∉ l) : line.text = l := by
  rw [Storage.text, held, takeWhile_terminated clean]

theorem matches_returned {result : Result} {reply : Lines.Reply UInt8}
    (same : Matches result reply) :
    (result.rv, if 0 < result.rv then result.line.text else []) = returned reply := by
  cases reply with
  | line l =>
    obtain ⟨rv, clean, junk, held⟩ := same
    rw [rv, text_held held clean, returned]
    cases l with
    | nil => rfl
    | cons c l => rw [if_pos (by simp)]
  | eof =>
    rw [show result.rv = 0 from same]
    rfl
  | failed =>
    rw [show result.rv = -1 from same]
    rfl

theorem readLines_calls {u : List UInt8} {rl : Rlbuf} {fd : Fd} {line : Storage} (n : Nat)
    (represents : Represents rl u) :
    readLines n rl fd line =
      (Lines.calls NEWLINE accept n u fd).map (List.map returned) := by
  induction n generalizing u rl fd line with
  | zero => rfl
  | succ n ih =>
    have call := readLineBuf_refines fd line represents
    unfold readLines Lines.calls
    cases next : Lines.next NEWLINE accept u fd with
    | error fault =>
      rw [next] at call
      rw [show readLineBuf rl fd line = .error fault from call]
      rfl
    | ok step =>
      obtain ⟨reply, v, fd'⟩ := step
      rw [next] at call
      obtain ⟨result, call, rfl, represents', same⟩ := call
      rw [call]
      simp only [ok_bind, ih represents', matches_returned same, pure_eq_ok]
      cases Lines.calls NEWLINE accept n v result.fd with
      | error fault => rfl
      | ok replies => rfl

theorem readFresh_calls (n : Nat) (rl : Rlbuf) (fd : Fd) (line : Storage) :
    readFresh n rl fd line = (Lines.calls NEWLINE accept n [] fd).map (List.map returned) := by
  obtain ⟨rl', fresh, represents⟩ := readLineBufInit_represents rl
  rw [readFresh, fresh, ok_bind, readLines_calls n represents]

/-! ### Streams of short lines -/

theorem text_of_clean {bytes : List UInt8} (clean : NUL ∉ bytes) : text bytes = bytes := by
  exact CStr.ofBytes_free clean

theorem chunk_clean {fd : Fd} {chunk : Chunk} (clean : NUL ∉ delivered fd)
    (member : some chunk ∈ fd) : NUL ∉ chunk.1 := by
  induction fd with
  | nil => cases member
  | cons delivery fd ih =>
    cases delivery with
    | none =>
      rcases List.mem_cons.mp member with same | member
      · cases same
      · exact ih clean member
    | some first =>
      have clean : NUL ∉ first.1 ++ delivered fd := clean
      rw [List.mem_append, not_or] at clean
      rcases List.mem_cons.mp member with same | member
      · rw [Option.some.inj same]
        exact clean.1
      · exact ih clean.2 member

theorem accept_ok {u v : List UInt8} {chunk : Chunk} (h : accept u chunk = .ok v) :
    v = u ++ text chunk.1 := by
  unfold accept at h
  split at h
  · cases h
  · split at h
    · cases h
    · exact (Except.ok.inj h).symm

/-- Lines of at most `MAX_MSG_LEN` bytes leave room for one more read. -/
theorem accepted_short {lines : List (List UInt8)} {u : List UInt8} {fd : Fd}
    (good : ∀ l ∈ lines, Lines.IsLine NEWLINE l ∧ l.length ≤ MAX_MSG_LEN)
    (clean : NUL ∉ delivered fd) (cut : u ++ delivered fd = lines.flatten) :
    Lines.Accepted NEWLINE accept (Lines.unfinished NEWLINE u) fd := by
  induction fd generalizing u with
  | nil => trivial
  | cons delivery fd ih =>
    cases delivery with
    | none => exact ih clean cut
    | some chunk =>
      have clean' : NUL ∉ chunk.1 ++ delivered fd := clean
      rw [List.mem_append, not_or] at clean'
      have short := Lines.unfinished_short NEWLINE (by decide) good cut
      have chunkShort := chunk.2.2
      have room : ¬ BUF_LEN ≤ (Lines.unfinished NEWLINE u).length + chunk.1.length := by
        unfold BUF_LEN
        omega
      have nonempty : Lines.unfinished NEWLINE u ++ chunk.1 ≠ [] :=
        fun h => chunk.2.1 (List.append_eq_nil_iff.mp h).2
      refine ⟨Lines.unfinished NEWLINE u ++ chunk.1, ?_, ?_⟩
      · rw [accept, if_neg room, text_of_clean clean'.1, if_neg nonempty]
      · rw [Lines.unfinished_unfinished]
        apply ih clean'.2
        rw [List.append_assoc]
        exact cut

/-- The calls that do not fail return the lines in order, each with its length, and then 0. -/
theorem readFresh_lines {lines : List (List UInt8)} {fd : Fd}
    (good : ∀ l ∈ lines, Lines.IsLine NEWLINE l ∧ NUL ∉ l ∧ l.length ≤ MAX_MSG_LEN)
    (delivers : delivered fd = lines.flatten) (n : Nat) (rl : Rlbuf) (line : Storage) :
    ∃ results, readFresh n rl fd line = .ok results ∧ results.length = n ∧
      results.countP (fun r => r.1 = -1) ≤ fd.countP Option.isNone ∧
      results.filter (fun r => r.1 ≠ -1) <+:
        lines.map (fun l => ((l.length : Int), l)) ++ List.replicate n (0, []) := by
  have clean : NUL ∉ delivered fd := by
    rw [delivers]
    intro h
    obtain ⟨l, member, nul⟩ := List.mem_flatten.mp h
    exact (good l member).2.1 nul
  have accepted := accepted_short (u := []) (fun l m => ⟨(good l m).1, (good l m).2.2⟩) clean delivers
  obtain ⟨replies, result⟩ := Lines.calls_iff.mpr accepted n
  have appends : ∀ u chunk v, some chunk ∈ fd → accept u chunk = .ok v → v = u ++ chunk.1 := by
    intro u chunk v member h
    rw [accept_ok h, text_of_clean (chunk_clean clean member)]
  have cut : [] ++ Lines.stream Subtype.val fd = lines.flatten := delivers
  obtain ⟨length, failures, order⟩ := Lines.calls_in_order (fun l m => (good l m).1) cut appends
    result
  have failed (reply : Lines.Reply UInt8) : (returned reply).1 = -1 ↔ reply = .failed := by
    cases reply with
    | line l => simp [returned]
    | eof => simp [returned]
    | failed => simp [returned]
  refine ⟨replies.map returned, ?_, by rw [List.length_map, length], ?_, ?_⟩
  · rw [readFresh_calls, result]
    rfl
  · rw [List.countP_map]
    apply le_trans (le_of_eq _) failures
    rw [List.count]
    apply List.countP_congr
    intro reply _
    simp [failed]
  · have mapped := order.map returned
    rw [List.filter_map]
    have same : replies.filter ((fun r : Int × List UInt8 => decide (r.1 ≠ -1)) ∘ returned) =
        replies.filter (· ≠ .failed) := by
      apply List.filter_congr
      intro reply _
      simp [failed]
    rw [same]
    simpa [returned, Function.comp_def] using mapped

def blank : Storage := ⟨List.replicate BUF_LEN 0, List.length_replicate⟩

/-- "a\nb\n" in three reads, with one that fails. -/
def sampleFd : Fd :=
  [some ⟨[97], by decide⟩, none, some ⟨[10, 98], by decide⟩, some ⟨[10], by decide⟩]

theorem readFresh_lines_sample : ∃ results,
    readFresh 4 ⟨7, ⟨.inSwap, 9⟩, blank, blank⟩ sampleFd blank = .ok results ∧
      results.countP (fun r => r.1 = -1) ≤ 1 ∧
      results.filter (fun r => r.1 ≠ -1) <+: [(2, [97, 10]), (2, [98, 10]), (0, []), (0, []),
        (0, []), (0, [])] := by
  have good : ∀ l ∈ [[97, 10], [98, 10]],
      Lines.IsLine NEWLINE l ∧ NUL ∉ l ∧ l.length ≤ MAX_MSG_LEN := by
    intro l member
    rcases List.mem_cons.mp member with rfl | member
    · exact ⟨⟨[97], rfl, by decide⟩, by decide, by decide⟩
    · obtain rfl := List.mem_singleton.mp member
      exact ⟨⟨[98], rfl, by decide⟩, by decide, by decide⟩
  have delivers : delivered sampleFd = [[97, 10], [98, 10]].flatten := rfl
  obtain ⟨results, run, _, failures, order⟩ :=
    readFresh_lines good delivers 4 ⟨7, ⟨.inSwap, 9⟩, blank, blank⟩ blank
  exact ⟨results, run, failures, order⟩

/-! ### Any stream -/

/-- Each read finds room behind the unfinished line `u`, and delivers no NUL first where there is
none. A read counts up to its first NUL. -/
def Safe : List UInt8 → Fd → Prop
  | _, [] => True
  | u, none :: fd => Safe u fd
  | u, some chunk :: fd => u.length + chunk.1.length < BUF_LEN ∧
      (u = [] → chunk.1.head? ≠ some NUL) ∧
      Safe (Lines.unfinished NEWLINE (u ++ text chunk.1)) fd

theorem text_eq_nil {bytes : List UInt8} (nonempty : bytes ≠ []) :
    text bytes = [] ↔ bytes.head? = some NUL := by
  cases bytes with
  | nil => exact absurd rfl nonempty
  | cons c bytes => by_cases nul : c = NUL <;> simp [text, nul]

theorem safe_iff {u : List UInt8} {fd : Fd} : Safe u fd ↔ Lines.Accepted NEWLINE accept u fd := by
  induction fd generalizing u with
  | nil => exact Iff.rfl
  | cons delivery fd ih =>
    cases delivery with
    | none => exact ih
    | some chunk =>
      rw [Safe, Lines.Accepted, ih]
      have empty := text_eq_nil chunk.2.1
      constructor
      · rintro ⟨room, first, rest⟩
        refine ⟨_, ?_, rest⟩
        have visible : u ++ text chunk.1 ≠ [] := by
          intro h
          obtain ⟨none, nothing⟩ := List.append_eq_nil_iff.mp h
          exact first none (empty.mp nothing)
        rw [accept, if_neg (Nat.not_le.mpr room), if_neg visible]
      · rintro ⟨v, kept, rest⟩
        have same := accept_ok kept
        subst same
        unfold accept at kept
        split at kept
        · cases kept
        · rename_i room
          split at kept
          · cases kept
          · rename_i visible
            refine ⟨Nat.not_le.mp room, fun none first => visible ?_, rest⟩
            rw [none, empty.mpr first]
            rfl

theorem readFresh_accepted (rl : Rlbuf) (fd : Fd) (line : Storage) :
    (∀ n, ∃ results, readFresh n rl fd line = .ok results) ↔
      Lines.Accepted NEWLINE accept [] fd := by
  have calls : (∀ n, ∃ replies, Lines.calls NEWLINE accept n [] fd = .ok replies) ↔
      Lines.Accepted NEWLINE accept (Lines.unfinished NEWLINE []) fd := Lines.calls_iff
  rw [show Lines.unfinished NEWLINE ([] : List UInt8) = [] from rfl] at calls
  rw [← calls]
  apply forall_congr'
  intro n
  rw [readFresh_calls]
  cases Lines.calls NEWLINE accept n [] fd with
  | error fault => simp [Except.map]
  | ok replies => simp [Except.map]

/-- No call leaves the buffers exactly when every read is safe where it comes. -/
theorem readFresh_inBounds_iff (rl : Rlbuf) (fd : Fd) (line : Storage) :
    (∀ n, ∃ results, readFresh n rl fd line = .ok results) ↔ Safe [] fd := by
  rw [readFresh_accepted, safe_iff]

/-- One NUL byte, on a fresh rlbuf. -/
theorem readFresh_leaves_buffers :
    ¬ ∀ (rl : Rlbuf) (fd : Fd) (line : Storage) (n : Nat),
      ∃ results, readFresh n rl fd line = .ok results := by
  intro inBounds
  have accepted := (readFresh_accepted ⟨USE_BUF, ⟨.inBuf, 0⟩, blank, blank⟩
    [some ⟨[0], by decide⟩] blank).mp (inBounds _ _ _)
  obtain ⟨v, kept, _⟩ := accepted
  rw [accept, if_neg (by decide), if_pos (by decide)] at kept
  cases kept

end Tlpi.LineBuffer
