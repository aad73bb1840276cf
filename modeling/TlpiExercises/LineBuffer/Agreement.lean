import TlpiExercises.LineBuffer.Stream
import TlpiExercises.LineBuffer.ReadLine

/-!
# The two line readers on one stream

`read_line_buf` gets the bytes in chunks, cut anywhere, and `readLine` gets them one by one.
-/

namespace Tlpi.LineBuffer

/-- The results of calls in a row up to the first 0, with that one. -/
def upToZero : List (Int × List UInt8) → List (Int × List UInt8)
  | [] => []
  | r :: rest => if r.1 = 0 then [r] else r :: upToZero rest

def bytesOf (chunks : List Chunk) : List UInt8 := delivered (chunks.map some)

/-- However many calls are made of each reader, neither faults and up to the first 0 they return
the same. -/
def Agree (rl : Rlbuf) (line : Storage) (chunks : List Chunk) (n : Nat) (buffer : List UInt8) :
    Prop :=
  ∀ k, ∃ buffered plain, readFresh k rl (chunks.map some) line = .ok buffered ∧
    Plain.readLines n k (some buffer) ((bytesOf chunks).map .ok) = .ok plain ∧
    upToZero buffered = upToZero plain

theorem mem_of_mem_upToZero {r : Int × List UInt8} {results : List (Int × List UInt8)}
    (member : r ∈ upToZero results) : r ∈ results := by
  induction results with
  | nil => cases member
  | cons first rest ih =>
    rw [upToZero] at member
    split at member
    · rw [List.mem_singleton.mp member]
      exact List.mem_cons_self
    · rcases List.mem_cons.mp member with rfl | member
      · exact List.mem_cons_self
      · exact List.mem_cons_of_mem _ (ih member)

theorem upToZero_nonzero {results rest : List (Int × List UInt8)} (nonzero : ∀ r ∈ results, r.1 ≠ 0) :
    upToZero (results ++ rest) = results ++ upToZero rest := by
  induction results with
  | nil => rfl
  | cons first results ih =>
    rw [List.forall_mem_cons] at nonzero
    rw [List.cons_append, upToZero, if_neg nonzero.1, ih nonzero.2]
    rfl

section Stream

variable {chunks : List Chunk} {n : Nat} {buffer : List UInt8}

theorem readFresh_isLine {rl : Rlbuf} {fd : Fd} {line : Storage} {k : Nat} {bytes : List UInt8}
    {results : List (Int × List UInt8)} (run : readFresh k rl fd line = .ok results)
    (member : ((bytes.length : Int), bytes) ∈ results) (nonempty : bytes ≠ []) :
    Lines.IsLine NEWLINE bytes := by
  rw [readFresh_calls] at run
  cases calls : Lines.calls NEWLINE accept k [] fd with
  | error fault =>
    rw [calls] at run
    cases run
  | ok replies =>
    rw [calls] at run
    obtain rfl := Except.ok.inj run
    obtain ⟨reply, inside, same⟩ := List.mem_map.mp member
    cases reply with
    | line l =>
      obtain rfl : l = bytes := congrArg Prod.snd same
      exact Lines.calls_isLine calls inside
    | eof => exact absurd (congrArg Prod.snd same).symm nonempty
    | failed => exact absurd (congrArg Prod.snd same).symm nonempty

theorem plain_split (k : Nat) (clean : NUL ∉ bytesOf chunks)
    (short : ∀ l ∈ Lines.split NEWLINE (bytesOf chunks), l.length ≤ MAX_MSG_LEN)
    (room : MAX_MSG_LEN < n) (size : buffer.length = n) :
    Plain.readLines n k (some buffer) ((bytesOf chunks).map .ok) =
      .ok (((Lines.split NEWLINE (bytesOf chunks)).map
        (fun l : List UInt8 => ((l.length : Int), l)) ++ List.replicate k (0, [])).take k) :=
  Plain.readLines_split k size (by omega) clean (fun l m => lt_of_le_of_lt (short l m) room)

theorem readFresh_finished (k : Nat) (rl : Rlbuf) (line : Storage) (clean : NUL ∉ bytesOf chunks)
    (short : ∀ l ∈ Lines.split NEWLINE (bytesOf chunks), l.length ≤ MAX_MSG_LEN)
    (finished : ∀ l ∈ Lines.split NEWLINE (bytesOf chunks), Lines.IsLine NEWLINE l) :
    readFresh k rl (chunks.map some) line =
      .ok (((Lines.split NEWLINE (bytesOf chunks)).map
        (fun l : List UInt8 => ((l.length : Int), l)) ++ List.replicate k (0, [])).take k) := by
  have good : ∀ l ∈ Lines.split NEWLINE (bytesOf chunks),
      Lines.IsLine NEWLINE l ∧ NUL ∉ l ∧ l.length ≤ MAX_MSG_LEN := by
    intro l member
    refine ⟨finished l member, fun nul => clean ?_, short l member⟩
    rw [← Lines.flatten_split NEWLINE (bytesOf chunks)]
    exact List.mem_flatten_of_mem member nul
  obtain ⟨results, run, length, failures, order⟩ := readFresh_lines good
    (Lines.flatten_split NEWLINE (bytesOf chunks)).symm k rl line
  have noFailure : (chunks.map some).countP Option.isNone = 0 := by
    rw [List.countP_map]
    exact List.countP_eq_zero.mpr (fun _ _ => by simp)
  rw [noFailure, Nat.le_zero, List.countP_eq_zero] at failures
  have whole : results.filter (fun r => r.1 ≠ -1) = results := by
    apply List.filter_eq_self.mpr
    intro r member
    simpa using failures r member
  rw [whole, List.prefix_iff_eq_take, length] at order
  rw [run, order]

/-- The plain reader returns every line of the stream, so the buffered one does where they agree. -/
theorem finished_of_agree {rl : Rlbuf} {line : Storage} (agree : Agree rl line chunks n buffer)
    (clean : NUL ∉ bytesOf chunks)
    (short : ∀ l ∈ Lines.split NEWLINE (bytesOf chunks), l.length ≤ MAX_MSG_LEN)
    (room : MAX_MSG_LEN < n) (size : buffer.length = n) :
    ∀ l ∈ Lines.split NEWLINE (bytesOf chunks), Lines.IsLine NEWLINE l := by
  intro l member
  obtain ⟨buffered, plain, run, same, upTo⟩ := agree (Lines.split NEWLINE (bytesOf chunks)).length
  rw [plain_split _ clean short room size] at same
  obtain rfl := Except.ok.inj same
  have nonzero : ∀ r ∈ (Lines.split NEWLINE (bytesOf chunks)).map
      (fun l : List UInt8 => ((l.length : Int), l)), r.1 ≠ 0 := by
    intro r inside
    obtain ⟨l, member, rfl⟩ := List.mem_map.mp inside
    simpa using Lines.nonempty_of_mem_split NEWLINE member
  rw [List.take_left' (List.length_map _), ← List.append_nil (List.map _ _),
    upToZero_nonzero nonzero] at upTo
  have returned : ((l.length : Int), l) ∈ upToZero buffered := by
    rw [upTo]
    exact List.mem_append_left _ (List.mem_map_of_mem member)
  exact readFresh_isLine run (mem_of_mem_upToZero returned)
    (Lines.nonempty_of_mem_split NEWLINE member)

/-- The readers agree exactly on the streams that do not stop inside a line. -/
theorem agree_iff (rl : Rlbuf) (line : Storage) (clean : NUL ∉ bytesOf chunks)
    (short : ∀ l ∈ Lines.split NEWLINE (bytesOf chunks), l.length ≤ MAX_MSG_LEN)
    (room : MAX_MSG_LEN < n) (size : buffer.length = n) :
    Agree rl line chunks n buffer ↔ ∀ c ∈ (bytesOf chunks).getLast?, c = NEWLINE := by
  rw [← Lines.split_finished]
  constructor
  · intro agree
    exact finished_of_agree agree clean short room size
  · intro finished k
    exact ⟨_, _, readFresh_finished k rl line clean short finished,
      plain_split k clean short room size, rfl⟩

end Stream

/-- "x\ny\n", cut inside the first line. -/
def finishedChunks : List Chunk := [⟨[120], by decide⟩, ⟨[10, 121, 10], by decide⟩]

theorem agree_iff_finished :
    Agree ⟨7, ⟨.inSwap, 9⟩, blank, blank⟩ blank finishedChunks BUF_LEN blank.1 ↔
      ∀ c ∈ (bytesOf finishedChunks).getLast?, c = NEWLINE :=
  agree_iff ⟨7, ⟨.inSwap, 9⟩, blank, blank⟩ blank (by decide) (by decide) (by decide) blank.2

/-- The stream "a": `readLine` returns it, and `read_line_buf` returns 0. -/
theorem agree_fails_unfinished :
    ¬ ∀ (rl : Rlbuf) (line : Storage) (chunks : List Chunk) (n : Nat) (buffer : List UInt8),
      NUL ∉ bytesOf chunks →
      (∀ l ∈ Lines.split NEWLINE (bytesOf chunks), l.length ≤ MAX_MSG_LEN) →
      MAX_MSG_LEN < n → buffer.length = n → Agree rl line chunks n buffer := by
  intro all
  have short : ∀ l ∈ Lines.split NEWLINE (bytesOf [⟨[97], by decide⟩]),
      l.length ≤ MAX_MSG_LEN := by decide
  have agree := all ⟨USE_BUF, ⟨.inBuf, 0⟩, blank, blank⟩ blank [⟨[97], by decide⟩] BUF_LEN blank.1
    (by decide) short (by decide) blank.2
  obtain ⟨body, same, _⟩ := finished_of_agree agree (by decide) short (by decide) blank.2 [97]
    List.mem_cons_self
  have last := congrArg List.getLast? same
  rw [List.getLast?_append_of_ne_nil _ (List.cons_ne_nil _ _)] at last
  exact absurd last (by decide)

end Tlpi.LineBuffer
