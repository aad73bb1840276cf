import TlpiExercises.Library.Ranges
import TlpiExercises.LineBuffer.Stream
import TlpiExercises.SeqnumStream.Model

/-!
# What the clients are granted

However the bytes come in, a client prints the start of its own range, and the ranges follow each other
around the numbers of 32 bits.
-/

namespace Tlpi.SeqnumStream

open LineBuffer

/-! ### One call of the reader -/

/-- The bytes that come before a `read` fails. -/
def arrived : Fd → List UInt8
  | [] => []
  | none :: _ => []
  | some chunk :: fd => chunk.1 ++ arrived fd

theorem arrived_part (fd : Fd) : arrived fd <+: delivered fd := by
  induction fd with
  | nil => exact List.prefix_rfl
  | cons delivery fd ih =>
    cases delivery with
    | none => exact List.nil_prefix
    | some chunk => exact (List.prefix_append_right_inj chunk.1).mpr ih

/-- What a call replies that has `u` kept. -/
def reply (u : List UInt8) (fd : Fd) : Lines.Reply UInt8 :=
  match Lines.takeLine NEWLINE (u ++ arrived fd) with
  | some (line, _) => .line line
  | none => if none ∈ fd then .failed else .eof

theorem reply_line {u line more : List UInt8} (taken : Lines.takeLine NEWLINE u = some (line, more))
    (fd : Fd) : reply u fd = .line line := by
  obtain ⟨rfl, isLine⟩ := Lines.takeLine_some NEWLINE taken
  rw [reply, List.append_assoc, Lines.takeLine_line NEWLINE isLine]

theorem reply_chunk (u : List UInt8) (chunk : Chunk) (fd : Fd) :
    reply u (some chunk :: fd) = reply (u ++ chunk.1) fd := by
  rw [reply, reply, arrived, List.append_assoc]
  simp

/-- The reads have room. -/
theorem next_reply {u : List UInt8} {fd : Fd} (clean : NUL ∉ u ++ delivered fd)
    (room : (u ++ delivered fd).length < BUF_LEN) :
    ∃ v feed, Lines.next NEWLINE accept u fd = .ok (reply u fd, v, feed) := by
  induction fd generalizing u with
  | nil =>
    by_cases free : NEWLINE ∉ u
    · refine ⟨u, [], ?_⟩
      rw [Lines.next_eof free, reply, arrived, List.append_nil, (Lines.takeLine_eq_none NEWLINE).mpr free]
      rfl
    · obtain ⟨line, rest, taken⟩ := Lines.takeLine_exists NEWLINE free
      exact ⟨rest, _, by rw [Lines.next_line taken, reply_line taken]⟩
  | cons delivery fd ih =>
    by_cases free : NEWLINE ∉ u
    · cases delivery with
      | none =>
        refine ⟨u, fd, ?_⟩
        rw [Lines.next_failed free, reply, arrived, List.append_nil,
          (Lines.takeLine_eq_none NEWLINE).mpr free]
        simp
      | some chunk =>
        have whole : u ++ delivered (some chunk :: fd) = (u ++ chunk.1) ++ delivered fd :=
          (List.append_assoc _ _ _).symm
        rw [whole] at clean room
        have here : NUL ∉ chunk.1 := fun member =>
          clean (List.mem_append_left _ (List.mem_append_right _ member))
        have fits : ¬ BUF_LEN ≤ u.length + chunk.1.length := by
          rw [List.length_append, List.length_append] at room
          omega
        have nonempty : u ++ chunk.1 ≠ [] := fun none => chunk.2.1 (List.append_eq_nil_iff.mp none).2
        obtain ⟨v, feed, next⟩ := ih clean room
        refine ⟨v, feed, ?_⟩
        rw [Lines.next_chunk free, accept, if_neg fits, text_of_clean here, if_neg nonempty, reply_chunk]
        exact next
    · obtain ⟨line, rest, taken⟩ := Lines.takeLine_exists NEWLINE free
      exact ⟨rest, _, by rw [Lines.next_line taken, reply_line taken]⟩

/-- The first call on a fresh rlbuf. -/
theorem first_call (rl : Rlbuf) (line : Storage) {fd : Fd} (clean : NUL ∉ delivered fd)
    (room : (delivered fd).length < BUF_LEN) :
    ∃ rl' result, readLineBufInit rl = .ok rl' ∧
      readLineBuf rl' fd line = .ok result ∧ Matches result (reply [] fd) := by
  obtain ⟨rl', fresh, represents⟩ := readLineBufInit_represents rl
  obtain ⟨v, feed, next⟩ : ∃ v, _ := next_reply (u := []) clean room
  have refines := readLineBuf_refines fd line represents
  rw [next] at refines
  obtain ⟨result, call, _, _, same⟩ := refines
  exact ⟨rl', result, fresh, call, same⟩

/-- A line that has come is the first line of what was sent. -/
theorem reply_arrived {fd : Fd} {whole line rest : List UInt8} (part : delivered fd <+: whole)
    (taken : Lines.takeLine NEWLINE whole = some (line, rest)) :
    reply [] fd =
      if NEWLINE ∈ arrived fd then .line line else if none ∈ fd then .failed else .eof := by
  by_cases come : NEWLINE ∈ arrived fd
  · obtain ⟨first, more, found⟩ := Lines.takeLine_exists NEWLINE (not_not.mpr come)
    obtain ⟨same, isLine⟩ := Lines.takeLine_some NEWLINE found
    obtain ⟨behind, rfl⟩ := (arrived_part fd).trans part
    rw [same, List.append_assoc, Lines.takeLine_line NEWLINE isLine] at taken
    have lines : first = line := congrArg Prod.fst (Option.some.inj taken)
    rw [if_pos come, reply, List.nil_append, found, lines]
  · rw [if_neg come, reply, List.nil_append, (Lines.takeLine_eq_none NEWLINE).mpr come]

/-! ### One client -/

/-- The first line of the request. -/
def Session.line (σ : Session) : List UInt8 :=
  (requestOf σ.argument).takeWhile (· ≠ NEWLINE) ++ [NEWLINE]

/-- How many numbers a client is granted, where its line comes to the server before a `read` fails. -/
def Session.amount (σ : Session) : Nat := if NEWLINE ∈ arrived σ.request.1 then (atoi σ.line).toNat else 0

/-- `%d\n` of a counter that does not come round. -/
def numberLine (start : Nat) : List UInt8 := formatInt (toInt start) ++ [NEWLINE]

theorem takeLine_request (σ : Session) :
    ∃ more, Lines.takeLine NEWLINE (requestOf σ.argument) = some (σ.line, more) := by
  have whole := List.takeWhile_append_dropWhile (p := (· ≠ NEWLINE)) (l := requestOf σ.argument)
  have free : NEWLINE ∉ (requestOf σ.argument).takeWhile (· ≠ NEWLINE) := by
    intro member
    have other := List.mem_takeWhile_imp member
    simp at other
  cases rest : (requestOf σ.argument).dropWhile (· ≠ NEWLINE) with
  | nil =>
    have all := List.dropWhile_eq_nil_iff.mp rest NEWLINE (List.mem_append_right _ List.mem_cons_self)
    simp at all
  | cons c more =>
    have stops : c = NEWLINE := by
      have head := List.head?_dropWhile_not (p := (· ≠ NEWLINE)) (requestOf σ.argument)
      rw [rest] at head
      simpa using head
    refine ⟨more, ?_⟩
    conv_lhs => rw [← whole, rest, stops]
    exact Lines.takeLine_append NEWLINE free

theorem request_prefix (σ : Session) : delivered σ.request.1 <+: requestOf σ.argument :=
  σ.request.2.1.trans (List.take_prefix _ _)

theorem request_clean (argument : Option CStr) : NUL ∉ requestOf argument := by
  intro member
  rcases List.mem_append.mp member with text | last
  · cases argument with
    | none => cases List.mem_singleton.mp text
    | some argument => exact argument.nulFree text
  · cases List.mem_singleton.mp last

theorem numberLine_mod (start : Nat) : numberLine (start % 2 ^ 32) = numberLine start := by
  have same : ((start % 2 ^ 32 : Nat) : Int) % (2 ^ 32 : Nat) = (start : Int) % (2 ^ 32 : Nat) := by
    omega
  rw [numberLine, numberLine, toInt, toInt, Int.bmod_def, Int.bmod_def, same]

theorem numberLine_length (start : Nat) : (numberLine start).length ≤ 12 := by
  obtain ⟨low, high⟩ := toInt_range start
  have digits := formatInt_length low high
  rw [numberLine, List.length_append]
  exact Nat.add_le_add_right digits 1

theorem numberLine_clean (start : Nat) : NUL ∉ numberLine start := by
  intro member
  rcases List.mem_append.mp member with digit | last
  · exact formatInt_free _ (by decide) (by decide) digit
  · cases List.mem_singleton.mp last

/-- The number of a granted range as far as the server could write it, or nothing. -/
def answer (start : Nat) (σ : Session) : List UInt8 :=
  if σ.amount = 0 then [] else (numberLine start).take σ.takes

theorem advance_toNat (seqNum : UInt32) {n : Int} (positive : 0 < n) :
    (seqNum + UInt32.ofInt n).toNat = (seqNum.toNat + n.toNat) % 2 ^ 32 := by
  have converted : (UInt32.ofInt n).toNat = n.toNat % 2 ^ 32 := by
    rw [UInt32.ofInt, UInt32.toNat_ofNat']
    omega
  rw [UInt32.toNat_add, converted]
  omega

theorem handle_session (s : Server) (σ : Session) (fits : (requestOf σ.argument).length < BUF_LEN) : ∃ t,
    handle s ⟨σ.request.1, σ.takes⟩ = .ok (t, answer s.seqNum.toNat σ) ∧
      t.seqNum.toNat = (s.seqNum.toNat + σ.amount) % 2 ^ 32 := by
  have part := request_prefix σ
  obtain ⟨rl, result, fresh, call, same⟩ := first_call s.rlbuf s.reqLenStr
    (fun member => request_clean σ.argument (part.subset member)) (part.length_le.trans_lt fits)
  obtain ⟨more, taken⟩ := takeLine_request σ
  rw [reply_arrived part taken] at same
  have small := UInt32.toNat_lt s.seqNum
  by_cases come : NEWLINE ∈ arrived σ.request.1
  · rw [if_pos come] at same
    obtain ⟨rv, clean, junk, held⟩ := same
    have text := text_held held clean
    have some : ¬ result.rv ≤ 0 := by
      rw [rv, Session.line, List.length_append, List.length_singleton]
      omega
    have round : handle s ⟨σ.request.1, σ.takes⟩ =
        if atoi σ.line ≤ 0 then .ok (⟨s.seqNum, result.rl, result.line⟩, [])
        else .ok (⟨s.seqNum + UInt32.ofInt (atoi σ.line), result.rl, result.line⟩,
          (seqNumStr s.seqNum).take σ.takes) := by
      unfold handle
      rw [fresh, ok_bind, call, ok_bind]
      dsimp only
      rw [if_neg some, text]
      rfl
    have amount : σ.amount = (atoi σ.line).toNat := if_pos come
    rw [round, answer, amount]
    by_cases refused : atoi σ.line ≤ 0
    · refine ⟨⟨s.seqNum, result.rl, result.line⟩, ?_, ?_⟩
      · rw [if_pos refused, if_pos (Int.toNat_eq_zero.mpr refused)]
      · rw [Int.toNat_eq_zero.mpr refused, Nat.add_zero, Nat.mod_eq_of_lt small]
    · refine ⟨⟨s.seqNum + UInt32.ofInt (atoi σ.line), result.rl, result.line⟩, ?_, ?_⟩
      · rw [if_neg refused, if_neg fun none => refused (Int.toNat_eq_zero.mp none)]
        rfl
      · exact advance_toNat s.seqNum (Int.not_le.mp refused)
  · rw [if_neg come] at same
    have nothing : result.rv ≤ 0 := by
      split at same
      · have failed : result.rv = -1 := same
        omega
      · have eof : result.rv = 0 := same
        omega
    have amount : σ.amount = 0 := if_neg come
    refine ⟨⟨s.seqNum, result.rl, result.line⟩, ?_, ?_⟩
    · unfold handle
      rw [fresh, ok_bind, call, ok_bind, answer, if_pos amount]
      dsimp only
      rw [if_pos nothing]
      rfl
    · rw [amount, Nat.add_zero, Nat.mod_eq_of_lt small]

theorem answer_part (start : Nat) (σ : Session) : answer start σ <+: numberLine start := by
  unfold answer
  split
  · exact List.nil_prefix
  · exact List.take_prefix _ _

/-- What the client of a session ends with. -/
def ending (start : Nat) (σ : Session) : ClientEnd :=
  if σ.sends < (requestOf σ.argument).length then .partialWrite
  else if 0 < σ.amount ∧ arrived (σ.arrives (answer start σ)).1 = numberLine start then
    .printed (LABEL ++ numberLine start)
  else if none ∈ (σ.arrives (answer start σ)).1 then .readLineFailed
  else .unexpectedEof

theorem line_arrived (start : Nat) (σ : Session) : NEWLINE ∈ arrived (σ.arrives (answer start σ)).1 ↔
    0 < σ.amount ∧ arrived (σ.arrives (answer start σ)).1 = numberLine start := by
  have part := (arrived_part _).trans (σ.arrives (answer start σ)).2.1
  generalize arrived (σ.arrives (answer start σ)).1 = come at part
  constructor
  · intro member
    have granted : σ.amount ≠ 0 := by
      intro refused
      rw [answer, if_pos refused, List.prefix_nil] at part
      rw [part] at member
      cases member
    refine ⟨Nat.pos_of_ne_zero granted, ?_⟩
    rcases List.prefix_concat_iff.mp (part.trans (answer_part start σ)) with whole | cut
    · exact whole
    · exact absurd (cut.subset member) (formatInt_free _ (by decide) (by decide))
  · rintro ⟨_, whole⟩
    rw [whole]
    exact List.mem_append_right _ List.mem_cons_self

theorem client_session (σ : Session) (start : Nat) :
    client σ.argument σ.sends σ.rlbuf (σ.arrives (answer start σ)).1 σ.seqNumStr =
      .ok (ending start σ) := by
  have part := (σ.arrives (answer start σ)).2.1.trans (answer_part start σ)
  have short := numberLine_length start
  have fits : (delivered (σ.arrives (answer start σ)).1).length < BUF_LEN :=
    (part.length_le.trans short).trans_lt (by decide)
  obtain ⟨rl, result, fresh, call, same⟩ := first_call σ.rlbuf σ.seqNumStr
    (fun member => numberLine_clean start (part.subset member)) fits
  have taken : Lines.takeLine NEWLINE (numberLine start) = some (numberLine start, []) :=
    Lines.takeLine_append NEWLINE (formatInt_free _ (by decide) (by decide))
  rw [reply_arrived part taken] at same
  simp only [line_arrived] at same
  unfold client ending
  by_cases cut : σ.sends < (requestOf σ.argument).length
  · rw [if_pos cut, if_pos cut]
    rfl
  rw [if_neg cut, if_neg cut, fresh]
  simp only [ok_bind, call]
  by_cases whole : 0 < σ.amount ∧ arrived (σ.arrives (answer start σ)).1 = numberLine start
  · rw [if_pos whole] at same ⊢
    obtain ⟨rv, clean, junk, held⟩ := same
    have some : 0 < (numberLine start).length := by
      rw [numberLine, List.length_append]
      exact Nat.succ_pos _
    rw [if_neg (by rw [rv, MAX_MSG_LEN]; omega), if_neg (by omega), if_neg (by omega),
      text_held held clean, pure_eq_ok]
  · rw [if_neg whole] at same ⊢
    by_cases reset : none ∈ (σ.arrives (answer start σ)).1
    · rw [if_pos reset] at same ⊢
      have rv : result.rv = -1 := same
      rw [if_neg (by rw [rv]; decide), if_pos rv, pure_eq_ok]
    · rw [if_neg reset] at same ⊢
      have rv : result.rv = 0 := same
      rw [if_neg (by rw [rv]; decide), if_neg (by rw [rv]; decide), if_pos rv, pure_eq_ok]

/-! ### All clients -/

def amounts (sessions : List (Option Session)) : List Nat :=
  (sessions.filterMap id).map Session.amount

/-- Each client has the numbers behind those of the client before. -/
def endings (start : Nat) : List Session → List ClientEnd
  | [] => []
  | σ :: sessions => ending start σ :: endings (start + σ.amount) sessions

theorem endings_mod (start : Nat) (sessions : List Session) :
    endings (start % 2 ^ 32) sessions = endings start sessions := by
  induction sessions generalizing start with
  | nil => rfl
  | cons σ sessions ih =>
    have same : answer (start % 2 ^ 32) σ = answer start σ := by
      rw [answer, answer, numberLine_mod]
    have here : ending (start % 2 ^ 32) σ = ending start σ := by
      rw [ending, ending, numberLine_mod, same]
    have later : endings (start % 2 ^ 32 + σ.amount) sessions =
        endings (start + σ.amount) sessions := by
      rw [← ih (start % 2 ^ 32 + σ.amount), Nat.mod_add_mod, ih (start + σ.amount)]
    rw [endings, endings, here, later]

theorem serve_sessions (s : Server) (sessions : List (Option Session))
    (fits : ∀ σ, some σ ∈ sessions → (requestOf σ.argument).length < BUF_LEN) : ∃ t,
    serve s sessions = .ok (t, endings s.seqNum.toNat (sessions.filterMap id)) ∧
      t.seqNum.toNat = (s.seqNum.toNat + (amounts sessions).sum) % 2 ^ 32 := by
  induction sessions generalizing s with
  | nil =>
    have small := UInt32.toNat_lt s.seqNum
    exact ⟨s, rfl, (Nat.mod_eq_of_lt small).symm⟩
  | cons accepted sessions ih =>
    have later := fun σ member => fits σ (List.mem_cons_of_mem _ member)
    cases accepted with
    | none => exact ih s later
    | some σ =>
      obtain ⟨t, handled, counter⟩ := handle_session s σ (fits σ List.mem_cons_self)
      obtain ⟨u, served, total⟩ := ih t later
      refine ⟨u, ?_, ?_⟩
      · rw [counter, endings_mod] at served
        rw [serve, handled, ok_bind]
        dsimp only
        rw [client_session, ok_bind, served]
        rfl
      · rw [total, counter, Nat.mod_add_mod, Nat.add_assoc]
        rfl

theorem amount_le (σ : Session) : σ.amount ≤ 2 ^ 32 := by
  have high := (toInt_range (strtol σ.line).value).2
  unfold INT_MAX at high
  unfold Session.amount atoi
  split
  · omega
  · exact Nat.zero_le _

/-- Each client whose request comes to the server as a positive number, and to which the answer comes,
prints the number behind those of all clients before it, as a number of 32 bits; the others print none. No
number is granted twice exactly while the counter has not come round. -/
theorem granted_apart_iff (s : Server) (sessions : List (Option Session))
    (fits : ∀ σ, some σ ∈ sessions → (requestOf σ.argument).length < BUF_LEN) :
    (∃ t, serve s sessions = .ok (t, endings s.seqNum.toNat (sessions.filterMap id))) ∧
    ((Ranges.ranges (2 ^ 32) s.seqNum.toNat (amounts sessions)).Pairwise Disjoint ↔
      (amounts sessions).sum ≤ 2 ^ 32) := by
  obtain ⟨t, served, _⟩ := serve_sessions s sessions fits
  refine ⟨⟨t, served⟩, Ranges.disjoint_iff (Nat.two_pow_pos 32) ?_⟩
  intro len member
  obtain ⟨σ, _, rfl⟩ := List.mem_map.mp member
  exact amount_le σ

theorem delivers_failure (sent : List UInt8) : Delivers [none] sent :=
  ⟨List.nil_prefix, fun ok => absurd List.mem_cons_self ok⟩

theorem delivers_chunk (chunk : Chunk) : Delivers [some chunk] chunk.1 := by
  have same : delivered [some chunk] = chunk.1 := List.append_nil _
  exact ⟨same ▸ List.prefix_rfl, fun _ => same⟩

/-- An answer in one piece. -/
def atOnce (answer : List UInt8) : { fd : Fd // Delivers fd answer } :=
  if fits : answer ≠ [] ∧ answer.length ≤ MAX_MSG_LEN then ⟨[some ⟨answer, fits⟩], delivers_chunk _⟩
  else ⟨[none], delivers_failure answer⟩

/-- `10` in two pieces. -/
def splitRequest : Session where
  argument := some ⟨[49, 48], by decide⟩
  sends := 3
  request := ⟨[some ⟨[49], by decide⟩, some ⟨[48, 10], by decide⟩], by decide, fun _ => rfl⟩
  takes := 12
  arrives := atOnce
  rlbuf := ⟨USE_BUF, ⟨.inBuf, 0⟩, blank, blank⟩
  seqNumStr := blank

/-- `0` and a newline, behind which the connection is reset. -/
def resetRequest : Session where
  argument := some ⟨[48, 10], by decide⟩
  sends := 3
  request := ⟨[some ⟨[48, 10, 10], by decide⟩], by decide, fun _ => rfl⟩
  takes := 12
  arrives := fun answer => ⟨[none], delivers_failure answer⟩
  rlbuf := ⟨USE_BUF, ⟨.inBuf, 0⟩, blank, blank⟩
  seqNumStr := blank

theorem granted_apart_sample :
    (∃ t, serve ⟨7, ⟨USE_BUF, ⟨.inBuf, 0⟩, blank, blank⟩, blank⟩
      [some splitRequest, none, some resetRequest, some splitRequest] =
        .ok (t, [.printed (LABEL ++ [55, 10]), .readLineFailed, .printed (LABEL ++ [49, 55, 10])])) ∧
    ((Ranges.ranges (2 ^ 32) 7 [10, 0, 10]).Pairwise Disjoint ↔ [10, 0, 10].sum ≤ 2 ^ 32) := by
  have fits (σ : Session) (member : some σ ∈ [some splitRequest, none, some resetRequest, some splitRequest]) :
      (requestOf σ.argument).length < BUF_LEN := by
    simp only [List.mem_cons, Option.some.injEq, reduceCtorEq, List.not_mem_nil, false_or, or_false] at member
    rcases member with rfl | rfl | rfl
    · decide
    · decide
    · decide
  obtain ⟨served, apart⟩ := granted_apart_iff ⟨7, ⟨USE_BUF, ⟨.inBuf, 0⟩, blank, blank⟩, blank⟩ _ fits
  have amounts : amounts [some splitRequest, none, some resetRequest, some splitRequest] = [10, 0, 10] := by
    decide
  have endings : endings 7 [splitRequest, resetRequest, splitRequest] =
      [.printed (LABEL ++ [55, 10]), .readLineFailed, .printed (LABEL ++ [49, 55, 10])] := by
    decide
  rw [amounts] at apart
  rw [← endings]
  exact ⟨served, apart⟩

end Tlpi.SeqnumStream
