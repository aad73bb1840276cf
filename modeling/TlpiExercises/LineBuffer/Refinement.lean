import TlpiExercises.LineBuffer.Model
import TlpiExercises.Library.Lines

/-!
# The buffered reader as a line reader

Between calls an rlbuf stands for the bytes that it has read and not returned. A call of
`read_line_buf` acts on them as the line reader of the library does, with `accept` for what one
`read` adds: it leaves a fault exactly where `accept` does.
-/

namespace Tlpi.LineBuffer

/-- The part of a chunk that the scan can see. -/
def text (bytes : List UInt8) : List UInt8 := bytes.takeWhile (· ≠ NUL)

/-- What a chunk adds to the bytes that are kept. -/
def accept (u : List UInt8) (chunk : Chunk) : Except Fault (List UInt8) :=
  if BUF_LEN ≤ u.length + chunk.1.length then .error .outOfBounds
  else if u ++ text chunk.1 = [] then .error .outOfBounds
  else .ok (u ++ text chunk.1)

def Member.type : Member → Int
  | .inBuf => USE_BUF
  | .inSwap => USE_SWAP

/-- `next_char` is at the terminator behind an unfinished line. -/
structure Drained (rl : Rlbuf) (u : List UInt8) : Prop where
  current : rl.bufType = rl.nextChar.member.type
  atEnd : rl.nextChar.index = u.length
  held : ∃ junk, (rl.storage rl.nextChar.member).1 = u ++ NUL :: junk
  clean : NUL ∉ u
  unfinished : NEWLINE ∉ u

/-- `next_char` is at the first of the bytes. -/
structure Buffered (rl : Rlbuf) (u : List UInt8) : Prop where
  current : rl.bufType = rl.nextChar.member.type
  held : ∃ junk, (rl.storage rl.nextChar.member).1.drop rl.nextChar.index = u ++ NUL :: junk
  clean : NUL ∉ u
  nonempty : u ≠ []

def Represents (rl : Rlbuf) (u : List UInt8) : Prop := Drained rl u ∨ Buffered rl u

/-- The return value of a call, and its line, as the line reader replies. -/
def Matches (result : Result) : Lines.Reply UInt8 → Prop
  | .line l => result.rv = l.length ∧ NUL ∉ l ∧ ∃ junk, result.line.1 = l ++ NUL :: junk
  | .eof => result.rv = 0
  | .failed => result.rv = -1

def Refines (code : Except Fault Result) :
    Except Fault (Lines.Reply UInt8 × List UInt8 × Fd) → Prop
  | .error fault => code = .error fault
  | .ok (reply, u, fd) => ∃ result, code = .ok result ∧ result.fd = fd ∧
      Represents result.rl u ∧ Matches result reply

/-! ### Buffers -/

theorem store_ok (s : Storage) (i : Nat) (bytes : List UInt8) (fits : i + bytes.length ≤ BUF_LEN) :
    ∃ s' : Storage, s.store i bytes = .ok s' ∧
      s'.1 = s.1.take i ++ bytes ++ s.1.drop (i + bytes.length) := by
  have written : Buffer.write s.1 i bytes =
      some (s.1.take i ++ bytes ++ s.1.drop (i + bytes.length)) :=
    Buffer.write_eq (by rw [s.2]; exact fits)
  unfold Storage.store
  split
  · rename_i b h
    exact ⟨_, rfl, Option.some.inj (h.symm.trans written)⟩
  · rename_i h
    rw [written] at h
    cases h

theorem store_overflow (s : Storage) {i : Nat} {bytes : List UInt8}
    (long : BUF_LEN < i + bytes.length) : s.store i bytes = .error .outOfBounds := by
  have refused : Buffer.write s.1 i bytes = none :=
    Buffer.write_eq_none.mpr (by rw [s.2]; exact long)
  unfold Storage.store
  split
  · rename_i b h
    rw [refused] at h
    cases h
  · rfl

theorem store_terminated {s : Storage} {u junk : List UInt8} (bytes : List UInt8) (held : s.1 = u ++ junk)
    (fits : u.length + bytes.length < BUF_LEN) :
    ∃ s' s'' : Storage, s.store u.length bytes = .ok s' ∧
      s'.store (u.length + bytes.length) [NUL] = .ok s'' ∧
      ∃ junk', s''.1 = u ++ bytes ++ NUL :: junk' := by
  obtain ⟨s', first, content⟩ := store_ok s u.length bytes (by omega)
  obtain ⟨s'', second, content'⟩ := store_ok s' (u.length + bytes.length) [NUL]
    (by rw [List.length_singleton]; omega)
  refine ⟨s', s'', first, second, s'.1.drop (u.length + bytes.length + 1), ?_⟩
  have before : s'.1.take (u.length + bytes.length) = u ++ bytes := by
    rw [content, held, List.take_left, ← List.length_append, List.take_left]
  rw [content', before, List.append_assoc, List.length_singleton]
  rfl

theorem copyTerminated_ok (dest : Storage) {src : Storage} {i : Nat} {u rest : List UInt8}
    (held : src.1.drop i = u ++ rest) (inside : i ≤ BUF_LEN) (fits : u.length < BUF_LEN) :
    ∃ dest', copyTerminated dest src i u.length = .ok dest' ∧
      ∃ junk, dest'.1 = u ++ NUL :: junk := by
  obtain ⟨s', s'', first, second, content⟩ := store_terminated u
    (show dest.1 = [] ++ dest.1 from rfl) (by rw [List.length_nil]; omega)
  rw [List.length_nil, Nat.zero_add] at second
  refine ⟨s'', ?_, content⟩
  have read := Buffer.read_drop held (by rw [src.2]; exact inside)
  unfold copyTerminated Storage.loadRun
  simp only [read, ok_bind]
  rw [← List.length_nil (α := UInt8), first]
  exact second

theorem load_drop {s : Storage} {i : Nat} {u : List UInt8} {c : UInt8} {rest : List UInt8}
    (held : s.1.drop i = u ++ c :: rest) : s.load (i + u.length) = .ok c := by
  have cell := congrArg (fun l => l[u.length]?) held
  simp only [List.getElem?_drop, List.getElem?_append_right (le_refl u.length), Nat.sub_self,
    List.getElem?_cons_zero] at cell
  rw [Storage.load, cell]

theorem drop_length {s : Storage} {i : Nat} {u rest : List UInt8} {c : UInt8}
    (held : s.1.drop i = u ++ c :: rest) : i + u.length < BUF_LEN := by
  have length := congrArg List.length held
  rw [List.length_drop, s.2, List.length_append, List.length_cons] at length
  omega

@[simp] theorem storage_setStorage (rl : Rlbuf) (s : Storage) (m : Member) :
    (rl.setStorage s m).storage m = s := by cases m <;> rfl

@[simp] theorem storage_moved (rl : Rlbuf) (t : Int) (p : Pointer) (m : Member) :
    ({ rl with bufType := t, nextChar := p } : Rlbuf).storage m = rl.storage m := by cases m <;> rfl

theorem loadBefore_succ (rl : Rlbuf) (m : Member) (i : Nat) :
    rl.loadBefore ⟨m, i + 1⟩ = (rl.storage m).load i := rfl

@[simp] theorem setStorage_nextChar (rl : Rlbuf) (s : Storage) (m : Member) :
    (rl.setStorage s m).nextChar = rl.nextChar := by cases m <;> rfl

@[simp] theorem setStorage_bufType (rl : Rlbuf) (s : Storage) (m : Member) :
    (rl.setStorage s m).bufType = rl.bufType := by cases m <;> rfl

/-! ### The scan -/

/-- The scan stops behind bytes that are neither where it would have stopped at once. -/
theorem scan_clean {u rest : List UInt8} {stop : Stop} (clean : NUL ∉ u) (free : NEWLINE ∉ u)
    (stops : scan rest = .ok (stop, 0)) : scan (u ++ rest) = .ok (stop, u.length) := by
  induction u with
  | nil => exact stops
  | cons c u ih =>
    rw [List.mem_cons, not_or] at clean free
    rw [List.cons_append, scan, if_neg (Ne.symm clean.1), if_neg (Ne.symm free.1), ih clean.2 free.2]
    rfl

theorem scan_newline {u rest : List UInt8} (clean : NUL ∉ u) (free : NEWLINE ∉ u) :
    scan (u ++ NEWLINE :: rest) = .ok (.newline, u.length) := scan_clean clean free rfl

theorem scan_nul {u rest : List UInt8} (clean : NUL ∉ u) (free : NEWLINE ∉ u) :
    scan (u ++ NUL :: rest) = .ok (.nul, u.length) := scan_clean clean free rfl

/-! ### One message -/

section Message

variable {self : Rlbuf → Fd → Storage → Except Fault Result} {rl : Rlbuf} {fd : Fd} {line : Storage}

theorem nextMessage_line {u l rest : List UInt8} (buffered : Buffered rl u)
    (taken : Lines.takeLine NEWLINE u = some (l, rest)) :
    ∃ result, nextMessage self rl rl.nextChar.member fd line = .ok result ∧ result.fd = fd ∧
      Represents result.rl rest ∧ Matches result (.line l) := by
  obtain ⟨rfl, body, rfl, free⟩ := Lines.takeLine_some NEWLINE taken
  obtain ⟨junk, held⟩ := buffered.held
  have clean := buffered.clean
  rw [List.mem_append, not_or] at clean
  have cleanBody : NUL ∉ body := fun h => clean.1 (List.mem_append_left _ h)
  have scanned : scan ((rl.storage rl.nextChar.member).1.drop rl.nextChar.index) =
      .ok (.newline, body.length) := by
    rw [held, List.append_assoc, List.append_assoc]
    exact scan_newline cleanBody free
  have room := drop_length held
  rw [List.length_append] at room
  rw [List.append_assoc (body ++ [NEWLINE])] at held
  have length : (body ++ [NEWLINE]).length = body.length + 1 := by simp
  obtain ⟨line', copied, lineContent⟩ := copyTerminated_ok line held (by omega) (by omega)
  rw [length] at copied room
  have reply : ((body.length + 1 : Nat) : Int) = (body ++ [NEWLINE]).length := by
    rw [List.length_append, List.length_singleton]
  unfold nextMessage
  simp only [scanned, ok_bind, Rlbuf.load, Pointer.add, storage_moved]
  cases rest with
  | nil =>
    have loaded := load_drop held
    rw [length] at loaded
    obtain ⟨s', written, after⟩ := store_ok (rl.storage rl.nextChar.member) 0 [NUL]
      (by rw [List.length_singleton]; omega)
    simp only [copied, ok_bind, Nat.add_assoc, loaded, if_true, Rlbuf.store, storage_moved,
      written, pure_eq_ok]
    refine ⟨_, rfl, rfl, Or.inl ?_, reply, ?_, lineContent⟩
    · constructor
      case current => simpa using buffered.current
      case atEnd => rfl
      case held =>
        refine ⟨(rl.storage rl.nextChar.member).1.drop 1, ?_⟩
        dsimp only
        rw [storage_moved, storage_setStorage]
        exact after
      case clean => exact List.not_mem_nil
      case unfinished => exact List.not_mem_nil
    · exact clean.1
  | cons c rest =>
    have loaded := load_drop held
    rw [length] at loaded
    have other : c ≠ NUL := fun h => clean.2 (by rw [h]; exact List.mem_cons_self)
    simp only [copied, ok_bind, Nat.add_assoc, loaded, if_neg other, pure_eq_ok]
    refine ⟨_, rfl, rfl, Or.inr ?_, reply, ?_, lineContent⟩
    · constructor
      case current => exact buffered.current
      case held =>
        refine ⟨junk, ?_⟩
        rw [storage_moved]
        show List.drop (rl.nextChar.index + (body.length + 1)) _ = _
        rw [← List.drop_drop, held]
        simp
      case clean => exact clean.2
      case nonempty => simp
    · exact clean.1

/-- A truncated message goes to the other buffer, and the recursive call finds it there. -/
theorem nextMessage_truncated (self : Rlbuf → Fd → Storage → Except Fault Result) (fd : Fd)
    (line : Storage) {u : List UInt8} (buffered : Buffered rl u) (free : NEWLINE ∉ u) :
    ∃ rl', nextMessage self rl rl.nextChar.member fd line = self rl' fd line ∧ Drained rl' u := by
  obtain ⟨junk, held⟩ := buffered.held
  have clean := buffered.clean
  have scanned : scan ((rl.storage rl.nextChar.member).1.drop rl.nextChar.index) =
      .ok (.nul, u.length) := by
    rw [held]
    exact scan_nul clean free
  have room := drop_length held
  obtain ⟨before, last, rfl⟩ := List.eq_nil_or_concat u |>.resolve_left buffered.nonempty
  have ending := held
  rw [List.concat_eq_append, List.append_assoc] at ending
  have loaded := load_drop ending
  have other : last ≠ NEWLINE := fun h => free (by rw [h]; simp)
  rw [List.concat_eq_append] at *
  rw [List.length_append, List.length_singleton] at scanned room
  have current := buffered.current
  unfold nextMessage
  simp only [scanned, ok_bind, Pointer.add, ← Nat.add_assoc, loadBefore_succ, storage_moved, loaded,
    if_pos other]
  unfold swapAndRecurse
  cases member : rl.nextChar.member with
  | inBuf =>
    rw [member] at current held
    obtain ⟨swap, copied, content⟩ := copyTerminated_ok rl.swap held
      (by omega) (by rw [List.length_append, List.length_singleton]; omega)
    rw [List.length_append, List.length_singleton] at copied
    simp only [current, Member.type, if_true, storage_moved, copied, ok_bind]
    refine ⟨_, rfl, rfl, ?_, content, clean, free⟩
    rw [List.length_append, List.length_singleton]
  | inSwap =>
    rw [member] at current held
    obtain ⟨buf, copied, content⟩ := copyTerminated_ok rl.buf held
      (by omega) (by rw [List.length_append, List.length_singleton]; omega)
    rw [List.length_append, List.length_singleton] at copied
    have notBuf : USE_SWAP ≠ USE_BUF := by decide
    simp only [current, Member.type, if_true, if_neg notBuf, storage_moved, copied, ok_bind]
    refine ⟨_, rfl, rfl, ?_, content, clean, free⟩
    rw [List.length_append, List.length_singleton]

/-- After a NUL at the start of an empty buffer the byte before the buffer is read. -/
theorem nextMessage_empty {junk : List UInt8} (start : rl.nextChar.index = 0)
    (held : (rl.storage rl.nextChar.member).1 = NUL :: junk) :
    nextMessage self rl rl.nextChar.member fd line = .error .outOfBounds := by
  unfold nextMessage
  simp only [start, List.drop_zero, held, scan, if_true, ok_bind, Rlbuf.loadBefore, Pointer.add,
    Nat.add_zero, error_bind]

/-! ### One read -/

theorem text_clean (bytes : List UInt8) : NUL ∉ text bytes := by
  intro h
  have seen := List.mem_takeWhile_imp h
  simp at seen

theorem text_terminated (bytes junk : List UInt8) :
    ∃ junk', bytes ++ NUL :: junk = text bytes ++ NUL :: junk' := by
  induction bytes with
  | nil => exact ⟨junk, rfl⟩
  | cons c bytes ih =>
    unfold text
    by_cases nul : c = NUL
    · rw [nul, List.takeWhile_cons_of_neg (by simp)]
      exact ⟨bytes ++ NUL :: junk, rfl⟩
    · obtain ⟨junk', same⟩ := ih
      rw [List.takeWhile_cons_of_pos (by simpa using nul)]
      exact ⟨junk', by rw [List.cons_append, same]; rfl⟩

theorem refill_room {u : List UInt8} {chunk : Chunk} (fd : Fd) (drained : Drained rl u)
    (room : u.length + chunk.1.length < BUF_LEN) :
    ∃ rl', refill rl rl.nextChar.member (some chunk :: fd) = .ok (chunk.1.length, rl', fd) ∧
      rl'.bufType = rl.bufType ∧ rl'.nextChar = ⟨rl.nextChar.member, 0⟩ ∧
      ∃ junk, (rl'.storage rl.nextChar.member).1 = u ++ text chunk.1 ++ NUL :: junk := by
  obtain ⟨junk, held⟩ := drained.held
  obtain ⟨s', s'', first, second, junk', content⟩ := store_terminated chunk.1 held room
  obtain ⟨junk'', same⟩ := text_terminated chunk.1 junk'
  refine ⟨{ (rl.setStorage s' rl.nextChar.member).setStorage s'' rl.nextChar.member with
    nextChar := ⟨rl.nextChar.member, 0⟩ }, ?_, ?_, rfl, junk'', ?_⟩
  · unfold refill Rlbuf.store
    simp only [drained.atEnd, first, ok_bind, pure_eq_ok, setStorage_nextChar, Pointer.add,
      storage_setStorage, second]
  · simp
  · rw [storage_moved, storage_setStorage, content, List.append_assoc, same, List.append_assoc]

theorem refill_overflow {u : List UInt8} {chunk : Chunk} {buf : Member} (drained : Drained rl u)
    (long : BUF_LEN ≤ u.length + chunk.1.length) :
    refill rl buf (some chunk :: fd) = .error .outOfBounds := by
  unfold refill Rlbuf.store
  rw [drained.atEnd]
  by_cases fits : u.length + chunk.1.length ≤ BUF_LEN
  · obtain ⟨s', first, _⟩ := store_ok (rl.storage rl.nextChar.member) u.length chunk.1 fits
    have second : s'.store (u.length + chunk.1.length) [NUL] = .error .outOfBounds :=
      store_overflow s' (by rw [List.length_singleton]; omega)
    simp only [first, ok_bind, pure_eq_ok, setStorage_nextChar, Pointer.add, drained.atEnd,
      storage_setStorage, second, error_bind]
  · have refused : (rl.storage rl.nextChar.member).store u.length chunk.1 = .error .outOfBounds :=
      store_overflow (rl.storage rl.nextChar.member) (by omega)
    simp only [refused, error_bind]

/-! ### One level of the recursion -/

theorem Drained.load {u : List UInt8} (drained : Drained rl u) : rl.load rl.nextChar = .ok NUL := by
  obtain ⟨junk, held⟩ := drained.held
  rw [← List.drop_zero (l := (rl.storage rl.nextChar.member).1)] at held
  have loaded := load_drop held
  rw [Nat.zero_add, ← drained.atEnd] at loaded
  exact loaded

theorem body_buffered {u : List UInt8} (buffered : Buffered rl u) :
    body self rl rl.nextChar.member fd line = nextMessage self rl rl.nextChar.member fd line := by
  obtain ⟨junk, held⟩ := buffered.held
  have clean := buffered.clean
  cases u with
  | nil => exact absurd rfl buffered.nonempty
  | cons c u =>
    have loaded : rl.load rl.nextChar = .ok c := load_drop (u := []) held
    have other : c ≠ NUL := fun h => clean (by rw [h]; exact List.mem_cons_self)
    simp only [body, loaded, ok_bind, if_neg other]

/-- What a message costs: nothing more when the bytes have a line, or one recursive call. -/
theorem nextMessage_refines {u : List UInt8} (buffered : Buffered rl u)
    (recurse : ∀ rl', Drained rl' u → Refines (self rl' fd line) (Lines.next NEWLINE accept u fd)) :
    Refines (nextMessage self rl rl.nextChar.member fd line) (Lines.next NEWLINE accept u fd) := by
  by_cases free : NEWLINE ∉ u
  · obtain ⟨rl', same, drained⟩ := nextMessage_truncated self fd line buffered free
    rw [same]
    exact recurse rl' drained
  · obtain ⟨l, rest, taken⟩ := Lines.takeLine_exists NEWLINE free
    rw [Lines.next_line taken]
    exact nextMessage_line buffered taken

theorem body_drained {u : List UInt8} (drained : Drained rl u)
    (recurse : ∀ chunk fd' v rl', fd = some chunk :: fd' → Drained rl' v →
      Refines (self rl' fd' line) (Lines.next NEWLINE accept v fd')) :
    Refines (body self rl rl.nextChar.member fd line) (Lines.next NEWLINE accept u fd) := by
  have free := drained.unfinished
  unfold body
  simp only [drained.load, ok_bind, if_true]
  match fd, recurse with
  | [], _ =>
    rw [Lines.next_eof free]
    exact ⟨⟨0, rl, [], line⟩, rfl, rfl, Or.inl drained, rfl⟩
  | none :: fd, _ =>
    rw [Lines.next_failed free]
    exact ⟨⟨-1, rl, fd, line⟩, rfl, rfl, Or.inl drained, rfl⟩
  | some chunk :: fd, recurse =>
    rw [Lines.next_chunk free]
    by_cases long : BUF_LEN ≤ u.length + chunk.1.length
    · rw [accept, if_pos long, refill_overflow drained long]
      exact rfl
    · obtain ⟨rl', filled, current, start, junk, content⟩ := refill_room fd drained
        (Nat.not_le.mp long)
      have pos := List.length_pos_iff.mpr chunk.2.1
      have delivered : ¬ ((chunk.1.length : Nat) : Int) < 1 := by omega
      have member : rl.nextChar.member = rl'.nextChar.member := by rw [start]
      rw [accept, if_neg long, filled]
      simp only [ok_bind, if_neg delivered]
      rw [member] at content ⊢
      by_cases empty : u ++ text chunk.1 = []
      · rw [if_pos empty]
        rw [empty] at content
        exact nextMessage_empty (by rw [start]) content
      · rw [if_neg empty]
        have clean : NUL ∉ u ++ text chunk.1 := by
          rw [List.mem_append, not_or]
          exact ⟨drained.clean, text_clean _⟩
        have buffered : Buffered rl' (u ++ text chunk.1) := by
          refine ⟨?_, ⟨junk, ?_⟩, clean, empty⟩
          · rw [current, drained.current, member]
          · rw [content, start]
            rfl
        exact nextMessage_refines buffered (fun rl'' => recurse chunk fd _ rl'' rfl)

end Message

/-! ### One call -/

theorem readLineBufTo_body {depth : Nat} {rl : Rlbuf} {fd : Fd} {line : Storage}
    (current : rl.bufType = rl.nextChar.member.type) :
    readLineBufTo (depth + 1) rl fd line =
      body (readLineBufTo depth) rl rl.nextChar.member fd line := by
  unfold readLineBufTo
  have notBuf : USE_SWAP ≠ USE_BUF := by decide
  cases member : rl.nextChar.member with
  | inBuf =>
    rw [member] at current
    exact if_pos current
  | inSwap =>
    rw [member] at current
    rw [if_neg (by rw [current]; exact notBuf)]
    exact if_pos current

theorem drained_refines {depth : Nat} {u : List UInt8} {rl : Rlbuf} {fd : Fd} {line : Storage}
    (drained : Drained rl u) (deep : fd.length + 1 ≤ depth) :
    Refines (readLineBufTo depth rl fd line) (Lines.next NEWLINE accept u fd) := by
  induction depth generalizing u rl fd with
  | zero => omega
  | succ depth ih =>
    rw [readLineBufTo_body drained.current]
    apply body_drained drained
    intro chunk fd' v rl' same drained'
    apply ih drained'
    rw [same, List.length_cons] at deep
    omega

/-- `read_line_buf` is one call of the line reader. -/
theorem readLineBuf_refines {u : List UInt8} {rl : Rlbuf} (fd : Fd) (line : Storage)
    (represents : Represents rl u) :
    Refines (readLineBuf rl fd line) (Lines.next NEWLINE accept u fd) := by
  unfold readLineBuf
  rcases represents with drained | buffered
  · exact drained_refines drained (Nat.le_succ _)
  · rw [readLineBufTo_body buffered.current, body_buffered buffered]
    exact nextMessage_refines buffered (fun rl' drained => drained_refines drained le_rfl)

theorem readLineBufInit_represents (rl : Rlbuf) :
    ∃ rl', readLineBufInit rl = .ok rl' ∧ Represents rl' [] := by
  obtain ⟨s', written, content⟩ := store_ok rl.buf 0 [NUL] (by decide)
  refine ⟨{ rl with buf := s', nextChar := ⟨.inBuf, 0⟩, bufType := USE_BUF }, ?_, Or.inl ?_⟩
  · unfold readLineBufInit Rlbuf.store
    simp only [Rlbuf.storage, written, ok_bind, pure_eq_ok, Rlbuf.setStorage]
  · exact ⟨rfl, rfl, ⟨_, content⟩, List.not_mem_nil, List.not_mem_nil⟩

end Tlpi.LineBuffer
