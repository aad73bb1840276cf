import TlpiExercises.LineBuffer.Model
import TlpiExercises.Library.Lines

/-!
# lib/read_line.c

The plain line reader, which reads one byte at a time into a buffer of `n` bytes.
-/

namespace Tlpi.LineBuffer.Plain

def EINTR : Nat := 4

def EINVAL : Nat := 22

/-- What every `read` of one byte gives: the byte or an `errno`. Behind them is the end of the
file. -/
abbrev Fd := List (Except Nat UInt8)

/-- The return value of a call, the `errno` it leaves with -1, the buffer and the descriptor. -/
structure Result where
  rv : Int
  errno : Option Nat
  buffer : Option (List UInt8)
  fd : Fd

def store (buffer : List UInt8) (i : Nat) (ch : UInt8) : Except Fault (List UInt8) :=
  match Buffer.write buffer i [ch] with
  | some buffer => .ok buffer
  | none => .error .outOfBounds

/-- `*buf = '\0'; return totRead;` -/
def terminate (totRead : Nat) (buffer : List UInt8) (fd : Fd) : Except Fault Result := do
  let buffer ← store buffer totRead NUL
  return ⟨totRead, none, some buffer, fd⟩

/-- The loop; `buf` is always `buffer + totRead`. -/
def readLoop (n : Nat) : Nat → List UInt8 → Fd → Except Fault Result
  | totRead, buffer, [] =>
    if totRead = 0 then .ok ⟨0, none, some buffer, []⟩ else terminate totRead buffer []
  | totRead, buffer, .error errno :: fd =>
    if errno = EINTR then readLoop n totRead buffer fd
    else .ok ⟨-1, some errno, some buffer, fd⟩
  | totRead, buffer, .ok ch :: fd => do
    let (totRead, buffer) ←
      if totRead < n - 1 then do
        let buffer ← store buffer totRead ch
        pure (totRead + 1, buffer)
      else pure (totRead, buffer)
    if ch = NEWLINE then terminate totRead buffer fd else readLoop n totRead buffer fd

def readLine (fd : Fd) (buffer : Option (List UInt8)) (n : Nat) : Except Fault Result :=
  match buffer with
  | none => .ok ⟨-1, some EINVAL, none, fd⟩
  | some bytes =>
    if n ≤ 0 then .ok ⟨-1, some EINVAL, some bytes, fd⟩ else readLoop n 0 bytes fd

def text (buffer : Option (List UInt8)) : List UInt8 := (buffer.getD []).takeWhile (· ≠ NUL)

/-- `k` calls in a row: the return value of each, with the line when there is one. -/
def readLines (n : Nat) : Nat → Option (List UInt8) → Fd → Except Fault (List (Int × List UInt8))
  | 0, _, _ => .ok []
  | k + 1, buffer, fd => do
    let result ← readLine fd buffer n
    let rest ← readLines n k result.buffer result.fd
    return (result.rv, if 0 < result.rv then text result.buffer else []) :: rest

/-! ### One call -/

theorem store_behind (done junk : List UInt8) (c ch : UInt8) :
    store (done ++ c :: junk) done.length ch = .ok (done ++ ch :: junk) := by
  have fits : done.length + [ch].length ≤ (done ++ c :: junk).length := by
    rw [List.length_append, List.length_singleton, List.length_cons]
    omega
  rw [store, Buffer.write_eq fits, List.take_left, List.length_singleton, ← List.drop_drop,
    List.drop_left]
  simp

theorem terminate_behind (done junk : List UInt8) (c : UInt8) (fd : Fd) :
    terminate done.length (done ++ c :: junk) fd =
      .ok ⟨done.length, none, some (done ++ NUL :: junk), fd⟩ := by
  rw [terminate, store_behind]
  rfl

theorem readLoop_byte {n : Nat} {done junk : List UInt8} {c ch : UInt8} {fd : Fd}
    (room : done.length + 1 < n) :
    readLoop n done.length (done ++ c :: junk) (.ok ch :: fd) =
      if ch = NEWLINE then terminate (done ++ [ch]).length (done ++ [ch] ++ junk) fd
      else readLoop n (done ++ [ch]).length (done ++ [ch] ++ junk) fd := by
  rw [readLoop, if_pos (by omega), store_behind, List.length_append, List.length_singleton,
    List.append_assoc, List.singleton_append]
  rfl

theorem readLoop_body {n : Nat} (done : List UInt8) {body junk : List UInt8} (fd : Fd)
    (size : (done ++ junk).length = n) (room : (done ++ body).length < n) (free : NEWLINE ∉ body) :
    readLoop n done.length (done ++ junk) (body.map .ok ++ fd) =
      readLoop n (done ++ body).length (done ++ body ++ junk.drop body.length) fd := by
  induction body generalizing done junk with
  | nil => simp
  | cons ch body ih =>
    rw [List.mem_cons, not_or] at free
    cases junk with
    | nil =>
      rw [List.append_nil] at size
      rw [List.length_append, List.length_cons] at room
      omega
    | cons c junk =>
      rw [List.append_cons] at room
      have next : done.length + 1 < n := by
        rw [List.length_append, List.length_append, List.length_singleton] at room
        omega
      have size' : (done ++ [ch] ++ junk).length = n := by
        rw [← size]
        simp
      rw [List.map_cons, List.cons_append, readLoop_byte next, if_neg (Ne.symm free.1),
        ih (done ++ [ch]) size' room free.2]
      simp

/-- A line that fits is stored whole, with its newline. -/
theorem readLine_line {n : Nat} {buffer body : List UInt8} (rest : List UInt8)
    (size : buffer.length = n) (short : (body ++ [NEWLINE]).length < n)
    (free : NEWLINE ∉ body) :
    ∃ junk, (body ++ [NEWLINE] ++ NUL :: junk).length = n ∧
      readLine ((body ++ NEWLINE :: rest).map .ok) (some buffer) n =
        .ok ⟨(body ++ [NEWLINE]).length, none, some (body ++ [NEWLINE] ++ NUL :: junk),
          rest.map .ok⟩ := by
  rw [List.length_append, List.length_singleton] at short
  have left : (buffer.drop body.length).length = n - body.length := by rw [List.length_drop, size]
  match tail : buffer.drop body.length with
  | [] =>
    rw [tail, List.length_nil] at left
    omega
  | [c] =>
    rw [tail, List.length_singleton] at left
    omega
  | c :: d :: junk =>
    rw [tail, List.length_cons, List.length_cons] at left
    refine ⟨junk, ?_, ?_⟩
    · simp only [List.length_append, List.length_cons, List.length_nil]
      omega
    · have stored := readLoop_body [] (.ok NEWLINE :: rest.map .ok) size
        (show body.length < n by omega) free
      rw [List.nil_append, List.nil_append, tail] at stored
      rw [readLine, if_neg (by omega), List.map_append, List.map_cons]
      rw [List.length_nil] at stored
      rw [stored, readLoop_byte short, if_pos rfl, terminate_behind]

theorem readLine_unfinished {n : Nat} {buffer body : List UInt8} (size : buffer.length = n)
    (short : body.length < n) (free : NEWLINE ∉ body) (nonempty : body ≠ []) :
    ∃ junk, (body ++ NUL :: junk).length = n ∧
      readLine (body.map .ok) (some buffer) n =
        .ok ⟨body.length, none, some (body ++ NUL :: junk), []⟩ := by
  have left : (buffer.drop body.length).length = n - body.length := by rw [List.length_drop, size]
  match tail : buffer.drop body.length with
  | [] =>
    rw [tail, List.length_nil] at left
    omega
  | c :: junk =>
    rw [tail, List.length_cons] at left
    refine ⟨junk, ?_, ?_⟩
    · rw [List.length_append, List.length_cons]
      omega
    · have stored := readLoop_body [] [] size short free
      rw [List.nil_append, List.nil_append, tail, List.append_nil, List.length_nil] at stored
      rw [readLine, if_neg (by omega), stored, readLoop,
        if_neg (List.length_pos_iff.mpr nonempty).ne', terminate_behind]

theorem readLine_end {n : Nat} {buffer : List UInt8} (pos : 0 < n) :
    readLine [] (some buffer) n = .ok ⟨0, none, some buffer, []⟩ := by
  rw [readLine, if_neg (by omega), readLoop, if_pos rfl]

/-! ### Repeated calls -/

theorem text_behind {l junk : List UInt8} (clean : NUL ∉ l) :
    text (some (l ++ NUL :: junk)) = l := by
  rw [text, Option.getD_some, takeWhile_terminated clean]

/-- The first line of a stream, with its newline or at the end of the file. -/
theorem readLine_first {n : Nat} {buffer line s : List UInt8} {lines : List (List UInt8)}
    (size : buffer.length = n) (first : Lines.split NEWLINE s = line :: lines)
    (short : line.length < n) :
    ∃ junk rest, (line ++ NUL :: junk).length = n ∧ s = line ++ rest ∧
      Lines.split NEWLINE rest = lines ∧
      readLine (s.map .ok) (some buffer) n =
        .ok ⟨line.length, none, some (line ++ NUL :: junk), rest.map .ok⟩ := by
  cases taken : Lines.takeLine NEWLINE s with
  | none =>
    have free := (Lines.takeLine_eq_none NEWLINE).mp taken
    have nonempty : s ≠ [] := by
      rintro rfl
      cases first
    rw [Lines.split_free NEWLINE free nonempty] at first
    cases first
    obtain ⟨junk, length, result⟩ := readLine_unfinished size short free nonempty
    exact ⟨junk, [], length, (List.append_nil _).symm, rfl, result⟩
  | some result =>
    obtain ⟨line', rest⟩ := result
    obtain ⟨rfl, isLine⟩ := Lines.takeLine_some NEWLINE taken
    rw [Lines.split_line NEWLINE isLine] at first
    cases first
    obtain ⟨body, rfl, free⟩ := isLine
    obtain ⟨junk, length, result⟩ := readLine_line rest size short free
    refine ⟨junk, rest, length, rfl, rfl, ?_⟩
    rw [List.append_assoc, List.singleton_append, result]

/-- The calls return the lines of the stream in order, the unfinished one too, and then 0. -/
theorem readLines_split {n : Nat} {s buffer : List UInt8} (k : Nat) (size : buffer.length = n)
    (pos : 0 < n) (clean : NUL ∉ s) (short : ∀ l ∈ Lines.split NEWLINE s, l.length < n) :
    readLines n k (some buffer) (s.map .ok) =
      .ok (((Lines.split NEWLINE s).map (fun l : List UInt8 => ((l.length : Int), l)) ++
        List.replicate k (0, [])).take k) := by
  induction k generalizing s buffer with
  | zero => rfl
  | succ k ih =>
    cases lines : Lines.split NEWLINE s with
    | nil =>
      obtain rfl := (Lines.split_eq_nil NEWLINE).mp lines
      have rest := ih (s := []) size clean short
      rw [lines, List.map_nil, List.map_nil, List.nil_append] at rest
      rw [List.map_nil, readLines, readLine_end pos, ok_bind, rest, ok_bind, List.map_nil,
        List.nil_append, List.replicate_succ, List.take_succ_cons]
      rfl
    | cons line rest =>
      rw [lines, List.forall_mem_cons] at short
      obtain ⟨junk, after, length, rfl, later, result⟩ := readLine_first size lines short.1
      rw [List.mem_append, not_or] at clean
      have pos' : (0 : Int) < line.length := by
        have nonempty := Lines.nonempty_of_mem_split NEWLINE (by rw [lines]; exact List.mem_cons_self)
        have := List.length_pos_iff.mpr nonempty
        omega
      have tail := ih length clean.2 (by rw [later]; exact short.2)
      have enough (pairs : List (Int × List UInt8)) :
          (pairs ++ List.replicate (k + 1) (0, [])).take k =
            (pairs ++ List.replicate k (0, [])).take k := by
        rw [List.replicate_succ', ← List.append_assoc]
        apply List.take_append_of_le_length
        rw [List.length_append, List.length_replicate]
        omega
      rw [readLines, result, ok_bind, tail, ok_bind, if_pos pos', text_behind clean.1, later,
        List.map_cons, List.cons_append, List.take_succ_cons, enough]
      rfl

end Tlpi.LineBuffer.Plain
