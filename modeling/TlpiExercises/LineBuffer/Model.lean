import TlpiExercises.C.Strings
import TlpiExercises.Library.Buffer

/-!
# lib/read_line_buf.c

The buffered line reader. Its descriptor is the list of results that `read` has still to give, with
`none` for -1; an empty list is the end of the file. Every access to one of the two buffers is
checked against its bounds.
-/

namespace Tlpi.LineBuffer

def MAX_MSG_LEN : Nat := 4096

def BUF_LEN : Nat := MAX_MSG_LEN * 2

def USE_BUF : Int := 1

def USE_SWAP : Int := 0

abbrev Storage := { bytes : List UInt8 // bytes.length = BUF_LEN }

namespace Storage

def load (s : Storage) (i : Nat) : Except Fault UInt8 :=
  match s.1[i]? with
  | some c => .ok c
  | none => .error .outOfBounds

def loadRun (s : Storage) (i n : Nat) : Except Fault (List UInt8) :=
  match Buffer.read s.1 i n with
  | some bytes => .ok bytes
  | none => .error .outOfBounds

def store (s : Storage) (i : Nat) (bytes : List UInt8) : Except Fault Storage :=
  match h : Buffer.write s.1 i bytes with
  | some b => .ok ⟨b, (Buffer.write_length h).trans s.2⟩
  | none => .error .outOfBounds

end Storage

/-- The member of `struct rlbuf` that a pointer points into. -/
inductive Member where
  | inBuf
  | inSwap
  deriving DecidableEq

structure Pointer where
  member : Member
  index : Nat

def Pointer.add (p : Pointer) (n : Nat) : Pointer := { p with index := p.index + n }

/-- `struct rlbuf` without its descriptor. -/
structure Rlbuf where
  bufType : Int
  nextChar : Pointer
  buf : Storage
  swap : Storage

/-- What one `read` of `MAX_MSG_LEN` bytes delivers. -/
abbrev Chunk := { bytes : List UInt8 // bytes ≠ [] ∧ bytes.length ≤ MAX_MSG_LEN }

abbrev Fd := List (Option Chunk)

namespace Rlbuf

def storage (rl : Rlbuf) : Member → Storage
  | .inBuf => rl.buf
  | .inSwap => rl.swap

def setStorage (rl : Rlbuf) (s : Storage) : Member → Rlbuf
  | .inBuf => { rl with buf := s }
  | .inSwap => { rl with swap := s }

def load (rl : Rlbuf) (p : Pointer) : Except Fault UInt8 := (rl.storage p.member).load p.index

/-- `*(p - 1)`. -/
def loadBefore (rl : Rlbuf) (p : Pointer) : Except Fault UInt8 :=
  match p.index with
  | 0 => .error .outOfBounds
  | i + 1 => (rl.storage p.member).load i

def store (rl : Rlbuf) (p : Pointer) (bytes : List UInt8) : Except Fault Rlbuf := do
  let s ← (rl.storage p.member).store p.index bytes
  return rl.setStorage s p.member

end Rlbuf

/-- The rlbuf is uninitialised before; its fields are overwritten, and one byte of `buf`. -/
def readLineBufInit (rl : Rlbuf) : Except Fault Rlbuf := do
  let rl ← rl.store ⟨.inBuf, 0⟩ [NUL]
  return { rl with nextChar := ⟨.inBuf, 0⟩, bufType := USE_BUF }

/-- The return value of a call and what it leaves: the rlbuf, the descriptor and `line`. -/
structure Result where
  rv : Int
  rl : Rlbuf
  fd : Fd
  line : Storage

/-- The refill: what `read` returned and, when it delivered, the chunk behind `next_char` with its
terminator and `next_char` at the start of `buf`. -/
def refill (rl : Rlbuf) (buf : Member) : Fd → Except Fault (Int × Rlbuf × Fd)
  | [] => .ok (0, rl, [])
  | none :: fd => .ok (-1, rl, fd)
  | some chunk :: fd => do
    let rl ← rl.store rl.nextChar chunk.1
    let rl ← rl.store (rl.nextChar.add chunk.1.length) [NUL]
    return (chunk.1.length, { rl with nextChar := ⟨buf, 0⟩ }, fd)

inductive Stop where
  | nul
  | newline
  deriving DecidableEq

/-- The scan from `next_char` to a NUL or newline: which it is and how many bytes lie before. -/
def scan : List UInt8 → Except Fault (Stop × Nat)
  | [] => .error .outOfBounds
  | c :: rest =>
    if c = NUL then .ok (.nul, 0)
    else if c = NEWLINE then .ok (.newline, 0)
    else do
      let (stop, n) ← scan rest
      return (stop, n + 1)

/-- `memcpy(dest, src, n); dest[n] = '\0';` -/
def copyTerminated (dest : Storage) (src : Storage) (i n : Nat) : Except Fault Storage := do
  let bytes ← src.loadRun i n
  let dest ← dest.store 0 bytes
  dest.store n [NUL]

/-- A message that is truncated: its start goes to the other buffer, and `self` reads on. -/
def swapAndRecurse (self : Rlbuf → Fd → Storage → Except Fault Result) (rl : Rlbuf)
    (msgStart : Pointer) (msgLen : Nat) (fd : Fd) (line : Storage) : Except Fault Result :=
  if rl.bufType = USE_BUF then do
    let swap ← copyTerminated rl.swap (rl.storage msgStart.member) msgStart.index msgLen
    self { rl with bufType := USE_SWAP, swap, nextChar := ⟨.inSwap, msgLen⟩ } fd line
  else if rl.bufType = USE_SWAP then do
    let buf ← copyTerminated rl.buf (rl.storage msgStart.member) msgStart.index msgLen
    self { rl with bufType := USE_BUF, buf, nextChar := ⟨.inBuf, msgLen⟩ } fd line
  else .ok ⟨-1, rl, fd, line⟩

/-- The rest of the body, from `msg_start = rlbuf->next_char`. -/
def nextMessage (self : Rlbuf → Fd → Storage → Except Fault Result) (rl : Rlbuf) (buf : Member)
    (fd : Fd) (line : Storage) : Except Fault Result := do
  let msgStart := rl.nextChar
  let (stop, msgLen) ← scan ((rl.storage msgStart.member).1.drop msgStart.index)
  let rl := { rl with nextChar := msgStart.add msgLen }
  match stop with
  | .nul =>
    if (← rl.loadBefore rl.nextChar) ≠ NEWLINE then swapAndRecurse self rl msgStart msgLen fd line
    else if msgLen = 0 then return ⟨0, rl, fd, line⟩
    else do
      let line ← copyTerminated line (rl.storage msgStart.member) msgStart.index msgLen
      let rl ← rl.store ⟨buf, 0⟩ [NUL]
      return ⟨msgLen, { rl with nextChar := ⟨buf, 0⟩ }, fd, line⟩
  | .newline => do
    let msgLen := msgLen + 1
    let line ← copyTerminated line (rl.storage msgStart.member) msgStart.index msgLen
    let rl := { rl with nextChar := rl.nextChar.add 1 }
    if (← rl.load rl.nextChar) = NUL then do
      let rl ← rl.store ⟨buf, 0⟩ [NUL]
      return ⟨msgLen, { rl with nextChar := ⟨buf, 0⟩ }, fd, line⟩
    else return ⟨msgLen, rl, fd, line⟩

/-- One level of `read_line_buf`, with `self` for its recursive call. -/
def body (self : Rlbuf → Fd → Storage → Except Fault Result) (rl : Rlbuf) (buf : Member) (fd : Fd)
    (line : Storage) : Except Fault Result := do
  if (← rl.load rl.nextChar) = NUL then do
    let (numRead, rl, fd) ← refill rl buf fd
    if numRead < 1 then return ⟨numRead, rl, fd, line⟩
    else nextMessage self rl buf fd line
  else nextMessage self rl buf fd line

/-- `read_line_buf` to a recursion depth. -/
def readLineBufTo : Nat → Rlbuf → Fd → Storage → Except Fault Result
  | 0, _, _, _ => .error .stackOverflow
  | depth + 1, rl, fd, line =>
    if rl.bufType = USE_BUF then body (readLineBufTo depth) rl .inBuf fd line
    else if rl.bufType = USE_SWAP then body (readLineBufTo depth) rl .inSwap fd line
    else .ok ⟨-1, rl, fd, line⟩

/-- Every recursive call reads once more, so the depth is bounded by the results of `read`. -/
def readLineBuf (rl : Rlbuf) (fd : Fd) (line : Storage) : Except Fault Result :=
  readLineBufTo (fd.length + 2) rl fd line

def Storage.text (s : Storage) : List UInt8 := s.1.takeWhile (· ≠ NUL)

theorem takeWhile_terminated {l junk : List UInt8} (clean : NUL ∉ l) :
    (l ++ NUL :: junk).takeWhile (· ≠ NUL) = l := by
  rw [List.takeWhile_append_of_pos]
  · simp
  · intro c member
    simpa using fun h : c = NUL => clean (h ▸ member)

/-- `n` calls in a row: the return value of each, with the line when there is one. -/
def readLines : Nat → Rlbuf → Fd → Storage → Except Fault (List (Int × List UInt8))
  | 0, _, _, _ => .ok []
  | n + 1, rl, fd, line => do
    let result ← readLineBuf rl fd line
    let rest ← readLines n result.rl result.fd result.line
    return (result.rv, if 0 < result.rv then Storage.text result.line else []) :: rest

end Tlpi.LineBuffer
