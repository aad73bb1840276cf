import TlpiExercises.C.Numbers
import TlpiExercises.LineBuffer.Stream

/-!
# 59_Sockets_Internet_Domain/rlbuf_seqnum_sv.c and rlbuf_seqnum_cl.c

The server of sequence numbers over stream sockets, and its client. What a peer has sent is the list of
results that `read` has still to give. The messages about addresses and errors are left out.
-/

namespace Tlpi.SeqnumStream

open LineBuffer

/-- What the server keeps from one client to the next. -/
structure Server where
  seqNum : UInt32
  rlbuf : Rlbuf
  reqLenStr : Storage

/-- `takes` is how many bytes of an answer its `write` passes on. -/
structure Connection where
  request : Fd
  takes : Nat

/-- `%d\n` of an unsigned number. -/
def seqNumStr (seqNum : UInt32) : List UInt8 := formatInt (toInt seqNum.toNat) ++ [NEWLINE]

/-- One round of the server's loop, with the bytes that the client gets. -/
def handle (s : Server) (c : Connection) : Except Fault (Server × List UInt8) := do
  let rl ← readLineBufInit s.rlbuf
  let result ← readLineBuf rl c.request s.reqLenStr
  let s := { s with rlbuf := result.rl, reqLenStr := result.line }
  if result.rv ≤ 0 then return (s, [])
  let reqLen := atoi result.line.text
  if reqLen ≤ 0 then return (s, [])
  return ({ s with seqNum := s.seqNum + UInt32.ofInt reqLen }, (seqNumStr s.seqNum).take c.takes)

/-- `printed` is what stands on the client's standard output. `partialWrite` is a `write` that passes on too
little, or a SIGPIPE, which ends the client there. -/
inductive ClientEnd where
  | printed (text : List UInt8)
  | partialWrite
  | readLineFailed
  | unexpectedEof
  deriving DecidableEq

/-- `Sequence number: ` -/
def LABEL : List UInt8 := [83, 101, 113, 117, 101, 110, 99, 101, 32, 110, 117, 109, 98, 101, 114, 58, 32]

/-- What the client sends; its argument is `1` where there is none. -/
def requestOf (argument : Option CStr) : List UInt8 := argument.elim [49] CStr.bytes ++ [NEWLINE]

/-- `sends` is how many bytes of the request its two calls of `write` pass on. `seqNumStr` has `MAX_MSG_LEN`
bytes in the client. -/
def client (argument : Option CStr) (sends : Nat) (rl : Rlbuf) (fd : Fd) (seqNumStr : Storage) :
    Except Fault ClientEnd := do
  if sends < (requestOf argument).length then return .partialWrite
  let rl ← readLineBufInit rl
  let result ← readLineBuf rl fd seqNumStr
  if (MAX_MSG_LEN : Int) ≤ result.rv then .error .outOfBounds
  else if result.rv = -1 then return .readLineFailed
  else if result.rv = 0 then return .unexpectedEof
  else return .printed (LABEL ++ result.line.text)

/-- Bytes come in order, in any pieces. Either all of them come, or a `read` fails, as it does after a
reset. -/
def Delivers (fd : Fd) (sent : List UInt8) : Prop :=
  delivered fd <+: sent ∧ (none ∉ fd → delivered fd = sent)

/-- A client and its connection: how its request and the answer come in. -/
structure Session where
  argument : Option CStr
  sends : Nat
  request : { fd : Fd // Delivers fd ((requestOf argument).take sends) }
  takes : Nat
  arrives : (answer : List UInt8) → { fd : Fd // Delivers fd answer }
  rlbuf : Rlbuf
  seqNumStr : Storage

/-- The clients come one after the other; `none` is an `accept` that fails. -/
def serve (s : Server) : List (Option Session) → Except Fault (Server × List ClientEnd)
  | [] => .ok (s, [])
  | none :: sessions => serve s sessions
  | some session :: sessions => do
    let (s, answer) ← handle s ⟨session.request.1, session.takes⟩
    let ending ← client session.argument session.sends session.rlbuf (session.arrives answer).1 session.seqNumStr
    let (s, endings) ← serve s sessions
    return (s, ending :: endings)

end Tlpi.SeqnumStream
