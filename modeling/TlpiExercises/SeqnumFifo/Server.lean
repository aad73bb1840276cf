import TlpiExercises.Lib.GetNum

/-!
# 44_Pipes_And_FIFOs/fifo_sq_sv.c

The sequence-number server. An iteration of its loop takes the results of its system calls from
outside; the calls that the source repeats while they fail with `EINTR` have their last result.
-/

namespace Tlpi.SeqnumFifo

def MAX_DIGITS : Nat := 9

def MAX_SIZE : Int := 999999999

structure Request where
  pid : CInt
  seqLen : CInt

/-- A `struct response` that a client has been sent, with the request that it answers. -/
structure Response where
  request : Request
  seqNum : Int

structure Server where
  seqNum : Int
  backup : List UInt8

/-- What is before the terminator of a buffer. -/
def cString (bytes : List UInt8) : List UInt8 := bytes.takeWhile (· ≠ 0)

/-- The start of `main`, with the content of the backup file; `none` is an exit. -/
def startup (backup : List UInt8) : Option Server :=
  let seqNumBuf := backup.take MAX_DIGITS
  if seqNumBuf.length ≠ 0 then
    match Utils.getNum (cString seqNumBuf) with
    | none => none
    | some seqNum => some { seqNum, backup }
  else some { seqNum := 0, backup }

inductive WriteResult where
  | complete
  | epipe
  | failed
  deriving DecidableEq

/-- The system calls of one iteration. `request` is `none` when `read` does not return a whole
request, and `writes` are the results of the attempts to write the response, counted down. -/
structure Calls where
  stopRequested : Bool
  request : Option Request
  openDummy : Bool
  openClient : Bool
  writes : Nat → WriteResult
  ftruncate : Bool
  lseek : Bool
  writeBackup : Bool

/-- The retry loop; `left` attempts remain. -/
def writeResponse (writes : Nat → WriteResult) : Nat → WriteResult
  | 0 => .epipe
  | left + 1 =>
    match writes left with
    | .epipe => writeResponse writes left
    | result => result

/-- The test before "Requested number too large". The sum is a `long`. -/
def tooLarge (seqNum : Int) (request : Request) : Bool :=
  request.seqLen.1 + seqNum > MAX_SIZE || request.seqLen.1 + seqNum < -MAX_SIZE

/-- `snprintf(seq_num_buf, 10, "%d", seq_num)`. -/
def seqNumText (seqNum : Int) : List UInt8 := (formatInt seqNum).take MAX_DIGITS

structure Iteration where
  response : Option Response
  server : Server
  continues : Bool

def iteration (s : Server) (calls : Calls) : Iteration :=
  if calls.stopRequested then ⟨none, s, false⟩
  else
    match calls.request with
    | none => ⟨none, s, true⟩
    | some request =>
      if ¬ calls.openDummy then ⟨none, s, true⟩
      else if ¬ calls.openClient then ⟨none, s, true⟩
      else
        let response := if writeResponse calls.writes 3 = .complete then
          some { request, seqNum := s.seqNum } else none
        let seqNum := if tooLarge s.seqNum request then s.seqNum
          else s.seqNum + request.seqLen.1
        if ¬ calls.ftruncate then ⟨response, { s with seqNum }, false⟩
        else if ¬ calls.lseek then ⟨response, { seqNum, backup := [] }, false⟩
        else if ¬ calls.writeBackup then ⟨response, { seqNum, backup := [] }, false⟩
        else ⟨response, { seqNum, backup := seqNumText seqNum }, true⟩

def responses (s : Server) : List Calls → List Response
  | [] => []
  | calls :: rest =>
    let i := iteration s calls
    i.response.toList ++ if i.continues then responses i.server rest else []

end Tlpi.SeqnumFifo
