import Mathlib.Data.List.Basic

/-!
# 52_Posix_Message_Queues/pmsg_file_server.c

A child sends the file in messages of one size. A `struct response_msg` does not say how many bytes
of its data field a read has filled.
-/

namespace Tlpi.FileServer

/-- `sizeof(resp.data)`. -/
def DATA_SIZE : Nat := 4096

def RESP_MT_FAILURE : Nat := 1

def RESP_MT_DATA : Nat := 2

def RESP_MT_END : Nat := 3

abbrev Data := { bytes : List UInt8 // bytes.length = DATA_SIZE }

def Data.store (data : Data) (bytes : List UInt8) (fits : bytes.length ≤ DATA_SIZE) : Data :=
  ⟨bytes ++ data.1.drop bytes.length, by
    rw [List.length_append, List.length_drop, data.2]
    omega⟩

structure ResponseMsg where
  mtype : Nat
  data : Data

/-- What one `read` of a full data field delivers. -/
abbrev Chunk := { bytes : List UInt8 // bytes ≠ [] ∧ bytes.length ≤ DATA_SIZE }

/-- The results of a child's system calls: of the opens, of the reads up to the end of the file,
with `none` for -1, and of the sends by their number. -/
structure ServeCalls where
  mqOpen : Bool
  openFile : Bool
  reads : List (Option Chunk)
  mqSend : Nat → Bool

def couldntOpen : List UInt8 := [67, 111, 117, 108, 100, 110, 39, 116, 32, 111, 112, 101, 110, 0]

def readFailed : List UInt8 := [114, 101, 97, 100, 32, 102, 97, 105, 108, 101, 100, 0]

def send (mqSend : Nat → Bool) (sent : Nat) (resp : ResponseMsg) : List ResponseMsg :=
  if mqSend sent then [resp] else []

def transmit (mqSend : Nat → Bool) (data : Data) (sent : Nat) : List (Option Chunk) → List ResponseMsg
  | [] => send mqSend sent ⟨RESP_MT_END, data⟩
  | none :: _ => send mqSend sent ⟨RESP_MT_FAILURE, data.store readFailed (by decide)⟩
  | some chunk :: reads =>
    let data := data.store chunk.1 chunk.2.2
    if mqSend sent then ⟨RESP_MT_DATA, data⟩ :: transmit mqSend data (sent + 1) reads
    else send mqSend (sent + 1) ⟨RESP_MT_END, data⟩

/-- The messages that reach the client. `data` is what the uninitialised field holds. -/
def serveRequest (data : Data) (calls : ServeCalls) : List ResponseMsg :=
  if ¬ calls.mqOpen then []
  else if ¬ calls.openFile then
    send calls.mqSend 0 ⟨RESP_MT_FAILURE, data.store couldntOpen (by decide)⟩
  else transmit calls.mqSend data 0 calls.reads

/-! ### The loop of the parent -/

def EINTR : Nat := 4

/-- What `mq_receive` returns: a message, or -1 with an `errno`. -/
inductive Receive where
  | message (bytes : List UInt8)
  | failed (errno : Nat)
  deriving DecidableEq

/-- The results of one iteration. `quitReq` is the flag where it is tested, and `fork` is `none`, or
the `errno` of a failure. -/
structure Calls where
  receive : Receive
  quitReq : Bool
  fork : Option Nat

structure Iteration where
  child : Option (List UInt8)
  errno : Nat
  continues : Bool

def iteration (errno : Nat) (calls : Calls) : Iteration :=
  let errno := match calls.receive with
    | .message _ => errno
    | .failed e => e
  if errno = EINTR then ⟨none, errno, !calls.quitReq⟩
  else
    match calls.receive with
    | .failed _ => ⟨none, errno, false⟩
    | .message bytes =>
      match calls.fork with
      | some e => ⟨none, e, false⟩
      | none => ⟨some bytes, errno, true⟩

structure Turn where
  errno : Nat
  calls : Calls

def Turn.result (t : Turn) : Iteration := iteration t.errno t.calls

def turns (errno : Nat) : List Calls → List Turn
  | [] => []
  | calls :: rest =>
    let i := iteration errno calls
    ⟨errno, calls⟩ :: if i.continues then turns i.errno rest else []

end Tlpi.FileServer
