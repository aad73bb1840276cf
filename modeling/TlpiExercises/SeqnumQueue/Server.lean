import TlpiExercises.C.Numbers

/-!
# 52_Posix_Message_Queues/pmsg_seqnum_server.c

The request buffer outlives an iteration: when `mq_receive` fails and no stop has been asked for,
the loop goes on with the request of an earlier iteration, or with what the buffer held at first.
-/

namespace Tlpi.SeqnumQueue

structure Request where
  pid : CInt
  seqVal : CInt

/-- A `struct response` that a client has been sent, with the request that it answers. -/
structure Response where
  request : Request
  seqNum : Int

structure Server where
  seqVal : Int
  req : Request

inductive ErrMsg where
  | mqReceive
  | mqOpen
  | mqSend
  | mqClose
  deriving DecidableEq

/-- The outcomes of one iteration: `request` is what `mq_receive` has received, and the two flags
are `quit` where it is tested. -/
structure Calls where
  request : Option Request
  quitReceive : Bool
  mqOpen : Bool
  mqSend : Bool
  quitSend : Bool
  mqClose : Bool

structure Iteration where
  response : Option Response
  server : Server
  errors : List ErrMsg
  continues : Bool

def iteration (s : Server) (calls : Calls) : Iteration :=
  let failed := if calls.request.isSome then [] else [ErrMsg.mqReceive]
  if ¬ calls.request.isSome ∧ calls.quitReceive then ⟨none, s, failed, false⟩
  else
    let req := calls.request.getD s.req
    if ¬ calls.mqOpen then ⟨none, { s with req }, failed ++ [.mqOpen], true⟩
    else if ¬ calls.mqSend ∧ calls.quitSend then ⟨none, { s with req }, failed ++ [.mqSend], false⟩
    else
      let unsent := if calls.mqSend then [] else [ErrMsg.mqSend]
      let unclosed := if calls.mqClose then [] else [ErrMsg.mqClose]
      { response := if calls.mqSend then some { request := req, seqNum := s.seqVal } else none
        server := { seqVal := toInt (s.seqVal + req.seqVal.1), req }
        errors := failed ++ unsent ++ unclosed
        continues := true }

/-- An iteration of a run, and the server before it. -/
structure Turn where
  before : Server
  calls : Calls

def Turn.result (t : Turn) : Iteration := iteration t.before t.calls

def turns (s : Server) : List Calls → List Turn
  | [] => []
  | calls :: rest =>
    let i := iteration s calls
    ⟨s, calls⟩ :: if i.continues then turns i.server rest else []

end Tlpi.SeqnumQueue
