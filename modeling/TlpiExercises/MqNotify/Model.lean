import TlpiExercises.Library.Transitions
import Mathlib.Data.List.Sort

/-!
# Notification of messages

`sigwaitinfo_notify.c` and `notify_once.c`: a program that a signal tells of a message that comes to an
empty queue, and any number of processes that send. No other process reads the queue or registers.
-/

namespace Tlpi.MqNotify

structure Message where
  priority : Nat
  bytes : List UInt8

/-- Where the program is in its `for`; `failed` is after `errExit("mq_notify")`. -/
inductive Pc where
  | wait
  | mqNotify
  | mqReceive
  | failed
deriving DecidableEq

/-- `registered` is what the kernel keeps of `mq_notify`, `pending` the blocked NOTIFY_SIG. -/
structure State where
  pc : Pc
  queue : List Message
  registered : Bool
  pending : Bool
  read : List Message
  sent : List Message

/-- The two programs differ in the line that registers again. -/
structure Program where
  reregisters : Bool

def sigwaitinfoNotify : Program := ⟨true⟩

def notifyOnce : Program := ⟨false⟩

inductive Event where
  | send (m : Message)
  /-- NOTIFY_SIG from a process, not from the queue. -/
  | kill
  | proceed

/-- Behind the messages that are as urgent. -/
def enqueue (m : Message) (queue : List Message) : List Message :=
  queue.orderedInsert (fun new old => old.priority < new.priority) m

/-- A message that comes to an empty queue uses the registration up. -/
def mqSend (maxmsg : Nat) (s : State) (m : Message) : Option State :=
  if s.queue.length < maxmsg then
    if s.queue.isEmpty && s.registered then
      some { s with queue := enqueue m s.queue, sent := s.sent ++ [m], registered := false, pending := true }
    else some { s with queue := enqueue m s.queue, sent := s.sent ++ [m] }
  else none

/-- `none` is EBUSY. -/
def mqNotify (s : State) : Option State :=
  if s.registered then none else some { s with registered := true }

/-- `none` is EAGAIN. -/
def mqReceive (s : State) : Option State :=
  match s.queue with
  | [] => none
  | m :: queue => some { s with queue, read := s.read ++ [m] }

/-- `sigsuspend` or `sigwaitinfo` takes the signal that is pending. -/
def proceed (p : Program) (s : State) : Option State :=
  match s.pc with
  | .wait =>
    if s.pending then
      some { s with pending := false, pc := if p.reregisters then .mqNotify else .mqReceive }
    else none
  | .mqNotify =>
    match mqNotify s with
    | none => some { s with pc := .failed }
    | some s => some { s with pc := .mqReceive }
  | .mqReceive =>
    match mqReceive s with
    | none => some { s with pc := .wait }
    | some s => some s
  | .failed => none

def step (p : Program) (maxmsg : Nat) (s : State) : Event → Option State
  | .send m => mqSend maxmsg s m
  | .kill => some { s with pending := true }
  | .proceed => proceed p s

/-- At the `for`, with the messages that were there before the first `mq_notify`. -/
def start (queue : List Message) : State := ⟨.wait, queue, true, false, [], queue⟩

end Tlpi.MqNotify
