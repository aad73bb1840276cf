import TlpiExercises.Library.Runs

/-!
# 52_Posix_Message_Queues/pmsg_chat.c

`main` from the first `mq_notify` on, with the message queue, the notification registration and the
signals. POSIX notifies once, when a message arrives on an empty queue with no receiver waiting.
-/

namespace Tlpi.Chat

/-- `attr.mq_maxmsg`. -/
def MAX_MESSAGES : Nat := 10

abbrev Message := List UInt8

/-- The statement of `main` that comes next. In `fgets` and `waiting` it has been called, and waits
for input or for a message. -/
inductive Point where
  | notify
  | prompt
  | fgets
  | interrupted
  | receive
  | waiting
  | notifyAgain
  | clearFlag
  | send
  | exited
  deriving DecidableEq

/-- `registration` is what `mq_notify` has left: whether the queue was empty at the call. `pending`
is SIGUSR1 on its way to the process. -/
structure Process where
  point : Point
  queue : List Message
  registration : Option Bool
  pending : Bool
  msgArrived : Bool
  quit : Bool
  printed : List Message
  deriving DecidableEq

def Process.initial : Process := ⟨.notify, [], none, false, false, false, []⟩

inductive Event where
  | arrive (m : Message)
  | notification
  | stopSignal
  | line
  | endOfInput
  | main

structure NotEnabled

def arrive (s : Process) (m : Message) : Process :=
  if s.point = .waiting then { s with printed := s.printed ++ [m], point := .notifyAgain }
  else if s.queue = [] ∧ s.registration.isSome then
    { s with queue := [m], registration := none, pending := true }
  else { s with queue := s.queue ++ [m] }

/-- A handler that returns makes `fgets` return NULL, and `mq_receive` -1. -/
def interrupt (s : Process) : Process :=
  match s.point with
  | .fgets => { s with point := .interrupted }
  | .waiting => { s with point := .notifyAgain }
  | _ => s

/-- `mq_notify`; a queue has one registration. -/
def mqNotify (s : Process) (next : Point) : Process :=
  if s.registration.isSome then { s with point := .exited }
  else { s with registration := some (s.queue = []), point := next }

def advance (s : Process) : Except NotEnabled Process :=
  match s.point with
  | .notify => .ok (mqNotify s .prompt)
  | .prompt => .ok { s with point := .fgets }
  | .fgets => .error {}
  | .interrupted =>
    if s.quit then .ok { s with point := .exited }
    else if s.msgArrived then .ok { s with point := .receive }
    else .ok { s with point := .exited }
  | .receive =>
    match s.queue with
    | [] => .ok { s with point := .waiting }
    | m :: rest => .ok { s with queue := rest, printed := s.printed ++ [m], point := .notifyAgain }
  | .waiting => .error {}
  | .notifyAgain => .ok (mqNotify s .clearFlag)
  | .clearFlag => .ok { s with msgArrived := false, point := .prompt }
  | .send => .ok { s with point := .prompt }
  | .exited => .error {}

def step (s : Process) (e : Event) : Except NotEnabled Process :=
  if s.point = .exited then .error {}
  else
    match e with
    | .arrive m => if s.queue.length < MAX_MESSAGES then .ok (arrive s m) else .error {}
    | .notification =>
      if s.pending then .ok (interrupt { s with pending := false, msgArrived := true })
      else .error {}
    | .stopSignal => .ok (interrupt { s with quit := true })
    | .line => if s.point = .fgets then .ok { s with point := .send } else .error {}
    | .endOfInput => if s.point = .fgets then .ok { s with point := .interrupted } else .error {}
    | .main => advance s

end Tlpi.Chat
