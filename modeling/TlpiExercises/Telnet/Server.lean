import TlpiExercises.BinaryTree.Model
import TlpiExercises.C.CharArray

/-!
# 64_Pseudoterminals/telnet_sv.c

The accept loop. A client makes two connections and sends the same 16 bytes on both. The addresses
that the server prints and what a handler does are left out.
-/

namespace Tlpi.Telnet

open Tlpi.BinaryTree

def ID_LEN : Nat := 16

structure Conn (Client : Type) where
  client : Client
  priority : Bool
  deriving DecidableEq

/-- A `struct session`; `clfd_p` has no value before the second connection. -/
structure Session where
  clfd : Nat
  clfdP : Option Nat

abbrev Pointer := Nat

/-- The tree, the allocated sessions, the variable `session`, and the descriptors from the first
that `accept` can return on. -/
structure Server (Client : Type) where
  sessions : BTree Pointer
  heap : List Session
  session : Pointer
  fds : List (Option (Conn Client))

/-- What is outside the server's control when an id has come in. `behind` stands in memory behind
`session_id`, where a string that has no NUL among the 16 bytes goes on. -/
structure Environment where
  behind : List UInt8
  malloc : Bool
  node : Mallocs
  fork : Bool

/-- `accept` fails, or fewer than 16 bytes are read, or an id has come in. -/
inductive Arrival (Client : Type) where
  | failed
  | short (conn : Conn Client)
  | id (conn : Conn Client) (env : Environment)

inductive End where
  | fault (fault : Fault)
  /-- `errExit` -/
  | exit

/-- A turn of the loop: the connections that a handler gets, and the server afterwards. -/
structure Turn (Client : Type) where
  handler : Option (Option (Conn Client) × Option (Conn Client))
  next : Except End (Server Client)

variable {Client : Type}

def Server.initial (session : Pointer) : Server Client := ⟨btInitialize, [], session, []⟩

/-- The string that the tree functions see at `session_id`. -/
def key (sessionId : CharArray ID_LEN) (behind : List UInt8) : CStr :=
  CStr.ofBytes (sessionId.1 ++ behind)

/-- The lowest descriptor that is free. -/
def accept (conn : Conn Client) : List (Option (Conn Client)) → Nat × List (Option (Conn Client))
  | [] => (0, [some conn])
  | none :: rest => (0, some conn :: rest)
  | some other :: rest =>
    let (fd, rest) := accept conn rest
    (fd + 1, some other :: rest)

def close (fds : List (Option (Conn Client))) (fd : Nat) : List (Option (Conn Client)) := fds.set fd none

def orFault {α : Type} (call : Except Fault α) : Except End α := call.mapError .fault

def newSession (s : Server Client) (key : CStr) (clfd : Nat) (env : Environment) :
    Except End (Server Client) :=
  if env.malloc = false then .error (.fault .nullDereference)
  else do
    let (_, sessions) ← orFault (btAdd env.node s.sessions key s.heap.length)
    return { s with sessions, heap := s.heap ++ [⟨clfd, none⟩], session := s.heap.length }

def forkHandler (s : Server Client) (key : CStr) (clfd : Nat) (env : Environment) : Turn Client :=
  match s.heap[s.session]? with
  | none => ⟨none, .error (.fault .useAfterFree)⟩
  | some session =>
    let heap := s.heap.set s.session { session with clfdP := some clfd }
    let fds := close (close s.fds session.clfd) clfd
    if env.fork = false then ⟨none, .ok { s with heap, fds }⟩
    else
      { handler := some (s.fds[session.clfd]?.join, s.fds[clfd]?.join)
        next := do
          let (status, sessions) ← orFault (btDelete s.sessions key)
          if status.rv = -1 then .error .exit else return { s with sessions, heap, fds } }

def serve (sessionId : Client → CharArray ID_LEN) (s : Server Client) : Arrival Client → Turn Client
  | .failed => ⟨none, .ok s⟩
  | .short conn => ⟨none, .ok { s with fds := (accept conn s.fds).2 }⟩
  | .id conn env =>
    let (clfd, fds) := accept conn s.fds
    let key := key (sessionId conn.client) env.behind
    match btLookup s.sessions key s.session with
    | .error fault => ⟨none, .error (.fault fault)⟩
    | .ok (status, session) =>
      let s := { s with fds, session }
      if status.rv = -1 then ⟨none, newSession s key clfd env⟩ else forkHandler s key clfd env

/-- The pairs of connections that the handlers of a run get. -/
def handlers (sessionId : Client → CharArray ID_LEN) (s : Server Client) :
    List (Arrival Client) → List (Option (Conn Client) × Option (Conn Client))
  | [] => []
  | arrival :: rest =>
    let turn := serve sessionId s arrival
    turn.handler.toList ++
      match turn.next with
      | .ok next => handlers sessionId next rest
      | .error _ => []

end Tlpi.Telnet
