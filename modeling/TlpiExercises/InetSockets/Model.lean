import TlpiExercises.Dup.Open

/-!
# lib/inet_sockets.c

Connecting and binding to the addresses that `getaddrinfo` finds. The state is the table of descriptors and
how many address lists are allocated. `errno` and the hints are left out.
-/

namespace Tlpi.InetSockets

open Dup

structure State (F : Type*) where
  table : Table F
  lists : Nat

section Calls

variable {F : Type*}

/-- One address of the list, with what the calls for it do. `socket` may also find the table full. -/
structure AddrInfo (F : Type*) where
  description : F
  addrLen : Nat
  socket : Bool
  setsockopt : Bool
  bind : Bool
  connect : Bool

def AddrInfo.open (rp : AddrInfo F) (t : Table F) : Option (Nat × Table F) :=
  if rp.socket then t.openFile rp.description else none

/-- The loop of `inetConnect`: the address that it stops at. -/
def connectLoop (t : Table F) : List (AddrInfo F) → Option (AddrInfo F × Nat) × Table F
  | [] => (none, t)
  | rp :: rest =>
    match rp.open t with
    | none => connectLoop t rest
    | some (sfd, t) => if rp.connect then (some (rp, sfd), t) else connectLoop (close t sfd) rest

/-- `result` is what `getaddrinfo` returns, `none` for an error. -/
def inetConnect (s : State F) (result : Option (List (AddrInfo F))) : Int × State F :=
  match result with
  | none => (-1, s)
  | some result =>
    let s := { s with lists := s.lists + 1 }
    let (rp, table) := connectLoop s.table result
    let s := { table, lists := s.lists - 1 }
    match rp with
    | none => (-1, s)
    | some (_, sfd) => (sfd, s)

/-- How the loop of `inetPassiveSocket` ends. -/
inductive LoopEnd (F : Type*) where
  | exhausted
  | setsockoptFailed
  | bound (rp : AddrInfo F) (sfd : Nat)

def bindLoop (doListen : Bool) (t : Table F) : List (AddrInfo F) → LoopEnd F × Table F
  | [] => (.exhausted, t)
  | rp :: rest =>
    match rp.open t with
    | none => bindLoop doListen t rest
    | some (sfd, t) =>
      if doListen ∧ rp.setsockopt = false then (.setsockoptFailed, close t sfd)
      else if rp.bind then (.bound rp sfd, t)
      else bindLoop doListen (close t sfd) rest

/-- The descriptor or -1, and what is written to `*addrlen`. -/
def inetPassiveSocket (s : State F) (result : Option (List (AddrInfo F))) (doListen listen : Bool) :
    Int × Option Nat × State F :=
  match result with
  | none => (-1, none, s)
  | some result =>
    let s := { s with lists := s.lists + 1 }
    let (loopEnd, table) := bindLoop doListen s.table result
    let s := { s with table }
    match loopEnd with
    | .setsockoptFailed => (-1, none, { s with lists := s.lists - 1 })
    | .exhausted => (-1, none, { s with lists := s.lists - 1 })
    | .bound rp sfd =>
      if doListen ∧ listen = false then (-1, none, { s with lists := s.lists - 1 })
      else (sfd, some rp.addrLen, { s with lists := s.lists - 1 })

def inetListen (s : State F) (result : Option (List (AddrInfo F))) (listen : Bool) :
    Int × Option Nat × State F := inetPassiveSocket s result true listen

/-- No call of `listen` is made. -/
def inetBind (s : State F) (result : Option (List (AddrInfo F))) : Int × Option Nat × State F :=
  inetPassiveSocket s result false false

end Calls

end Tlpi.InetSockets
