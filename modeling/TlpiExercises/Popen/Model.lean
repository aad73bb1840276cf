import TlpiExercises.C.Strings
import TlpiExercises.Library.Runs

/-!
# 44_Pipes_And_FIFOs/popen_close_imp.c

`popen_imp` and `pclose_imp` with the part of the kernel that they rely on: the open descriptors,
the soft limit on them, and the children that have not been waited for. The kernel hands out the
lowest free descriptors. The new child runs the command and does nothing else to its parent.
-/

namespace Tlpi.Popen

abbrev Fd := Nat

abbrev Pid := Nat

/-- What `fdopen` returns: which of its calls it was, and the descriptor. -/
structure Stream where
  id : Nat
  fd : Fd
  deriving DecidableEq, Repr

/-- A child and how it will end. One that waits for the end of its pipe, `untilClosed`, does not end
before its parent has closed the stream. -/
structure Fate where
  pid : Pid
  status : Nat
  untilClosed : Bool
  deriving DecidableEq, Repr

/-- `stream` is on the other end of the child's pipe. -/
structure Child extends Fate where
  stream : Stream
  deriving DecidableEq, Repr

/-- `returned` is ghost history: the streams that callers of `popen_imp` hold. -/
structure State where
  limit : Nat
  descriptors : List Fd
  init : Bool
  savedFdMax : Nat
  fdToStream : Option (List (Option Stream))
  opened : Nat
  streams : List Stream
  children : List Child
  returned : List Stream
  deriving DecidableEq, Repr

def start (limit : Nat) (descriptors : List Fd) : State where
  limit := limit
  descriptors := descriptors
  init := true
  savedFdMax := 0
  fdToStream := none
  opened := 0
  streams := []
  children := []
  returned := []

inductive End where
  | fault (fault : Fault)
  /-- `waitpid` does not return. -/
  | waiting
  deriving DecidableEq, Repr

/-! ### popen_imp -/

/-- How the calls made by one `popen_imp` come out; `fork` has the child. -/
structure PopenCalls where
  getrlimit : Bool
  atexit : Bool
  allocate : Bool
  pipe : Bool
  fdopen : Bool
  fork : Option Fate
  close : Bool

/-- `realloc` of the table; the new entries hold what the memory held. -/
def resize (entries : List (Option Stream)) (size : Nat) : List (Option Stream) :=
  entries.take size ++ List.replicate (size - entries.length) none

/-- Up to the call of `pipe`, and whether it comes to that. -/
def State.prepare (s : State) (calls : PopenCalls) : State × Bool :=
  if s.init then
    if calls.atexit then
      -- The result of `malloc` is not looked at.
      let fdToStream := if calls.allocate then some (List.replicate s.limit none) else none
      ({ s with fdToStream, savedFdMax := s.limit, init := false }, true)
    else (s, false)
  else if s.savedFdMax < s.limit then
    if calls.allocate then
      ({ s with fdToStream := some (resize (s.fdToStream.getD []) s.limit) }, true)
    else (s, false)
  else (s, true)

def lowest (limit : Nat) (descriptors : List Fd) : Option Fd :=
  (List.range limit).find? (· ∉ descriptors)

def State.pipe (s : State) (calls : PopenCalls) : Option (Fd × Fd) :=
  if calls.pipe then do
    let readEnd ← lowest s.limit s.descriptors
    let writeEnd ← lowest s.limit (readEnd :: s.descriptors)
    return (readEnd, writeEnd)
  else none

/-- A child's number is positive and not that of another child. -/
def State.fork (s : State) (fate : Option Fate) (out : Stream) : Option State := do
  let fate ← fate
  if fate.pid = 0 ∨ fate.pid ∈ s.children.map (·.pid) then none
  else return { s with children := ⟨fate, out⟩ :: s.children }

/-- `fd_to_stream[fileno(out)] = out` -/
def State.store (s : State) (out : Stream) : Except End State :=
  match s.fdToStream with
  | none => .error (.fault .nullDereference)
  | some entries =>
    if out.fd < entries.length then
      .ok { s with
        fdToStream := some (entries.set out.fd (some out))
        returned := out :: s.returned }
    else .error (.fault .outOfBounds)

/-- From `fdopen` on; the parent keeps the descriptor `outFd`, the child gets `shellFd`. -/
def State.spawn (s : State) (calls : PopenCalls) (outFd shellFd : Fd) :
    Except End (State × Option Stream) :=
  let out : Stream := ⟨s.opened, outFd⟩
  let s := { s with
    descriptors := outFd :: shellFd :: s.descriptors
    opened := s.opened + 1
    streams := if calls.fdopen then out :: s.streams else s.streams }
  match s.fork calls.fork out with
  | none => .ok (s, none)
  | some s =>
    let s := { s with descriptors := s.descriptors.filter (· ≠ shellFd) }
    if calls.close = false then .ok (s, none)
    -- `fileno(NULL)`
    else if calls.fdopen = false then .error (.fault .nullDereference)
    else (s.store out).map (·, some out)

def popenImp (s : State) (calls : PopenCalls) (type : CStr) : Except End (State × Option Stream) :=
  if calls.getrlimit = false then .ok (s, none)
  else
    match s.prepare calls with
    | (s, false) => .ok (s, none)
    | (s, true) =>
      match s.pipe calls with
      | none => .ok (s, none)
      | some (readEnd, writeEnd) =>
        if type = .ofBytes [114] then s.spawn calls readEnd writeEnd
        else if type = .ofBytes [119] then s.spawn calls writeEnd readEnd
        -- Both ends are closed again.
        else .ok (s, none)

/-! ### pclose_imp -/

/-- `first` is the child that ends first, among those that `waitpid(0, ...)` waits for. -/
structure PcloseCalls where
  interrupted : Bool
  first : Pid
  fclose : Bool

def State.ends (s : State) (child : Child) : Bool := !child.untilClosed || child.stream ∉ s.streams

/-- A child of the caller's process group, which its children do not leave. -/
def State.anyChild (s : State) (first : Pid) : Option Child :=
  match s.children.filter s.ends with
  | [] => none
  | child :: others => some (((child :: others).find? (·.pid = first)).getD child)

/-- `waitpid(fd, &status, 0)` -/
def State.waitpid (s : State) (calls : PcloseCalls) (fd : Fd) : Except End (Option Child) :=
  if calls.interrupted then .ok none
  else if fd = 0 then
    match s.anyChild calls.first with
    | some child => .ok (some child)
    | none => if s.children.isEmpty then .ok none else .error .waiting
  else
    match s.children.find? (·.pid = fd) with
    | some child => if s.ends child then .ok (some child) else .error .waiting
    | none => .ok none

/-- `fclose(fd_to_stream[fd])`, whether or not it can write out what is left. -/
def State.fclose (s : State) (fd : Fd) : Except End State :=
  match s.fdToStream with
  | none => .error (.fault .nullDereference)
  | some entries =>
    match entries[fd]? with
    | none => .error (.fault .outOfBounds)
    | some none => .error (.fault .useAfterFree)
    | some (some stream) =>
      if stream ∈ s.streams then
        .ok { s with
          descriptors := s.descriptors.filter (· ≠ stream.fd)
          streams := s.streams.filter (· ≠ stream)
          returned := s.returned.filter (· ≠ stream) }
      else .error (.fault .useAfterFree)

structure Closing where
  rv : Int
  waitedFor : Option Child
  deriving DecidableEq, Repr

def pcloseImp (s : State) (calls : PcloseCalls) (stream : Stream) : Except End (State × Closing) :=
  -- `fileno` of a stream that the caller has closed already.
  if stream ∉ s.returned then .error (.fault .useAfterFree)
  else
    match s.waitpid calls stream.fd with
    | .error e => .error e
    | .ok none => .ok (s, ⟨-1, none⟩)
    | .ok (some child) =>
      match { s with children := s.children.erase child }.fclose stream.fd with
      | .error e => .error e
      | .ok s => .ok (s, ⟨if calls.fclose then child.status else -1, some child⟩)

/-! ### Runs -/

inductive Event where
  | setrlimit (limit : Nat)
  | popen (calls : PopenCalls) (type : CStr)
  | pclose (calls : PcloseCalls) (stream : Stream)

def step (s : State) : Event → Except End State
  | .setrlimit limit => .ok { s with limit }
  | .popen calls type => (popenImp s calls type).map Prod.fst
  | .pclose calls stream => (pcloseImp s calls stream).map Prod.fst

/-! ### What is always so -/

structure Sound (descriptors : List Fd) (opened : Nat) (streams : List Stream)
    (children : List Child) (returned : List Stream) : Prop where
  inUse : ∀ stream ∈ streams, stream.fd ∈ descriptors
  fds : ∀ stream ∈ streams, ∀ other ∈ streams, other.fd = stream.fd → other = stream
  old : ∀ stream ∈ streams, stream.id < opened
  oldChildren : ∀ child ∈ children, child.stream.id < opened
  returned : ∀ stream ∈ returned, stream ∈ streams
  pids : ∀ child ∈ children, ∀ other ∈ children, other.pid = child.pid → other = child
  pidsPositive : ∀ child ∈ children, child.pid ≠ 0
  ownStreams : ∀ child ∈ children, ∀ other ∈ children, other.stream = child.stream → other = child

def State.Sound (s : State) : Prop :=
  Popen.Sound s.descriptors s.opened s.streams s.children s.returned

theorem sound_start (limit : Nat) (descriptors : List Fd) : (start limit descriptors).Sound := by
  constructor <;> simp [start]

end Tlpi.Popen
