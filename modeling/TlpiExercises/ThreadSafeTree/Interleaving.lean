import TlpiExercises.ThreadSafeTree.Model

/-!
# ts_btree.h, many callers

Threads that each make a sequence of `bt_add_ts` calls on one tree. A step is one lock or unlock,
one test or comparison under a lock, or one half of `bt_create_node_ts`: storing the new cell in
the link, then filling it. A cell between the two halves has no key and no mutex, so a thread
that came across it would fault. A slot stands for the pointer into the tree that a thread holds,
since nodes are never moved or freed by these calls. All allocations succeed.
-/

namespace Tlpi.ThreadSafeTree

open LinkTree (Slot)

structure Call (V : Type) where
  key : CStr
  value : V

/-- Where a thread is. `owner` is the mutex of the node that the slot is a link of. -/
inductive Pc (V : Type) where
  | idle
  | lockTree (call : Call V)
  | testRoot (call : Call V)
  | lockNode (call : Call V) (node : Slot) (mtx : Mutex)
  | unlockParent (call : Call V) (node : Slot) (mtx : Mutex)
  | compare (call : Call V) (node : Slot)
  | create (call : Call V) (slot : Slot) (owner : Mutex)
  | fill (call : Call V) (slot : Slot) (owner : Mutex)
  | unlockOwner (call : Call V) (owner : Mutex)

/-- `results` pairs the key of each finished call with the value it returned. -/
structure Thread (V : Type) where
  calls : List (Call V)
  pc : Pc V := .idle
  results : List (CStr × Int) := []

/-- `linked` is ghost history: who has linked which key. -/
structure State (ι V : Type) where
  tree : BTNodeTs V
  treeMtx : Mutex
  owner : Mutex → Option ι
  threads : ι → Thread V
  fresh : Mutex
  linked : List (ι × CStr)

inductive Outcome (σ : Type) where
  | blocked
  | failed (error : CallError)
  | next (state : σ)

section Step

variable {ι V : Type} [DecidableEq ι]

def start (calls : ι → List (Call V)) : State ι V where
  tree := .null
  treeMtx := 0
  owner := fun _ => none
  threads := fun i => { calls := calls i }
  fresh := 1
  linked := []

def State.setThread (s : State ι V) (i : ι) (thread : Thread V) : State ι V :=
  { s with threads := Function.update s.threads i thread }

def State.goto (s : State ι V) (i : ι) (pc : Pc V) : State ι V :=
  s.setThread i { s.threads i with pc }

def State.finish (s : State ι V) (i : ι) (call : Call V) (rv : Int) : State ι V :=
  s.setThread i
    { s.threads i with pc := .idle, results := (s.threads i).results ++ [(call.key, rv)] }

def State.setOwner (s : State ι V) (mtx : Mutex) (i : Option ι) : State ι V :=
  { s with owner := Function.update s.owner mtx i }

/-- `pthread_mutex_lock`: blocks while any thread, the caller included, has the mutex. -/
def State.lock (s : State ι V) (i : ι) (mtx : Mutex) (pc : Pc V) : Outcome (State ι V) :=
  match s.owner mtx with
  | none => .next ((s.setOwner mtx (some i)).goto i pc)
  | some _ => .blocked

/-- The node whose key `compare` reads, with the payload. -/
def State.cell (s : State ι V) (node : Slot) :
    Option (BTNodeTs V × BTNodeTs V × Option CStr × Payload V) :=
  match s.tree.deref node with
  | some (.node left right key payload) => some (left, right, key, payload)
  | _ => none

def State.create (s : State ι V) (i : ι) (call : Call V) (slot : Slot) (owner : Mutex) :
    State ι V :=
  let s := { s with tree := s.tree.assign slot (.node .null .null none ⟨none, call.value⟩) }
  s.goto i (.fill call slot owner)

def State.fill (s : State ι V) (i : ι) (call : Call V) (slot : Slot) (owner : Mutex)
    (cell : BTNodeTs V) : State ι V :=
  let s := { s with
    tree := s.tree.assign slot cell
    fresh := s.fresh + 1
    linked := s.linked ++ [(i, call.key)] }
  s.goto i (.unlockOwner call owner)

/-- `strcmp` and the test of `*nextDirection`. -/
def State.descend (s : State ι V) (i : ι) (call : Call V) (node : Slot) (left right : BTNodeTs V)
    (nodeKey : CStr) (mtx : Mutex) : State ι V :=
  let rv := strcmp call.key nodeKey
  if rv = 0 then
    s.finish i call (-1)
  else
    let (next, slot) := if rv < 0 then (left, node ++ [.left]) else (right, node ++ [.right])
    if next.isNull then s.goto i (.create call slot mtx) else s.goto i (.lockNode call slot mtx)

def step (s : State ι V) (i : ι) : Outcome (State ι V) :=
  match (s.threads i).pc with
  | .idle =>
    match (s.threads i).calls with
    | [] => .blocked
    | call :: calls => .next (s.setThread i { s.threads i with calls, pc := .lockTree call })
  | .lockTree call => s.lock i s.treeMtx (.testRoot call)
  | .testRoot call =>
    if s.tree.isNull then .next (s.goto i (.create call [] s.treeMtx))
    else .next (s.goto i (.lockNode call [] s.treeMtx))
  | .lockNode call node mtx =>
    match s.cell node with
    | some (_, _, _, ⟨some nodeMtx, _⟩) => s.lock i nodeMtx (.unlockParent call node mtx)
    | _ => .failed (.fault .nullDereference)
  | .unlockParent call node mtx =>
    if s.owner mtx = some i then .next ((s.setOwner mtx none).goto i (.compare call node))
    else .failed (.notHeld mtx)
  | .compare call node =>
    match s.cell node with
    | some (left, right, some nodeKey, ⟨some nodeMtx, _⟩) =>
      .next (s.descend i call node left right nodeKey nodeMtx)
    | _ => .failed (.fault .nullDereference)
  | .create call slot owner => .next (s.create i call slot owner)
  | .fill call slot owner =>
    match btCreateNodeTs .succeed s.fresh call.key call.value with
    | .ok (_, cell) => .next (s.fill i call slot owner cell)
    | .error error => .failed error
  | .unlockOwner call owner =>
    if s.owner owner = some i then .next ((s.setOwner owner none).finish i call 0)
    else .failed (.notHeld owner)

/-- Any thread may take the next step. -/
def Steps (s s' : State ι V) : Prop := ∃ i, step s i = .next s'

def Reachable (calls : ι → List (Call V)) (s : State ι V) : Prop :=
  Relation.ReflTransGen Steps (start calls) s

end Step

end Tlpi.ThreadSafeTree
