import TlpiExercises.BinaryTree.Model
import TlpiExercises.C.CharArray
import TlpiExercises.C.Numbers

/-!
# 59_Sockets_Internet_Domain/nv_sv.c

The loop of `main` after the socket is listening. The two trees hold pointers to buffers that the
server allocates. `bt_print`, which only reads the tree, and the sockets are left out.
-/

namespace Tlpi.NameValue

open Tlpi.BinaryTree

def MAX_KEY : Nat := 30

def MAX_VAL : Nat := 100

def PAS_LEN : Nat := 30

def CMD_DEL : Int := 0

def CMD_ADD : Int := 1

def CMD_MOD : Int := 2

def CMD_GET : Int := 3

structure RequestMsg where
  command : CInt
  password : CharArray PAS_LEN
  key : CharArray MAX_KEY
  value : CharArray MAX_VAL

abbrev Pointer := Nat

/-- The server's buffers in the order of their allocation, with the string that each one holds;
`none` is one that has been freed. -/
abbrev Heap := List (Option CStr)

def Heap.string (heap : Heap) (p : Pointer) : Except Fault CStr :=
  match heap[p]? with
  | some (some text) => .ok text
  | _ => .error .useAfterFree

def Heap.free (heap : Heap) (p : Pointer) : Heap := heap.set p none

def Heap.strcpy (heap : Heap) (p : Pointer) (capacity : Nat) {n : Nat} (source : CharArray n) :
    Except Fault Heap := do
  let _ ← heap.string p
  let text ← source.strcpy capacity
  return heap.set p (some text)

structure Server where
  tree : BTree Pointer
  authTree : BTree Pointer
  heap : Heap

/-- What the calls outside the server decide for one request: the outcomes of `malloc`, and what
the two pointers hold that `main` does not initialise. -/
structure Environment where
  value : Bool
  valueNode : Mallocs
  password : Bool
  passwordNode : Mallocs
  lookup : Pointer
  lookupPass : Pointer

inductive Output where
  | errMsg (text : String)
  /-- `"%s->"` and `"%s\n"` -/
  | modified (before after : CStr)
  /-- `"Value: %s\n"` -/
  | value (value : CStr)
  deriving DecidableEq

inductive End where
  | fault (fault : Fault)
  /-- `errExit` -/
  | exit
  deriving DecidableEq

def orFault {α : Type} (call : Except Fault α) : Except End α := call.mapError .fault

/-! ### Tree calls with a key from a request -/

/-- Whether the comparisons on the way to the key stay inside its array. -/
def comparesInside {V : Type} (key : CharArray MAX_KEY) : BTNode V → Bool
  | .null => true
  | .node _ _ none _ => true
  | .node left right (some nodeKey) _ =>
    !key.1.isPrefixOf nodeKey.bytes &&
      if strcmp key.text nodeKey < 0 then comparesInside key left
      else if strcmp key.text nodeKey > 0 then comparesInside key right
      else true

def withKey {α : Type} (tree : BTree Pointer) (key : CharArray MAX_KEY)
    (call : CStr → Except Fault α) : Except Fault α :=
  if comparesInside key tree.root then call key.text else .error .outOfBounds

/-- `bt_add`; a new cell takes its key from the array by `strcpy`. -/
def addKey (m : Mallocs) (tree : BTree Pointer) (key : CharArray MAX_KEY) (value : Pointer) :
    Except Fault (Status × BTree Pointer) := do
  let (status, tree) ← withKey tree key (btAdd m tree · value)
  if status.rv = 0 ∧ key.terminated = false then .error .outOfBounds else return (status, tree)

/-! ### The commands -/

/-- What both parts of CMD_ADD do: a buffer for the string, and an entry for the key in the tree. -/
def addEntry (malloc : Bool) (m : Mallocs) (heap : Heap) (tree : BTree Pointer)
    (key : CharArray MAX_KEY) {n : Nat} (source : CharArray n) (message : String) :
    Except End (List Output × Heap × BTree Pointer) := do
  if malloc = false then .error .exit
  else
    let text ← orFault (source.strcpy n)
    let heap' := heap ++ [some text]
    let (status, tree) ← orFault (addKey m tree key heap.length)
    if status.rv = -1 then return ([.errMsg message], heap'.free heap.length, tree)
    else return ([], heap', tree)

def cmdAdd (s : Server) (env : Environment) (req : RequestMsg) :
    Except End (List Output × Server) := do
  let (output, heap, tree) ← addEntry env.value env.valueNode s.heap s.tree req.key req.value
    "Duplicate key entered"
  let (output', heap, authTree) ← addEntry env.password env.passwordNode heap s.authTree req.key
    req.password "Couldn't add password"
  return (output ++ output', { tree, authTree, heap })

/-- The checks before CMD_DEL and CMD_MOD; `none` lets the request through. -/
def authenticate (s : Server) (env : Environment) (req : RequestMsg) :
    Except Fault (Option Output) := do
  let (status, lookupPass) ← withKey s.authTree req.key (btLookup s.authTree · env.lookupPass)
  if status.rv = -1 then return some (.errMsg "Key doesn't exist")
  else
    let rv ← CharArray.strcmp (← s.heap.string lookupPass) req.password
    if rv ≠ 0 then return some (.errMsg "Couldn't authenticate") else return none

def cmdDel (s : Server) (env : Environment) (req : RequestMsg) :
    Except Fault (List Output × Server) := do
  match ← authenticate s env req with
  | some message => return ([message], s)
  | none =>
    let (status, tree) ← withKey s.tree req.key (btDelete s.tree ·)
    if status.rv = -1 then return ([.errMsg "Key does not exist"], { s with tree })
    else return ([], { s with tree })

def cmdMod (s : Server) (env : Environment) (req : RequestMsg) :
    Except Fault (List Output × Server) := do
  match ← authenticate s env req with
  | some message => return ([message], s)
  | none =>
    let (status, lookup) ← withKey s.tree req.key (btLookup s.tree · env.lookup)
    if status.rv = -1 then return ([.errMsg "Key value pair does not exist"], s)
    else
      let before ← s.heap.string lookup
      let heap ← s.heap.strcpy lookup MAX_VAL req.value
      let after ← heap.string lookup
      return ([.modified before after], { s with heap })

def cmdGet (s : Server) (env : Environment) (req : RequestMsg) :
    Except Fault (List Output × Server) := do
  let (status, lookup) ← withKey s.tree req.key (btLookup s.tree · env.lookup)
  if status.rv = -1 then return ([.errMsg "Key value pair does not exist"], s)
  else return ([.value (← s.heap.string lookup)], s)

/-- `switch (req.command)`, which has no default. -/
def handle (s : Server) (env : Environment) (req : RequestMsg) :
    Except End (List Output × Server) :=
  if req.command.1 = CMD_ADD then cmdAdd s env req
  else if req.command.1 = CMD_DEL then orFault (cmdDel s env req)
  else if req.command.1 = CMD_MOD then orFault (cmdMod s env req)
  else if req.command.1 = CMD_GET then orFault (cmdGet s env req)
  else .ok ([], s)

/-- One turn of the loop: `accept` fails, or the read is short, or a request has come in. -/
inductive Connection where
  | failed
  | dropped
  | request (env : Environment) (req : RequestMsg)

def serve (s : Server) : Connection → Except End (List Output × Server)
  | .failed => .ok ([.errMsg "Failed to accept connection"], s)
  | .dropped => .ok ([.errMsg "Failed/Partial read; dropping request"], s)
  | .request env req => handle s env req

def Server.initial : Server := ⟨btInitialize, btInitialize, []⟩

def runFrom (s : Server) : List Connection → Except End Server
  | [] => .ok s
  | connection :: connections => do
    let (_, next) ← serve s connection
    runFrom next connections

def run (connections : List Connection) : Except End Server := runFrom .initial connections

end Tlpi.NameValue
