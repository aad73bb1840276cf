import TlpiExercises.C.Strings
import TlpiExercises.Library.LinkTree

/-!
# 30_Thread_Synchronhization/ts_btree.h, one caller

The tree with a mutex in every node, as one thread runs through it. Every function takes the
mutexes that the caller holds and returns those it holds afterwards.
-/

namespace Tlpi.ThreadSafeTree

open LinkTree

def BT_KEY_MAX : Nat := 255

abbrev Mutex := Nat

/-- The fields of a `BTNode_ts` besides its links and key. `mtx` is NULL until it is allocated. -/
structure Payload (V : Type) where
  mtx : Option Mutex
  value : V
  deriving DecidableEq, Repr

abbrev BTNodeTs (V : Type) := LinkTree CStr (Payload V)

structure BTreeTs (V : Type) where
  root : BTNodeTs V
  mtx : Mutex

structure NodeMutex where
  node : Slot
  parMtx : Mutex

/-- What ends a call early: undefined behaviour, or a misuse of a mutex. -/
inductive CallError where
  | fault (fault : Fault)
  | relock (mtx : Mutex)
  | notHeld (mtx : Mutex)
  deriving DecidableEq, Repr

variable {V : Type}

def dereference {α : Type} : Option α → Except CallError α
  | some value => .ok value
  | none => .error (.fault .nullDereference)

def lock (mtx : Mutex) (held : List Mutex) : Except CallError (List Mutex) :=
  if mtx ∈ held then .error (.relock mtx) else .ok (mtx :: held)

def unlock (mtx : Mutex) (held : List Mutex) : Except CallError (List Mutex) :=
  if mtx ∈ held then .ok (held.erase mtx) else .error (.notHeld mtx)

/-- The outcomes of the three `malloc` calls of `bt_create_node_ts`. -/
structure Mallocs where
  node : Bool
  mtx : Bool
  key : Bool
  deriving DecidableEq, Repr

def Mallocs.succeed : Mallocs := ⟨true, true, true⟩

/-- The new content of the link `*node`; `fresh` is the mutex that `malloc` returns. -/
def btCreateNodeTs (m : Mallocs) (fresh : Mutex) (key : CStr) (value : V) :
    Except CallError (Status × BTNodeTs V) :=
  if m.node then
    if m.mtx then
      if m.key then
        match strcpy (BT_KEY_MAX + 1) key with
        | .ok copy => .ok (.success, .node .null .null (some copy) ⟨some fresh, value⟩)
        | .error fault => .error (.fault fault)
      else
        .ok (.failure (some .ENOMEM), .node .null .null none ⟨some fresh, value⟩)
    else
      .ok (.failure (some .ENOMEM), .node .null .null none ⟨none, value⟩)
  else
    .error (.fault .nullDereference)

def btAddRecTs (m : Mallocs) (fresh : Mutex) :
    BTNodeTs V → Mutex → CStr → V → List Mutex →
      Except CallError ((Status × BTNodeTs V) × List Mutex)
  | .null, _, _, _, _ => .error (.fault .nullDereference)
  | .node left right nodeKey payload, mtx, key, value, held => do
    let nodeMtx ← dereference payload.mtx
    let held ← lock nodeMtx held
    let held ← unlock mtx held
    let rv := strcmp key (← dereference nodeKey)
    if rv = 0 then
      -- The duplicate exit leaves without an UNLOCK.
      return ((.failure (some .EINVAL), .node left right nodeKey payload), held)
    else if rv < 0 then
      if left.isNull then
        let (status, left) ← btCreateNodeTs m fresh key value
        return ((status, .node left right nodeKey payload), ← unlock nodeMtx held)
      else
        let ((status, left), held) ← btAddRecTs m fresh left nodeMtx key value held
        return ((status, .node left right nodeKey payload), held)
    else
      if right.isNull then
        let (status, right) ← btCreateNodeTs m fresh key value
        return ((status, .node left right nodeKey payload), ← unlock nodeMtx held)
      else
        let ((status, right), held) ← btAddRecTs m fresh right nodeMtx key value held
        return ((status, .node left right nodeKey payload), held)

def btAddTs (m : Mallocs) (fresh : Mutex) (tree : BTreeTs V) (key : CStr) (value : V)
    (held : List Mutex) : Except CallError ((Status × BTreeTs V) × List Mutex) := do
  let held ← lock tree.mtx held
  if tree.root.isNull then
    let (status, root) ← btCreateNodeTs m fresh key value
    return ((status, { tree with root }), ← unlock tree.mtx held)
  else
    let ((status, root), held) ← btAddRecTs m fresh tree.root tree.mtx key value held
    return ((status, { tree with root }), held)

/-- `out` is the outcome of the `malloc` of the result. -/
def btFindNodeTs (out : Bool) :
    BTNodeTs V → Mutex → CStr → List Mutex → Except CallError (Option NodeMutex × List Mutex)
  | .null, _, _, _ => .error (.fault .nullDereference)
  | .node left right nodeKey payload, mtx, key, held => do
    let nodeMtx ← dereference payload.mtx
    let held ← lock nodeMtx held
    let held ← unlock mtx held
    let rv := strcmp key (← dereference nodeKey)
    if rv < 0 then
      if left.isNull then
        return (none, ← unlock nodeMtx held)
      else
        let (found, held) ← btFindNodeTs out left nodeMtx key held
        return (found.map (fun f => { f with node := .left :: f.node }), held)
    else if rv > 0 then
      if right.isNull then
        return (none, ← unlock nodeMtx held)
      else
        let (found, held) ← btFindNodeTs out right nodeMtx key held
        return (found.map (fun f => { f with node := .right :: f.node }), held)
    else if out then
      return (some ⟨[], mtx⟩, held)
    else
      return (none, held)

/-- `node->mtx` and `node->value` of the node that a slot points to. -/
def payloadAt (root : BTNodeTs V) (slot : Slot) : Except CallError (Payload V) := do
  match ← dereference (root.deref slot) with
  | .null => .error (.fault .nullDereference)
  | .node _ _ _ payload => return payload

/-- `value` is what `*value` holds at the call. -/
def btLookupTs (out : Bool) (tree : BTreeTs V) (key : CStr) (value : V) (held : List Mutex) :
    Except CallError ((Status × V) × List Mutex) := do
  let held ← lock tree.mtx held
  if tree.root.isNull then
    return ((.failure none, value), ← unlock tree.mtx held)
  let (found, held) ← btFindNodeTs out tree.root tree.mtx key held
  let result ← match found with
    | none => pure (Status.failure none, value)
    | some target => do pure (Status.success, (← payloadAt tree.root target.node).value)
  -- The node is unlocked through `target`, also when it is NULL.
  let target ← dereference found
  let mtx ← dereference (← payloadAt tree.root target.node).mtx
  return (result, ← unlock mtx held)

def nodeMtx : BTNodeTs V → Except CallError Mutex
  | .null => .error (.fault .nullDereference)
  | .node _ _ _ payload => dereference payload.mtx

/-- The switch on the number of children. The two-child case is commented out in the source. -/
def btUnlinkTs (root : BTNodeTs V) (target : NodeMutex) (targetLeft targetRight : BTNodeTs V)
    (held : List Mutex) : Except CallError (BTNodeTs V × List Mutex) :=
  match targetLeft.isNull, targetRight.isNull with
  | true, true => do
    let held ← lock target.parMtx held
    return (root.assign target.node .null, ← unlock target.parMtx held)
  | false, true => do
    let held ← lock target.parMtx held
    return (root.assign target.node targetLeft, ← unlock target.parMtx held)
  | true, false => do
    let held ← lock target.parMtx held
    return (root.assign target.node targetRight, ← unlock target.parMtx held)
  | false, false => return (root, held)

def btDeleteTs (out : Bool) (tree : BTreeTs V) (targetKey : CStr) (held : List Mutex) :
    Except CallError ((Status × BTreeTs V) × List Mutex) := do
  let held ← lock tree.mtx held
  if tree.root.isNull then
    return ((.failure none, tree), ← unlock tree.mtx held)
  match ← btFindNodeTs out tree.root tree.mtx targetKey held with
  | (none, held) => return ((.failure (some .EINVAL), tree), held)
  | (some target, held) =>
    match ← dereference (tree.root.deref target.node) with
    | .null => .error (.fault .nullDereference)
    | .node targetLeft targetRight _ _ =>
      -- Both children are locked before they are compared with NULL.
      let leftMtx ← nodeMtx targetLeft
      let held ← lock leftMtx held
      let rightMtx ← nodeMtx targetRight
      let held ← lock rightMtx held
      let (root, held) ← btUnlinkTs tree.root target targetLeft targetRight held
      let held ← unlock leftMtx held
      let held ← unlock rightMtx held
      return ((.success, { tree with root }), held)

end Tlpi.ThreadSafeTree
