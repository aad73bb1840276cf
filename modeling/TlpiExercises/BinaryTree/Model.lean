import TlpiExercises.C.Strings
import TlpiExercises.Library.LinkTree

/-!
# lib/binary_tree.c

A `BTNode *` is a `LinkTree`: NULL, or a cell with its left and right links, its key (a
pointer that stays NULL when the buffer could not be allocated) and its value. A `BTNode **` is
a slot of the tree it points into.
-/

namespace Tlpi.BinaryTree

open LinkTree

def BT_KEY_MAX : Nat := 255

abbrev BTNode (V : Type) := LinkTree CStr V

structure BTree (V : Type) where
  root : BTNode V

/-- The outcomes of the two `malloc` calls of `bt_create_node`. -/
structure Mallocs where
  node : Bool
  key : Bool
  deriving DecidableEq, Repr

def Mallocs.succeed : Mallocs := ⟨true, true⟩

variable {V : Type}

/-- The new content of the link `*node`, which is assigned before anything can fail. -/
def btCreateNode (m : Mallocs) (key : CStr) (value : V) : Except Fault (Status × BTNode V) :=
  if m.node then
    if m.key then do
      let copy ← strcpy (BT_KEY_MAX + 1) key
      return (.success, .node .null .null (some copy) value)
    else
      return (.failure (some .ENOMEM), .node .null .null none value)
  else
    .error .nullDereference

def btAddRec (m : Mallocs) : BTNode V → CStr → V → Except Fault (Status × BTNode V)
  | .null, _, _ => .error .nullDereference
  | .node left right nodeKey nodeValue, key, value => do
    let rv := strcmp key (← fromPointer nodeKey)
    if rv = 0 then
      return (.failure (some .EINVAL), .node left right nodeKey nodeValue)
    else if rv < 0 then
      let (status, left) ← if left.isNull then btCreateNode m key value else btAddRec m left key value
      return (status, .node left right nodeKey nodeValue)
    else
      let (status, right) ← if right.isNull then btCreateNode m key value else btAddRec m right key value
      return (status, .node left right nodeKey nodeValue)

/-- The slot of the cell with `key`, from `node` on; `none` is the NULL result. -/
def btFindNode : BTNode V → CStr → Except Fault (Option Slot)
  | .null, _ => .error .nullDereference
  | .node left right nodeKey _, key => do
    let rv := strcmp key (← fromPointer nodeKey)
    if rv < 0 then
      if left.isNull then return none
      return (← btFindNode left key).map (.left :: ·)
    else if rv > 0 then
      if right.isNull then return none
      return (← btFindNode right key).map (.right :: ·)
    else
      return some []

def btInitialize : BTree V := ⟨.null⟩

def btAdd (m : Mallocs) (tree : BTree V) (key : CStr) (value : V) :
    Except Fault (Status × BTree V) := do
  let (status, root) ←
    if tree.root.isNull then btCreateNode m key value else btAddRec m tree.root key value
  return (status, ⟨root⟩)

/-- `value` is what `*value` holds at the call, the result what it holds afterwards. -/
def btLookup (tree : BTree V) (key : CStr) (value : V) : Except Fault (Status × V) := do
  if tree.root.isNull then return (.failure none, value)
  -- `*bt_find_node(...)`: the slot is dereferenced before the NULL check that follows.
  let slot ← fromPointer (← btFindNode tree.root key)
  match ← fromPointer (tree.root.deref slot) with
  | .null => return (.failure none, value)
  | .node _ _ _ found => return (.success, found)

/-- The loop of the two-child case: the slot below `node` whose cell has no left child. -/
def leftmost : BTNode V → Slot
  | .null => []
  | .node left _ _ _ => if left.isNull then [] else .left :: leftmost left

def btFreeNode (root : BTNode V) (slot : Slot) : BTNode V := root.assign slot .null

/-- The two-child case: the successor's entry is copied into the target, then the successor's
cell is freed and its right subtree takes its place. -/
def btDeleteBoth (root : BTNode V) (target : Slot) (targetLeft targetRight : BTNode V) :
    Except Fault (BTNode V) := do
  let deleteNode := target ++ .right :: leftmost targetRight
  match ← fromPointer (root.deref deleteNode) with
  | .null => .error .nullDereference
  | .node _ deleteNodeChild deleteKey deleteValue =>
    let copy ← strcpy (BT_KEY_MAX + 1) (← fromPointer deleteKey)
    let root := root.assign target (.node targetLeft targetRight (some copy) deleteValue)
    let root := btFreeNode root deleteNode
    return root.assign deleteNode deleteNodeChild

def btDelete (tree : BTree V) (targetKey : CStr) : Except Fault (Status × BTree V) := do
  if tree.root.isNull then return (.failure none, tree)
  match ← btFindNode tree.root targetKey with
  | none => return (.failure (some .EINVAL), tree)
  | some target =>
    match ← fromPointer (tree.root.deref target) with
    | .null => .error .nullDereference
    | .node targetLeft targetRight _ _ =>
      match targetLeft.isNull, targetRight.isNull with
      | true, true => return (.success, ⟨btFreeNode tree.root target⟩)
      | false, true => return (.success, ⟨(btFreeNode tree.root target).assign target targetLeft⟩)
      | true, false => return (.success, ⟨(btFreeNode tree.root target).assign target targetRight⟩)
      | false, false =>
        return (.success, ⟨← btDeleteBoth tree.root target targetLeft targetRight⟩)

end Tlpi.BinaryTree
