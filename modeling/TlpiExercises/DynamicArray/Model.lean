import TlpiExercises.C.Fault
import TlpiExercises.Library.Buffer

/-!
# lib/dynamic_array.c

The growing array. `size_t` arithmetic wraps at 2^64, and an allocation is a block of bytes at an
address; what `malloc` and `realloc` do is given from outside, except that they fail above
`PTRDIFF_MAX` bytes.
-/

namespace Tlpi.DynamicArray

def PTRDIFF_MAX : Nat := 2 ^ 63 - 1

def sizeT (n : Nat) : Nat := n % 2 ^ 64

abbrev Pointer := Nat

def NULL : Pointer := 0

structure Block where
  addr : Pointer
  bytes : List UInt8

structure DynArray where
  data : Option Block
  size : Nat
  capacity : Nat
  dataSize : Nat

def DynArray.bytes (arr : DynArray) : List UInt8 :=
  match arr.data with
  | none => []
  | some block => block.bytes

def DynArray.address (arr : DynArray) : Pointer :=
  match arr.data with
  | none => NULL
  | some block => block.addr

/-- An allocation that succeeds: the place of the block, and what its fresh bytes hold. -/
structure Allocation where
  addr : Pointer
  notNull : addr ≠ NULL
  junk : Nat → UInt8

def realloc (outcome : Option Allocation) (arr : DynArray) (n : Nat) : Option Block :=
  if n ≤ PTRDIFF_MAX then
    outcome.map (fun a => ⟨a.addr, Buffer.resize arr.bytes n a.junk⟩)
  else none

def malloc (outcome : Option Allocation) (n : Nat) : Option Block :=
  if n ≤ PTRDIFF_MAX then outcome.map (fun a => ⟨a.addr, (List.range n).map a.junk⟩) else none

def daInit (outcome : Option Allocation) (arr : DynArray) (size dataSize : Nat) : Int × DynArray :=
  if dataSize = 0 then (-1, arr)
  else
    let data := malloc outcome (sizeT (size * dataSize))
    (if data.isNone then 1 else 0, { data, size, capacity := size, dataSize })

def daGet (arr : DynArray) (index : Nat) : Pointer := arr.address + sizeT (index * arr.dataSize)

/-- The first half of `da_push`: room for one more element, or `none` when it returns NULL. -/
def makeRoom (outcome : Option Allocation) (arr : DynArray) : Option DynArray :=
  if arr.size ≥ arr.capacity then
    let capacity := if arr.capacity = 0 then 1 else sizeT (arr.capacity * 2)
    match realloc outcome arr (sizeT (capacity * arr.dataSize)) with
    | none => none
    | some temp => some { arr with capacity, data := some temp }
  else some arr

def daPush (outcome : Option Allocation) (arr : DynArray) : Pointer × DynArray :=
  match makeRoom outcome arr with
  | none => (NULL, arr)
  | some arr =>
    let arr := { arr with size := sizeT (arr.size + 1) }
    (daGet arr (arr.size - 1), arr)

def daPop (arr : DynArray) : Int × DynArray :=
  if arr.size < 1 then (-1, arr) else (1, { arr with size := arr.size - 1 })

def daClear (outcome : Option Allocation) (arr : DynArray) : Int × DynArray :=
  let data := malloc outcome (sizeT (0 * arr.dataSize))
  (if data.isNone then -1 else 0, { arr with data, size := 0, capacity := 0 })

/-- Reading `n` bytes through a pointer into the array. -/
def DynArray.load (arr : DynArray) (pointer : Pointer) (n : Nat) : Except Fault (List UInt8) :=
  match arr.data with
  | none => .error .nullDereference
  | some block =>
    if pointer < block.addr then .error .outOfBounds
    else
      match Buffer.read block.bytes (pointer - block.addr) n with
      | none => .error .outOfBounds
      | some value => .ok value

def DynArray.store (arr : DynArray) (pointer : Pointer) (value : List UInt8) :
    Except Fault DynArray :=
  match arr.data with
  | none => .error .nullDereference
  | some block =>
    if pointer < block.addr then .error .outOfBounds
    else
      match Buffer.write block.bytes (pointer - block.addr) value with
      | none => .error .outOfBounds
      | some bytes => .ok { arr with data := some { block with bytes } }

/-! ### Sequences of calls -/

abbrev Element (dataSize : Nat) := { bytes : List UInt8 // bytes.length = dataSize }

/-- A call, with what its allocation does. A caller writes every element that it pushes, and may
write an existing one through `da_get`. -/
inductive Op (dataSize : Nat) where
  | push (value : Element dataSize) (outcome : Option Allocation)
  | pop
  | clear (outcome : Option Allocation)
  | get (index : Nat) (write : Option (Element dataSize))

inductive Returned where
  | pointer (pointer : Pointer)
  | status (rv : Int)
  deriving DecidableEq

def Returned.succeeded : Returned → Bool
  | .pointer p => p ≠ NULL
  | .status rv => rv ≠ -1

def Op.call {dataSize : Nat} (arr : DynArray) : Op dataSize → Except Fault (Returned × DynArray)
  | .push value outcome => do
    let (pointer, arr) := daPush outcome arr
    if pointer = NULL then return (.pointer NULL, arr)
    else return (.pointer pointer, ← arr.store pointer value.1)
  | .pop =>
    let (rv, arr) := daPop arr
    return (.status rv, arr)
  | .clear outcome =>
    let (rv, arr) := daClear outcome arr
    return (.status rv, arr)
  | .get index write =>
    let pointer := daGet arr index
    match write with
    | some value =>
      if index < arr.size then do return (.pointer pointer, ← arr.store pointer value.1)
      else return (.pointer pointer, arr)
    | none => return (.pointer pointer, arr)

def run {dataSize : Nat} (arr : DynArray) :
    List (Op dataSize) → Except Fault (List Returned × DynArray)
  | [] => .ok ([], arr)
  | op :: ops => do
    let (returned, arr) ← op.call arr
    let (rest, arr) ← run arr ops
    return (returned :: rest, arr)

end Tlpi.DynamicArray
