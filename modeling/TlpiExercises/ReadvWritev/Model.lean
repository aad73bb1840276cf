import TlpiExercises.C.Numbers

/-!
# 05_File_IO_More_Details/readv_writev_imp.c

`readv_clone` and `writev_clone` differ in the system call and in what they return after a short
transfer. A signed overflow ends a call without a result.
-/

namespace Tlpi.ReadvWritev

def SSIZE_MAX : Int := 2 ^ 63 - 1

inductive Undefined where
  | sumOverflow
  | indexOverflow
  | outOfBounds
  deriving DecidableEq

/-- The `len` bytes at `buf`. -/
structure DataBuffer where
  buf : List UInt8
  deriving DecidableEq

def DataBuffer.len (b : DataBuffer) : Nat := b.buf.length

/-- `einval` is whether the function itself has set `errno` to `EINVAL`. `moved` are the bytes of
each transfer, and `buffers` the memory afterwards. -/
structure Result where
  rv : Int
  einval : Bool
  moved : List (List UInt8)
  buffers : List DataBuffer
  deriving DecidableEq

/-- The first loop, with an `int` for its index. -/
def sumLens (length : Int) : Nat → Int → List DataBuffer → Except Undefined Int
  | i, totalBytes, rest =>
    if i < length then
      match rest with
      | [] => .error .outOfBounds
      | b :: rest =>
        if totalBytes + b.len > SSIZE_MAX then .error .sumOverflow
        else if (i : Int) + 1 > INT_MAX then .error .indexOverflow
        else sumLens length (i + 1) (totalBytes + b.len) rest
    else .ok totalBytes
termination_by structural _ _ rest => rest

/-- The second loop. `transfer` is the system call, which fails or moves some bytes, and
`onShort total last` is what is returned when it has moved fewer than the buffer has. -/
def transferLoop (transfer : Nat → DataBuffer → Option (List UInt8 × DataBuffer))
    (onShort : Int → Int → Int) : Nat → Int → List DataBuffer → Result
  | _, total, [] => ⟨total, false, [], []⟩
  | i, total, b :: rest =>
    match transfer i b with
    | none => ⟨-1, false, [], b :: rest⟩
    | some (bytes, b') =>
      if bytes.length ≠ b.len then
        ⟨onShort (total + bytes.length) bytes.length, false, [bytes], b' :: rest⟩
      else
        let result := transferLoop transfer onShort (i + 1) (total + bytes.length) rest
        { result with moved := bytes :: result.moved, buffers := b' :: result.buffers }

def vectorClone (transfer : Nat → DataBuffer → Option (List UInt8 × DataBuffer))
    (onShort : Int → Int → Int) (buffers : List DataBuffer) (length : Int) :
    Except Undefined Result :=
  if length ≤ 0 then .ok ⟨-1, true, [], buffers⟩
  else
    match sumLens length 0 0 buffers with
    | .error undefined => .error undefined
    | .ok totalBytes =>
      if totalBytes > SSIZE_MAX then .ok ⟨-1, true, [], buffers⟩
      else
        let result := transferLoop transfer onShort 0 0 (buffers.take length.toNat)
        .ok { result with buffers := result.buffers ++ buffers.drop length.toNat }

/-- `reads i` are the bytes that the `read` into buffer `i` gives, and `none` when it fails. -/
def readvClone (reads : Nat → Option (List UInt8)) : List DataBuffer → Int → Except Undefined Result :=
  vectorClone (fun i b => (reads i).map fun bytes => (bytes, ⟨bytes ++ b.buf.drop bytes.length⟩))
    fun totalRead _ => totalRead

/-- `writes i` is what the `write` of buffer `i` returns, and `none` when it fails. -/
def writevClone (writes : Nat → Option Nat) : List DataBuffer → Int → Except Undefined Result :=
  vectorClone (fun i b => (writes i).map fun n => (b.buf.take n, b)) fun _ numWritten => numWritten

end Tlpi.ReadvWritev
