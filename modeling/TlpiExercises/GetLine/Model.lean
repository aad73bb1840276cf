import TlpiExercises.C.Strings
import TlpiExercises.DynamicArray.Model
import TlpiExercises.Library.Loop

/-!
# `getline_clone` of 12_System_And_Process_Info/list_pid.c, and `fgetstr` of lib/utils.h

Both read a line with one `read` for each byte. Where `read` has not returned a byte they stop, so that
the number of a call is the number of bytes that have been consumed.
-/

namespace Tlpi.GetLine

open Loop DynamicArray

/-- A descriptor at a place in a stream, and which calls of `read` fail. -/
structure Input where
  stream : Nat → Option UInt8
  position : Nat
  fails : Nat → Bool

inductive Read where
  | failed
  | eof
  | byte (c : UInt8)
  deriving DecidableEq

/-- `read(fd, &c, 1)`, after `consumed` bytes. -/
def Input.read (input : Input) (consumed : Nat) : Read :=
  if input.fails consumed then .failed
  else
    match input.stream (input.position + consumed) with
    | none => .eof
    | some c => .byte c

/-- The C string that a function returns, or NULL. -/
structure Returned where
  string : Option (List UInt8)
  consumed : Nat
  deriving DecidableEq

/-- What a call to the allocator brings: number 0 for the first one, and then one number for each byte. -/
abbrev Allocator := Nat → Option Allocation

/-- The string that begins with the block. -/
def stringAt (bytes : List UInt8) (consumed : Nat) : Except Fault Returned :=
  if 0 ∈ bytes then .ok ⟨some (bytes.takeWhile (· ≠ 0)), consumed⟩ else .error .outOfBounds

/-! ### getline_clone -/

structure State where
  size : Nat
  totalRead : Nat
  line : List UInt8
  consumed : Nat

def reallocLine (outcome : Option Allocation) (line : List UInt8) (n : Nat) : Option (List UInt8) :=
  if n ≤ PTRDIFF_MAX then outcome.map (fun a => Buffer.resize line n a.junk) else none

/-- The first half of a round. -/
def growLine (outcome : Option Allocation) (s : State) : Option State :=
  if s.totalRead + 1 ≥ s.size then
    match reallocLine outcome s.line (sizeT (s.size * 2)) with
    | none => none
    | some temp => some { s with size := sizeT (s.size * 2), line := temp }
  else some s

/-- What follows the loop. -/
def endLine (s : State) : Except Fault Returned :=
  match Buffer.write s.line s.totalRead [0] with
  | none => .error .outOfBounds
  | some line => stringAt line s.consumed

def readCharacter (alloc : Allocator) (input : Input) (s : State) : Except (Except Fault Returned) State :=
  match growLine (alloc (s.consumed + 1)) s with
  | none => .error (.ok ⟨none, s.consumed⟩)
  | some s =>
    match input.read s.consumed with
    | .failed => .error (.ok ⟨none, s.consumed⟩)
    | .eof => .error (endLine s)
    | .byte character =>
      let s := { s with consumed := s.consumed + 1 }
      if character = NEWLINE then .error (endLine s)
      else
        match Buffer.write s.line s.totalRead [character] with
        | none => .error (.error .outOfBounds)
        | some line => .ok { s with line, totalRead := sizeT (s.totalRead + 1) }

/-- `none` stands for a call that has not returned yet. -/
def getlineClone (alloc : Allocator) (input : Input) (fuel : Nat) : Option (Except Fault Returned) :=
  match malloc (alloc 0) 64 with
  | none => some (.ok ⟨none, 0⟩)
  | some block => loop (readCharacter alloc input) fuel ⟨64, 0, block.bytes, 0⟩

/-! ### fgetstr -/

structure Chars where
  chars : DynArray
  consumed : Nat

/-- `*c = '\0'`, and `da_detach` after the loop. -/
def endString (s : Chars) (c : Pointer) : Except Fault Returned :=
  match s.chars.store c [0] with
  | .error fault => .error fault
  | .ok chars => stringAt chars.bytes s.consumed

def readChar (alloc : Allocator) (input : Input) (s : Chars) : Except (Except Fault Returned) Chars :=
  let (c, chars) := daPush (alloc (s.consumed + 1)) s.chars
  if c = NULL then .error (.ok ⟨none, s.consumed⟩)
  else
    match input.read s.consumed with
    | .failed => .error (.ok ⟨none, s.consumed⟩)
    | .eof => .error (endString ⟨chars, s.consumed⟩ c)
    | .byte character =>
      match chars.store c [character] with
      | .error fault => .error (.error fault)
      | .ok chars =>
        match chars.load c 1 with
        | .error fault => .error (.error fault)
        | .ok value =>
          if value = [NEWLINE] then .error (endString ⟨chars, s.consumed + 1⟩ c)
          else .ok ⟨chars, s.consumed + 1⟩

/-- `uninitialised` is what is in `chars` before `da_init`. -/
def fgetstr (alloc : Allocator) (uninitialised : DynArray) (input : Input) (fuel : Nat) :
    Option (Except Fault Returned) :=
  loop (readChar alloc input) fuel ⟨(daInit (alloc 0) uninitialised 0 1).2, 0⟩

end Tlpi.GetLine
