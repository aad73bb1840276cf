import TlpiExercises.C.Numbers
import TlpiExercises.C.Strings
import TlpiExercises.Library.Buffer
import TlpiExercises.Library.Loop

/-!
# 06_Processes/setenv_unsetenv_imp.c

`environ` is an array of pointers that a null pointer ends. An allocation of at most `PTRDIFF_MAX` bytes
succeeds.
-/

namespace Tlpi.Setenv

open Loop

abbrev Byte := UInt8

def equals : Byte := 61

def PTRDIFF_MAX : Int := 2 ^ 63 - 1

/-- The size of the local name buffer. -/
def BUF_SIZE : Nat := 100

/-- How a call leaves what C defines: outside of an object, in a buffer that is not filled, or with an
`int` that is too large. -/
inductive Undefined where
  | outOfBounds
  | uninitialized
  | overflow
  deriving DecidableEq

/-- The memory from `environ` on. -/
abbrev Cells := List (Option CStr)

def entries : Cells → List CStr
  | some entry :: rest => entry :: entries rest
  | _ => []

/-! ### setenv_clone -/

/-- What an entry that starts with `name=` has behind it. -/
def valueIn (name : CStr) (entry : CStr) : Option (List Byte) :=
  if (name.bytes ++ [equals]).isPrefixOf entry.bytes then
    some (entry.bytes.drop (name.bytes ++ [equals]).length)
  else none

def getenv (environ : Cells) (name : CStr) : Option (List Byte) :=
  if name.bytes = [] then none else (entries environ).findSome? (valueIn name)

/-- `strcpy` to an address in a block. -/
def strcpyAt (block : List Byte) (offset : Int) (source : List Byte) :
    Except Undefined (List Byte) :=
  if offset < 0 then .error .outOfBounds
  else
    match Buffer.write block offset.toNat (source ++ [0]) with
    | none => .error .outOfBounds
    | some block => .ok block

/-- A fresh block, with `int` arithmetic for its size and the conversion to `size_t`. -/
def mallocFor (nameLength valueLength : Int) (junk : Nat → Byte) : Except Undefined (List Byte) :=
  if nameLength + valueLength + 1 < INT_MIN ∨ INT_MAX < nameLength + valueLength + 1 then
    .error .overflow
  else if PTRDIFF_MAX < (nameLength + valueLength + 1) % 2 ^ 64 then .error .outOfBounds
  else .ok ((List.range ((nameLength + valueLength + 1) % 2 ^ 64).toNat).map junk)

def nameOf (entry : List Byte) : List Byte := entry.takeWhile (· ≠ equals)

/-- `putenv` replaces the first entry of that name, or adds one. -/
def putenv (string : CStr) : List CStr → List CStr
  | [] => [string]
  | entry :: rest =>
    if nameOf entry.bytes = nameOf string.bytes then string :: rest else entry :: putenv string rest

/-- The entries that the call leaves. -/
def setenvClone (environ : Cells) (name value : CStr) (overwrite : Int) (junk : Nat → Byte) :
    Except Undefined (List CStr) :=
  if (getenv environ name).isSome ∧ overwrite = 0 then .ok (entries environ)
  else do
    let nameLength := toInt name.length
    let valueLength := toInt value.length
    let buf ← mallocFor nameLength valueLength junk
    let buf ← strcpyAt buf 0 name.bytes
    let buf ← strcpyAt buf nameLength [equals]
    let buf ← strcpyAt buf (nameLength + 1) value.bytes
    .ok (putenv (.ofBytes buf) (entries environ))

/-! ### unsetenv_clone -/

/-- The copy of an entry up to its `=`; without one it does not get a NUL. -/
def copyName : List Byte → List Byte → Except Undefined (List Byte)
  | _, [] => .error .uninitialized
  | buf, c :: rest =>
    if BUF_SIZE ≤ buf.length then .error .outOfBounds
    else if c = equals then .ok buf
    else copyName (buf ++ [c]) rest

/-- The loop that looks for the name, from the element `index` on. -/
def search (name : CStr) : Nat → Cells → Except Undefined (Option Nat)
  | _, [] => .error .outOfBounds
  | _, none :: _ => .ok none
  | index, some entry :: rest => do
    let buf ← copyName [] entry.bytes
    if strcmpBytes buf name.bytes = 0 then .ok (some index)
    else if INT_MAX < index + 1 then .error .overflow
    else search name (index + 1) rest

/-- The cursors of the loop that moves the elements up. -/
structure Shift where
  i : Nat
  index : Nat
  environ : Cells

def shift (s : Shift) : Except (Except Undefined Cells) Shift :=
  match s.environ[s.i]? with
  | none => .error (.error .outOfBounds)
  | some none => .error (.ok s.environ)
  | some (some _) =>
    match s.environ[s.index + 1]? with
    | none => .error (.error .outOfBounds)
    | some none => .error (.ok (s.environ.set s.index none))
    | some (some next) =>
      if INT_MAX < s.index + 1 then .error (.error .overflow)
      else .ok ⟨s.i + 1, s.index + 1, s.environ.set s.index (some next)⟩

/-- One round of the outer loop. The inner one has a round for each element at most. -/
def round (name : CStr) (environ : Cells) : Except (Except Undefined Cells) Cells :=
  match search name 0 environ with
  | .error undefined => .error (.error undefined)
  | .ok none => .error (.ok environ)
  | .ok (some index) =>
    match loop shift (environ.length + 1) ⟨index, index, environ⟩ with
    | none => .error (.error .outOfBounds)
    | some (.error undefined) => .error (.error undefined)
    | some (.ok environ) => .ok environ

/-- `unsetenv_clone`, with at most `fuel` rounds of its outer loop; `environ` may be NULL. -/
def unsetenvClone (name : CStr) (fuel : Nat) : Option Cells → Option (Except Undefined (Option Cells))
  | none => some (.ok none)
  | some environ => (loop (round name) fuel environ).map fun ending => ending.map some

end Tlpi.Setenv
