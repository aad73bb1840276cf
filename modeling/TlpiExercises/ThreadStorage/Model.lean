import TlpiExercises.C.Libgen
import TlpiExercises.C.Numbers
import TlpiExercises.C.Strings

/-!
# 31_Thread_Safety_Storage/dirbase_name_tls.c and dirbase_name_tsd.c

`dirname_ts` and `basename_ts` with thread-local buffers, and with buffers behind keys of thread-specific
data. The path may lie in the buffer that is written. There is one thread, in which no call fails.
-/

namespace Tlpi.ThreadStorage

open FileSystem

abbrev Byte := UInt8

structure Buf where
  bytes : List Byte
  size : bytes.length = 256

namespace Buf

def set (buf : Buf) (i : Nat) (c : Byte) : Buf where
  bytes := buf.bytes.set i c
  size := by rw [List.length_set, buf.size]

def get (buf : Buf) (i : Nat) : Byte := buf.bytes.getD i 0

def string (buf : Buf) : CStr := .ofBytes buf.bytes

end Buf

/-- Where the path of a call is: outside of the buffer that the call writes, or in it. -/
inductive Source where
  | outside (path : CStr)
  | inside (offset : Nat)

namespace Source

/-- `path[i]` -/
def char (source : Source) (buf : Buf) (i : Nat) : Byte :=
  match source with
  | .outside path => path.bytes.getD i 0
  | .inside offset => buf.get (offset + i)

def string (source : Source) (buf : Buf) : CStr :=
  match source with
  | .outside path => path
  | .inside offset => .ofBytes (buf.bytes.drop offset)

end Source

/-! ### What both versions do -/

/-- The loop from the end of the path that counts up to the last slash. -/
def baseLen : Nat → List Byte → Nat
  | n, [] => n
  | n, c :: rest => if c = slash then n + 1 else baseLen (n + 1) rest

/-- The loop that copies `n` bytes from the front of the path, with `i` behind those that are done. -/
def copyFront (source : Source) : Nat → Nat → Buf → Buf
  | 0, i, buf => buf.set i 0
  | n + 1, i, buf => copyFront source n (i + 1) (buf.set i (source.char buf i))

def dirnameInto (pathLen : Int) (source : Source) (buf : Buf) : Buf :=
  let string := (source.string buf).bytes.take pathLen.toNat
  copyFront source (pathLen - baseLen 0 string.reverse).toNat 0 buf

/-- The loop from the end of the path that copies up to the last slash. It has `i + 1` bytes ahead. -/
def copyBase (source : Source) : Nat → Nat → Buf → Buf
  | 0, y, buf => buf.set y 0
  | i + 1, y, buf =>
    if source.char buf i = slash then buf.set y 0
    else copyBase source i (y + 1) (buf.set y (source.char buf i))

/-- The loop that swaps the bytes at both ends. -/
def swapEnds (buf : Buf) (start : Nat) (stop : Int) : Buf :=
  if start < stop then
    swapEnds ((buf.set start (buf.get stop.toNat)).set stop.toNat (buf.get start)) (start + 1) (stop - 1)
  else buf
termination_by (stop - start).toNat

def basenameInto (pathLen : Int) (source : Source) (buf : Buf) : Buf :=
  let copy := copyBase source pathLen.toNat 0 buf
  swapEnds copy 0 (toInt ((copy.string.length : Int) - 1))

/-- The path of a call: a string of the caller, or a pointer into a buffer. -/
inductive Pointer (B : Type) where
  | string (path : CStr)
  | buffer (b : B) (offset : Nat)

instance {B : Type} : Coe CStr (Pointer B) := ⟨.string⟩

namespace Pointer

variable {B : Type} (content : B → Buf)

def text : Pointer B → CStr
  | .string path => path
  | .buffer b offset => .ofBytes ((content b).bytes.drop offset)

/-- The path, as it lies to the buffer that is written. -/
def source [DecidableEq B] (buf : B) : Pointer B → Source
  | .string path => .outside path
  | .buffer b offset =>
    if b = buf then .inside offset else .outside (.ofBytes ((content b).bytes.drop offset))

end Pointer

/-- What a call returns: the empty literal, NULL, or one of the buffers. -/
inductive Returned (B : Type) where
  | literal
  | null
  | buffer (b : B)
  deriving DecidableEq

/-- The string at a pointer that a call has returned. -/
def Returned.text {B : Type} (read : B → CStr) : Returned B → Option (List Byte)
  | .literal => some []
  | .null => none
  | .buffer b => some (read b).bytes

/-- The part of a function behind the choice of its buffer: `modify` changes the buffer in a state. -/
def fill {S B : Type} [DecidableEq B] (content : S → B → Buf) (modify : S → B → (Buf → Buf) → S)
    (into : Int → Source → Buf → Buf) (path : Pointer B) (buf : B) (s : S) : Returned B × S :=
  let pathLen := toInt (path.text (content s)).length
  if pathLen = 0 then (.literal, s)
  else if pathLen > 255 then (.null, s)
  else (.buffer buf, modify s buf (into pathLen (path.source (content s) buf)))

/-! ### Thread-local storage -/

inductive Static where
  | dirnBuf
  | basnBuf
  deriving DecidableEq

structure Tls where
  dirnBuf : Buf
  basnBuf : Buf

namespace Tls

/-- Static buffers start with zeros. -/
def initial : Tls where
  dirnBuf := ⟨List.replicate 256 0, List.length_replicate⟩
  basnBuf := ⟨List.replicate 256 0, List.length_replicate⟩

def get (s : Tls) : Static → Buf
  | .dirnBuf => s.dirnBuf
  | .basnBuf => s.basnBuf

def modify (s : Tls) (buf : Static) (f : Buf → Buf) : Tls :=
  match buf with
  | .dirnBuf => { s with dirnBuf := f s.dirnBuf }
  | .basnBuf => { s with basnBuf := f s.basnBuf }

def dirnameTs (path : Pointer Static) (s : Tls) : Returned Static × Tls :=
  fill get modify dirnameInto path .dirnBuf s

def basenameTs (path : Pointer Static) (s : Tls) : Returned Static × Tls :=
  fill get modify basenameInto path .basnBuf s

def read (s : Tls) (buf : Static) : CStr := (s.get buf).string

end Tls

/-! ### Thread-specific data -/

/-- `specific` is the value of each key, an index into `heap`. `once`, `dirnameKey` and `basenameKey`
are the static variables. -/
structure Tsd where
  once : Bool
  dirnameKey : Nat
  basenameKey : Nat
  nextKey : Nat
  specific : Nat → Option Nat
  heap : List Buf

namespace Tsd

/-- Static variables start with zeros. -/
def initial : Tsd where
  once := false
  dirnameKey := 0
  basenameKey := 0
  nextKey := 0
  specific := fun _ => none
  heap := []

def createKeyDirname (s : Tsd) : Tsd := { s with dirnameKey := s.nextKey, nextKey := s.nextKey + 1 }

def createKeyBasename (s : Tsd) : Tsd := { s with basenameKey := s.nextKey, nextKey := s.nextKey + 1 }

def pthreadOnce (init : Tsd → Tsd) (s : Tsd) : Tsd :=
  if s.once then s else { init s with once := true }

/-- The buffer of a key, which is allocated where there is none. `junk` is what fresh memory holds. -/
def bufferOf (junk : Nat → Buf) (key : Nat) (s : Tsd) : Nat × Tsd :=
  match s.specific key with
  | some buf => (buf, s)
  | none =>
    (s.heap.length,
      { s with
        specific := fun k => if k = key then some s.heap.length else s.specific k
        heap := s.heap ++ [junk s.heap.length] })

def get (s : Tsd) (buf : Nat) : Buf :=
  (s.heap[buf]?).getD ⟨List.replicate 256 0, List.length_replicate⟩

def modify (s : Tsd) (buf : Nat) (f : Buf → Buf) : Tsd := { s with heap := s.heap.modify buf f }

/-- One of the functions, with its initialiser and its key. -/
def function (init : Tsd → Tsd) (key : Tsd → Nat) (into : Int → Source → Buf → Buf)
    (junk : Nat → Buf) (path : Pointer Nat) (s : Tsd) : Returned Nat × Tsd :=
  let s := s.pthreadOnce init
  let (buf, s) := s.bufferOf junk (key s)
  fill get modify into path buf s

def dirnameTs : (Nat → Buf) → Pointer Nat → Tsd → Returned Nat × Tsd :=
  function createKeyDirname dirnameKey dirnameInto

def basenameTs : (Nat → Buf) → Pointer Nat → Tsd → Returned Nat × Tsd :=
  function createKeyBasename basenameKey basenameInto

def read (s : Tsd) (buf : Nat) : CStr := (s.get buf).string

end Tsd

end Tlpi.ThreadStorage
