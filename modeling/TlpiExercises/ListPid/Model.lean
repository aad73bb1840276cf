import TlpiExercises.C.Numbers
import TlpiExercises.C.Strings
import TlpiExercises.GetLine.Model

/-!
# 12_System_And_Process_Info/list_pid.c

The lines of a status file, as `getField` and `getValue` take them apart and `getProcessInfo` collects
them. A line may be read up to its NUL, the static buffers hold 50 bytes. The opened file is its
content and the place of the next `read`, which does not fail.
-/

namespace Tlpi.ListPid

open GetLine Loop

def MAX_COMM_NAME : Nat := 64

def MAX_PID : Nat := 32

def TAB : UInt8 := 9

/-- The size of the buffers `value` and `field`. -/
def STATIC_SIZE : Nat := 50

def getCharIndex : List UInt8 → UInt8 → Nat
  | [], _ => 0
  | c :: line, target => if c = target then 0 else getCharIndex line target + 1

/-- `buffer[i] = c`, where `i` bytes have been written so far. -/
def putChar (buffer : List UInt8) (c : UInt8) : Except Fault (List UInt8) :=
  if buffer.length < STATIC_SIZE then .ok (buffer ++ [c]) else .error .outOfBounds

/-- `buffer[i] = '\0'`, and the string that is returned. -/
def terminate (buffer : List UInt8) : Except Fault CStr :=
  if buffer.length < STATIC_SIZE then .ok (.ofBytes buffer) else .error .outOfBounds

/-- The loop of `getValue` over what is left of the line. -/
def copyValue (value : List UInt8) : List UInt8 → Except Fault CStr
  | [] => terminate value
  | c :: rest => if c = TAB then terminate value else do copyValue (← putChar value c) rest

def getValue (line : CStr) : Except Fault CStr :=
  let startIndex := getCharIndex line.bytes TAB + 1
  -- The first byte that is read must not be behind the NUL.
  if startIndex ≤ line.length then copyValue [] (line.bytes.drop startIndex) else .error .outOfBounds

/-- The loop of `getField` over the bytes before the delimiter. -/
def copyField (field : List UInt8) : List UInt8 → Except Fault CStr
  | [] => terminate field
  | c :: rest => do copyField (← putChar field c) rest

def getField (line : CStr) : Except Fault CStr :=
  copyField [] (line.bytes.take (getCharIndex line.bytes COLON))

/-! ### getProcessInfo -/

def UID : CStr := .ofBytes [85, 105, 100]

def NAME : CStr := .ofBytes [78, 97, 109, 101]

def PID : CStr := .ofBytes [80, 105, 100]

/-- The bytes of a `struct ProcessInfo`: `pid` and behind it `name`. -/
abbrev ProcessInfo := { bytes : List UInt8 // bytes.length = MAX_PID + MAX_COMM_NAME }

/-- `strcpy` to a place in the structure. -/
def ProcessInfo.copy (info : ProcessInfo) (offset : Nat) (text : CStr) : Except Fault ProcessInfo :=
  match _written : Buffer.write info.1 offset (text.bytes ++ [0]) with
  | some bytes => .ok ⟨bytes, (Buffer.write_length _written).trans info.2⟩
  | none => .error .outOfBounds

/-- How the loop ends: by a `return` or a `break`, by an `errExit`, or in undefined behaviour. -/
inductive Outcome where
  | returned (rv : Int)
  | exited
  | fault (fault : Fault)
  deriving DecidableEq

structure Scan where
  position : Nat
  round : Nat
  info : ProcessInfo
  collected : Nat

def collectUid (uid : UInt32) (line : CStr) (s : Scan) : Except Outcome Scan :=
  match getValue line with
  | .error fault => .error (.fault fault)
  | .ok value =>
    let number := strtol value.bytes
    if number.rest ≠ [] then .error .exited
    else if uid ≠ UInt32.ofInt number.value then .error (.returned (-1))
    else .ok { s with collected := s.collected + 1 }

/-- A value that is copied into the structure. -/
def collectText (offset : Nat) (line : CStr) (s : Scan) : Except Outcome Scan :=
  match getValue line with
  | .error fault => .error (.fault fault)
  | .ok value =>
    match s.info.copy offset value with
    | .error fault => .error (.fault fault)
    | .ok info => .ok { s with info := info, collected := s.collected + 1 }

/-- The branches over the field of a line. -/
def collect (uid : UInt32) (line : CStr) (s : Scan) : Except Outcome Scan :=
  match getField line with
  | .error fault => .error (.fault fault)
  | .ok field =>
    if strcmp field UID = 0 then collectUid uid line s
    else if strcmp field NAME = 0 then collectText MAX_PID line s
    else if strcmp field PID = 0 then collectText 0 line s
    else .ok s

/-- The file from a place on. -/
def fileAt (content : List UInt8) (position : Nat) : Input :=
  ⟨fun n => content[n]?, position, fun _ => false⟩

/-- The end of a round, where three fields leave the loop. -/
def finishRound : Except Outcome Scan → Except (Option Outcome) Scan
  | .error outcome => .error (some outcome)
  | .ok s => if s.collected = 3 then .error (some (.returned 0)) else .ok s

/-- One round; `.error none` stands for a `getline_clone` that has not returned with so little fuel. -/
def readStatus (alloc : Nat → Allocator) (uid : UInt32) (content : List UInt8) (fuel : Nat)
    (s : Scan) : Except (Option Outcome) Scan :=
  match getlineClone (alloc s.round) (fileAt content s.position) fuel with
  | none => .error none
  | some (.error fault) => .error (some (.fault fault))
  | some (.ok ⟨none, _⟩) => .error (some .exited)
  | some (.ok ⟨some line, consumed⟩) =>
    finishRound (collect uid (.ofBytes line)
      { s with position := s.position + consumed, round := s.round + 1 })

/-- The loop over the opened file. -/
def getProcessInfo (alloc : Nat → Allocator) (uid : UInt32) (content : List UInt8)
    (info : ProcessInfo) (fuel : Nat) : Option Outcome :=
  (loop (readStatus alloc uid content fuel) fuel ⟨0, 0, info, 0⟩).join

end Tlpi.ListPid
