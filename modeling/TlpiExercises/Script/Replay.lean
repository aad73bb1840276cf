import TlpiExercises.C.Strings
import TlpiExercises.Lib.GetNum

/-!
# 64_Pseudoterminals/better_script.c and replay_script.c

What the recorder writes to typescript.timed for each chunk that it reads from the pty master, and
the program that prints such a file. Writes and allocations succeed; `read` gives the bytes of the
file in order.
-/

namespace Tlpi.Script

def BUF_SIZE : Nat := 256

def BACKSLASH : UInt8 := 92

def LETTER_N : UInt8 := 110

/-! ### The recorder -/

abbrev Chunk := { bytes : List UInt8 // bytes ≠ [] ∧ bytes.length ≤ BUF_SIZE ∧ 0 ∉ bytes }

structure Timespec where
  sec : Int
  nsec : Int

def elapsedMs (startTs ts : Timespec) : Int :=
  toInt ((ts.sec - startTs.sec) * 1000 + (ts.nsec - startTs.nsec).tdiv 1000000)

/-- `snprintf(timestamp, 100, "%d ", ms)`. -/
def timestamp (ms : Int) : List UInt8 := (formatInt ms ++ [SPACE]).take 99

/-- The loop over the chunk, which writes a newline as two characters. -/
def escape : List UInt8 → List UInt8
  | [] => []
  | c :: buf => (if c = NEWLINE then [BACKSLASH, LETTER_N] else [c]) ++ escape buf

/-- The bytes that are appended to typescript.timed for one chunk. -/
def timedRecord (startTs : Timespec) (ts : Timespec) (chunk : Chunk) : List UInt8 :=
  timestamp (elapsedMs startTs ts) ++ escape chunk.1 ++ [NEWLINE]

def recordSession (startTs : Timespec) : List (Timespec × Chunk) → List UInt8
  | [] => []
  | (ts, chunk) :: session => timedRecord startTs ts chunk ++ recordSession startTs session

/-! ### The player -/

/-- How the player stops early, with what it has printed before an `exit`. -/
inductive Stop where
  | fault (fault : Fault)
  | exit (printed : List UInt8)
  deriving DecidableEq

/-- `ms[strlen(ms)] = c`, in `char ms[100]`. -/
def appendMs (ms : List UInt8) (c : UInt8) : Except Fault (List UInt8) :=
  if ms.length < 100 then .ok (if c = 0 then ms else ms ++ [c]) else .error .outOfBounds

/-- The loop up to the space: the number's text and the rest of the file, or `none` at its end. -/
def readMs (ms : List UInt8) : List UInt8 → Except Fault (Option (List UInt8 × List UInt8))
  | [] => .ok none
  | c :: file =>
    if c = SPACE then .ok (some (ms, file))
    else
      match appendMs ms c with
      | .error fault => .error fault
      | .ok ms => readMs ms file

/-- The loop up to the newline: the string, the rest of the file, and whether it has ended. -/
def readString (string : List UInt8) : List UInt8 → Except Fault (List UInt8 × List UInt8 × Bool)
  | [] => .ok (string, [], true)
  | c :: file =>
    if c = NEWLINE then .ok (string, file, false)
    else if c = LETTER_N then
      -- `da_get(&string, string.size - 1)` is before the block of an empty string.
      match string.getLast? with
      | none => .error .outOfBounds
      | some last =>
        if last = BACKSLASH then readString (string.dropLast ++ [NEWLINE]) file
        else readString (string ++ [c]) file
    else readString (string ++ [c]) file

/-- Whether `clock_nanosleep` takes the delay. -/
def nanosleepValid (milliseconds : Int) : Bool :=
  let sec := milliseconds.tdiv 1000
  let nsec := milliseconds.tmod 1000 * 1000000
  0 ≤ sec && 0 ≤ nsec && nsec < 1000000000

theorem readMs_shorter {ms text file rest : List UInt8} (h : readMs ms file = .ok (some (text, rest))) :
    rest.length < file.length := by
  induction file generalizing ms with
  | nil => cases h
  | cons c file ih =>
    unfold readMs at h
    split at h
    · obtain ⟨_, rfl⟩ := Prod.mk.inj (Option.some.inj (Except.ok.inj h))
      exact Nat.lt_succ_self _
    · split at h
      · cases h
      · exact Nat.lt_succ_of_lt (ih h)

theorem readString_shorter {s string file rest : List UInt8} {eof : Bool}
    (h : readString s file = .ok (string, rest, eof)) : rest.length ≤ file.length := by
  induction file generalizing s with
  | nil =>
    obtain ⟨_, same⟩ := Prod.mk.inj (Except.ok.inj h)
    rw [(Prod.mk.inj same).1]
  | cons c file ih =>
    unfold readString at h
    split at h
    · obtain ⟨_, same⟩ := Prod.mk.inj (Except.ok.inj h)
      rw [(Prod.mk.inj same).1]
      exact Nat.le_succ _
    · split at h
      · split at h
        · cases h
        · split at h
          · exact Nat.le_succ_of_le (ih h)
          · exact Nat.le_succ_of_le (ih h)
      · exact Nat.le_succ_of_le (ih h)

/-- The loop of `main`, with `last_ms` and what has been printed. -/
def replay (lastMs : Int) (printed file : List UInt8) : Except Stop (List UInt8) :=
  match _ms : readMs [] file with
  | .error fault => .error (.fault fault)
  | .ok none => .ok printed
  | .ok (some (text, afterMs)) =>
    match appendMs text 0 with
    | .error fault => .error (.fault fault)
    | .ok text =>
      match GetNum.getInt text GetNum.GN_NONNEG with
      | none => .error (.exit printed)
      | some currentMs =>
        if nanosleepValid (currentMs - lastMs) then
          match _string : readString [] afterMs with
          | .error fault => .error (.fault fault)
          | .ok (s, _, true) => .ok (printed ++ s)
          | .ok (s, rest, false) => replay currentMs (printed ++ s) rest
        else .error (.exit printed)
termination_by file.length
decreasing_by exact Nat.lt_of_le_of_lt (readString_shorter _string) (readMs_shorter _ms)

def replayScript (file : List UInt8) : Except Stop (List UInt8) := replay 0 [] file

end Tlpi.Script
