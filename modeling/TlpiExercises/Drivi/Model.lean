import TlpiExercises.C.Strings
import TlpiExercises.Lib.GetNum

/-!
# 64_Pseudoterminals/drivi.c

The bytes that the program writes to the terminal of the editor for a script. Reads, writes and
allocations succeed.
-/

namespace Tlpi.Drivi

abbrev Bytes := List UInt8

def BUF_SIZE : Nat := 256

def LAST : Bytes := [108, 97, 115, 116]
def FIRST : Bytes := [102, 105, 114, 115, 116]
def DELETE : Bytes := [100, 101, 108, 101, 116, 101]
def GOTO : Bytes := [103, 111, 116, 111]
def EDIT : Bytes := [101, 100, 105, 116]

inductive Stop where
  | fault (fault : Fault)
  /-- `exit(EXIT_FAILURE)` after a message. -/
  | exit (message : String)
  /-- The exit of `getInt`. -/
  | notANumber
  deriving DecidableEq

/-- `strcat` onto a string in an array of `BUF_SIZE` characters -/
def strcat (dest src : Bytes) : Except Stop Bytes :=
  if dest.length + src.length < BUF_SIZE then .ok (dest ++ src) else .error (.fault .outOfBounds)

/-! ### The script reader -/

/-- The string `c` after a character has been read into it. -/
def charText (c : UInt8) : Bytes := if c = 0 then [] else [c]

mutual

/-- The outer loop. -/
def readLines (lines : List Bytes) : List UInt8 → Except Stop (List Bytes)
  | [] => .ok lines
  | c :: file =>
    if c = NEWLINE then readLines lines file
    else
      match strcat [] (charText c) with
      | .error stop => .error stop
      | .ok line => readLine lines line file

/-- The inner loop, for the line that has been pushed last. -/
def readLine (lines : List Bytes) (line : Bytes) : List UInt8 → Except Stop (List Bytes)
  | [] => .ok (lines ++ [line])
  | c :: file =>
    if c = NEWLINE then readLines (lines ++ [line]) file
    else
      match strcat line (charText c) with
      | .error stop => .error stop
      | .ok line => readLine lines line file

end

/-! ### The translation loop -/

/-- The token that `strtok` returns, and the string at which the next call goes on. -/
def strtok (delim : List UInt8) (s : Bytes) : Option Bytes × Bytes :=
  match s.dropWhile (· ∈ delim) with
  | [] => (none, [])
  | token => (some (token.takeWhile (· ∉ delim)), (token.dropWhile (· ∉ delim)).tail)

/-- The buffer for a command, and what has been written to `master_fd`. -/
structure State where
  cmd : Bytes
  master : Bytes

/-- `strcat` of some strings one after another. -/
def strcats (dest : Bytes) : List Bytes → Except Stop Bytes
  | [] => .ok dest
  | src :: rest =>
    match strcat dest src with
    | .error stop => .error stop
    | .ok dest => strcats dest rest

/-- The strings are put into `cmd`, which is written. -/
def sendCmd (texts : List Bytes) (s : State) : Except Stop State :=
  match strcats s.cmd texts with
  | .error stop => .error stop
  | .ok cmd => .ok { cmd := cmd, master := s.master ++ cmd }

/-- `opens` says whether the `open` of a file succeeds. -/
def interpret (opens : Bytes → Bool) (token1 token2 : Bytes) (s : State) : Except Stop State :=
  if token1 = LAST then .ok { s with master := s.master ++ [36] }
  else if token1 = FIRST then .ok { s with master := s.master ++ [49] }
  else if token1 = DELETE then
    match GetNum.getInt token2 GetNum.GN_NONNEG with
    | none => .error .notANumber
    | some _ => sendCmd [token2, [100], [NEWLINE]] s
  else if token1 = GOTO then
    match GetNum.getInt token2 GetNum.GN_NONNEG with
    | none => .error .notANumber
    | some _ => sendCmd [token2, [NEWLINE]] s
  else if token1 = EDIT then
    if opens token2 then sendCmd [[101, SPACE], token2, [NEWLINE]] s
    else .error (.exit "drivi: edit: File doesn't exist")
  else .error (.exit "drivi: syntax: unrecognized command")

def processLine (opens : Bytes → Bool) (line : Bytes) (s : State) : Except Stop State :=
  match strtok [SPACE] line with
  | (none, _) => .error (.exit "drivi: syntax: token1")
  | (some token1, rest) =>
    match strtok [SPACE] rest with
    | (none, _) => .error (.exit "drivi: syntax: token2")
    | (some token2, rest) =>
      match strtok [] rest with
      | (some _, _) => .error (.exit "drivi: syntax: 3 or more tokens")
      | (none, _) =>
        match interpret opens token1 token2 s with
        | .error stop => .error stop
        | .ok s => .ok { s with cmd := [] }

/-- `opens i` is about the moment when line `i` is processed. -/
def processLines (opens : Nat → Bytes → Bool) : Nat → List Bytes → State → Except Stop State
  | _, [], s => .ok s
  | i, line :: rest, s =>
    match processLine (opens i) line s with
    | .error stop => .error stop
    | .ok s => processLines opens (i + 1) rest s

/-- `w` and `q!` -/
def SAVE_AND_QUIT : Bytes := [119, NEWLINE, 113, 33, NEWLINE]

/-- What the editor gets. -/
def main (opens : Nat → Bytes → Bool) (script : List UInt8) : Except Stop Bytes :=
  match readLines [] script with
  | .error stop => .error stop
  | .ok lines =>
    match processLines opens 0 lines { cmd := [], master := [] } with
    | .error stop => .error stop
    | .ok s => .ok (s.master ++ SAVE_AND_QUIT)

end Tlpi.Drivi
