import TlpiExercises.C.Numbers
import TlpiExercises.C.Strings

/-!
# itimerspecFromStr of 23_Timers_and_Sleeping (demo_timerfd.c, ptmr_sigev_signal.c, sequential.c)

`secs[/nsecs][:int-secs[/int-nsecs]]`. The function works on a copy of its argument into which it writes
NULs. `strdup` finds memory.
-/

namespace Tlpi.TimerFormat

def SLASH : UInt8 := 47

structure Timespec where
  tvSec : Int
  tvNsec : Int
  deriving DecidableEq

structure Itimerspec where
  itValue : Timespec
  itInterval : Timespec
  deriving DecidableEq

/-- How far `strchr` goes before it finds the character, or `none` where it meets the NUL first. -/
def scan (c : UInt8) : List UInt8 → Except Fault (Option Nat)
  | [] => .error .outOfBounds
  | b :: rest =>
    if b = c then .ok (some 0)
    else if b = 0 then .ok none
    else do return (← scan c rest).map (· + 1)

def strchr (memory : List UInt8) (start : Nat) (c : UInt8) : Except Fault (Option Nat) := do
  return (← scan c (memory.drop start)).map (start + ·)

/-- `if (ptr != NULL) *ptr = '\0'` -/
def cut (memory : List UInt8) : Option Nat → Except Fault (List UInt8)
  | none => .ok memory
  | some i => if i < memory.length then .ok (memory.set i 0) else .error .outOfBounds

def atoiAt (memory : List UInt8) (start : Nat) : Except Fault Int :=
  if 0 ∈ memory.drop start then .ok (atoi ((memory.drop start).takeWhile (· ≠ 0)))
  else .error .outOfBounds

/-- The lines that read the seconds and nanoseconds of one string within the copy. -/
def timespecAt (dupstr : List UInt8) (start : Nat) : Except Fault (Timespec × List UInt8) := do
  let sptr ← strchr dupstr start SLASH
  let dupstr ← cut dupstr sptr
  let tvSec ← atoiAt dupstr start
  let tvNsec ← match sptr with
    | some s => atoiAt dupstr (s + 1)
    | none => pure 0
  return (⟨tvSec, tvNsec⟩, dupstr)

def itimerspecFromStr (str : CStr) : Except Fault Itimerspec := do
  let dupstr := str.bytes ++ [0]
  let cptr ← strchr dupstr 0 COLON
  let dupstr ← cut dupstr cptr
  let (itValue, dupstr) ← timespecAt dupstr 0
  match cptr with
  | none => return ⟨itValue, ⟨0, 0⟩⟩
  | some c =>
    let (itInterval, _) ← timespecAt dupstr (c + 1)
    return ⟨itValue, itInterval⟩

end Tlpi.TimerFormat
