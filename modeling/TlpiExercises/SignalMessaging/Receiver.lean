import TlpiExercises.C.Numbers
import TlpiExercises.C.Strings

/-!
# 22_Signals_Advanced_Features/signal_messaging.c

The loop of `main` and the handler that can run between any two of its statements.
-/

namespace Tlpi.SignalMessaging

def MESS_SIZE : Nat := 1000

/-- What `read` gives to the loop: -1, with `EINTR` or another error, or a line. `queued` says
whether `sigqueue` succeeds for every character of the line. -/
inductive Read where
  | failed
  | interrupted
  | line (buf : List UInt8) (queued : Bool)

inductive Point where
  | read
  | test
  | print
  | clearFlag
  | clearMess
  | exited
  deriving DecidableEq

/-- `printed` and `delivered` are what has been printed, and the characters that the handler has
been called with. -/
structure Process where
  point : Point
  newMessage : Bool
  mess : CStr
  printed : List CStr
  delivered : List UInt8

def Process.initial : Process := ⟨.read, false, CStr.ofBytes [], [], []⟩

def handler (s : Process) (letter : UInt8) : Except Fault Process := do
  let mess ← strcat MESS_SIZE s.mess (CStr.ofBytes [letter])
  return { s with newMessage := true, mess, delivered := s.delivered ++ [letter] }

/-- The number is followed by a colon. The last byte of the line is overwritten with a NUL. -/
def wellFormed (buf : List UInt8) : Bool :=
  (strtol (CStr.ofBytes buf.dropLast).bytes).rest.head? = some 58

def advance (s : Process) (read : Read) : Except Fault Process :=
  match s.point with
  | .read =>
    match read with
    | .failed => .ok { s with point := .exited }
    | .interrupted => .ok { s with point := .test }
    | .line buf queued =>
      if buf = [] then .error .outOfBounds   -- buf[numRead - 1]
      else if ¬ wellFormed buf then .ok s
      else if queued then .ok { s with point := .test }
      else .ok { s with point := .exited }
  | .test => .ok { s with point := if s.newMessage then .print else .read }
  | .print => .ok { s with printed := s.printed ++ [s.mess], point := .clearFlag }
  | .clearFlag => .ok { s with newMessage := false, point := .clearMess }
  | .clearMess => .ok { s with mess := CStr.ofBytes [], point := .read }
  | .exited => .ok s

inductive Event where
  | signal (letter : UInt8)
  | main (read : Read)

def step (s : Process) : Event → Except Fault Process
  | .signal letter => if s.point = .exited then .ok s else handler s letter
  | .main read => advance s read

end Tlpi.SignalMessaging
