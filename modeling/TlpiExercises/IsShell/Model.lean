import TlpiExercises.C.Numbers
import TlpiExercises.C.Strings
import TlpiExercises.DynamicArray.Model

/-!
# 61_Sockets_Advanced_Topics/is_shell_cl.c and is_shell_sv.c

The client that sends a command line, and the child of the server that runs it. What the command writes
is a function of it. A descriptor that is read is the list of results that `read` has still to give, with
`none` for -1. The connection and the descriptors of the command are left out.
-/

namespace Tlpi.IsShell

open DynamicArray

def MAX_CMD : Nat := 500

/-- `" "` -/
def SPACE : CStr := ⟨[Tlpi.SPACE], by decide⟩

/-! ### The command line -/

/-- The lengths of the arguments, each with a space, and the final NUL, in an `int`. -/
def cmdLen (args : List CStr) : Int := args.foldl (fun n arg => toInt (n + (arg.length + 1))) 1

/-- Both calls of `strcat` for an argument. -/
def appendArg (cmdBuf arg : CStr) : Except Fault CStr := do
  let cmdBuf ← strcat (MAX_CMD + 1) cmdBuf arg
  strcat (MAX_CMD + 1) cmdBuf SPACE

/-- The bytes of `cmd_buf` that are to be sent; behind the string it is filled with NULs. -/
def command (args : List CStr) : Except Fault (Option (List UInt8)) :=
  if cmdLen args > MAX_CMD then .ok none
  else do
    let cmdBuf ← args.foldlM appendArg ⟨[], List.not_mem_nil⟩
    return some ((cmdBuf.bytes ++ List.replicate (MAX_CMD + 1 - cmdBuf.length) 0).take (cmdLen args).toNat)

/-! ### Reading up to the end -/

inductive Gathered where
  | all (da : DynArray)
  | readError
  | noMemory

/-- The loop of both programs. In the server the child exits where `read` fails. The client has an
`errExit` of its own that returns, so that it goes on with the `c` that it has. -/
def gather (exits : Bool) (alloc : Nat → Option Allocation) :
    Nat → UInt8 → List (Option UInt8) → DynArray → Except Fault Gathered
  | _, _, [], da => .ok (.all da)
  | i, c, read :: reads, da =>
    if read.isNone ∧ exits then .ok .readError
    else do
      let c := read.getD c
      let (element, da) ← (Op.push (⟨[c], rfl⟩ : Element 1) (alloc i)).call da
      if element = .pointer NULL then return .noMemory
      gather exits alloc (i + 1) c reads da

/-- `*((char *) da_push(&da)) = '\0'`, and then `da.data` as a string. -/
def terminate (outcome : Option Allocation) (da : DynArray) : Except Fault (List UInt8) := do
  let (element, da) := daPush outcome da
  if element = NULL then .error .nullDereference
  else
    let da ← da.store element [0]
    if 0 ∈ da.bytes then return da.bytes.takeWhile (· ≠ 0) else .error .outOfBounds

/-! ### The server's child -/

/-- `ran` has the command that was given to `system`. -/
inductive Handled where
  | ran (command : List UInt8)
  | readError
  | noMemory
  deriving DecidableEq

def Handled.ran? : Handled → Option (List UInt8)
  | .ran command => some command
  | .readError | .noMemory => none

/-- Number 0 of `alloc` is the call in `da_init`. -/
def handleRequest (alloc : Nat → Option Allocation) (uninitialised : DynArray) (c : UInt8)
    (reads : List (Option UInt8)) : Except Fault Handled := do
  match ← gather true alloc 1 c reads (daInit (alloc 0) uninitialised 0 1).2 with
  | .readError => return .readError
  | .noMemory => return .noMemory
  | .all da => return .ran (← terminate (alloc (reads.length + 1)) da)

/-! ### The client -/

inductive ClientEnd where
  | usage
  | cmdTooLong
  | partialWrite
  | noMemory
  | printed (text : List UInt8)
  deriving DecidableEq

def showOutput (alloc : Nat → Option Allocation) (uninitialised : DynArray) (c : UInt8)
    (reads : List (Option UInt8)) : Except Fault ClientEnd := do
  match ← gather false alloc 1 c reads (daInit (alloc 0) uninitialised 0 1).2 with
  | .readError | .noMemory => return .noMemory
  | .all da => return .printed (← terminate (alloc (reads.length + 1)) da)

/-- What is not initialised in a process, and what its allocations bring. -/
structure Process where
  da : DynArray
  c : UInt8
  alloc : Nat → Option Allocation

structure Exchange where
  ran : Option (List UInt8)
  client : ClientEnd
  deriving DecidableEq

/-- `args` are what stands behind the program's name. `written` is how many bytes `write` takes, where the
client then goes away. -/
def exchange (shell : List UInt8 → List UInt8) (server client : Process) (args : List CStr)
    (written : Nat) : Except Fault Exchange := do
  if args.length < 2 ∨ args.head?.map CStr.bytes = some HELP then return ⟨none, .usage⟩
  match ← command args.tail with
  | none => return ⟨none, .cmdTooLong⟩
  | some bytes =>
    let handled ← handleRequest server.alloc server.da server.c ((bytes.take written).map some)
    if written < bytes.length then return ⟨handled.ran?, .partialWrite⟩
    let output := (handled.ran?.map shell).getD []
    return ⟨handled.ran?, ← showOutput client.alloc client.da client.c (output.map some)⟩

end Tlpi.IsShell
