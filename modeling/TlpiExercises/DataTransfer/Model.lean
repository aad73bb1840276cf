import TlpiExercises.C.CharArray
import TlpiExercises.Library.Transitions

/-!
# 53_Posix_Semaphores/sem_data_transfer.c

`main` and `readerFunc`, one statement a step. A `read` may also fail, which ends the process.
-/

namespace Tlpi.DataTransfer

def BUF_SIZE : Nat := 4096

/-- What one `read` of at most `BUF_SIZE - 1` bytes returns. -/
structure Chunk where
  bytes : List UInt8
  nonempty : bytes ≠ []
  fits : bytes.length ≤ BUF_SIZE - 1

/-- What both threads see. `input` is what is left of the standard input. `stored` and `printed` are
ghost history: the bytes of each `read`, and the text of each `printf`. -/
structure Objects where
  sem1 : Nat
  sem2 : Nat
  data : CharArray BUF_SIZE
  eof : Bool
  input : List Chunk
  stored : List (List UInt8)
  printed : List CStr

/-- `terminate` is the assignment behind the `read` of `numRead` bytes, `testRead` the test for 0. -/
inductive MainPc where
  | create
  | wait
  | read
  | terminate (numRead : Nat)
  | testRead (numRead : Nat)
  | post
  | testEof
  | join
  | returned
  | failed

inductive ReaderPc where
  | absent
  | wait
  | testEof
  | print
  | post
  | done
  deriving DecidableEq

structure State where
  main : MainPc
  reader : ReaderPc
  objects : Objects

inductive Event where
  | main
  | reader
  | readError

/-- Both semaphores are initialised. -/
def start (input : List Chunk) : State where
  main := .create
  reader := .absent
  objects := ⟨1, 0, ⟨List.replicate BUF_SIZE 0, List.length_replicate⟩, false, input, [], []⟩

def readInto (data : CharArray BUF_SIZE) (chunk : Chunk) : CharArray BUF_SIZE :=
  ⟨chunk.bytes ++ data.1.drop chunk.bytes.length, by
    have fits := chunk.fits
    have whole := data.2
    have some : 0 < BUF_SIZE := by decide
    rw [List.length_append, List.length_drop]
    omega⟩

def terminate (data : CharArray BUF_SIZE) (numRead : Nat) : CharArray BUF_SIZE :=
  ⟨data.1.set numRead 0, by rw [List.length_set, data.2]⟩

def stepMain (pc : MainPc) (r : ReaderPc) (o : Objects) : Option (MainPc × ReaderPc × Objects) :=
  match pc with
  | .create => some (.wait, .wait, o)
  | .wait =>
    match o.sem1 with
    | 0 => none
    | value + 1 => some (.read, r, { o with sem1 := value })
  | .read =>
    match o.input with
    | [] => some (.terminate 0, r, o)
    | chunk :: rest =>
      some (.terminate chunk.bytes.length, r,
        { o with data := readInto o.data chunk, input := rest })
  | .terminate numRead =>
    let stored := if numRead = 0 then o.stored else o.stored ++ [o.data.1.take numRead]
    some (.testRead numRead, r, { o with data := terminate o.data numRead, stored })
  | .testRead numRead => some (.post, r, if numRead = 0 then { o with eof := true } else o)
  | .post => some (.testEof, r, { o with sem2 := o.sem2 + 1 })
  | .testEof => some (if o.eof then .join else .wait, r, o)
  | .join => if r = .done then some (.returned, r, o) else none
  | .returned | .failed => none

def stepReader (pc : ReaderPc) (o : Objects) : Option (ReaderPc × Objects) :=
  match pc with
  | .absent => none
  | .wait =>
    match o.sem2 with
    | 0 => none
    | value + 1 => some (.testEof, { o with sem2 := value })
  | .testEof => some (if o.eof then .done else .print, o)
  | .print => some (.post, { o with printed := o.printed ++ [o.data.text] })
  | .post => some (.wait, { o with sem1 := o.sem1 + 1 })
  | .done => none

/-- The process ends with `main`. -/
def MainPc.ended : MainPc → Bool
  | .returned | .failed => true
  | .create | .wait | .read | .terminate _ | .testRead _ | .post | .testEof | .join => false

def step (s : State) (e : Event) : Option State :=
  if s.main.ended then none
  else
    match e with
    | .main => (stepMain s.main s.reader s.objects).map fun (main, reader, objects) =>
      ⟨main, reader, objects⟩
    | .reader => (stepReader s.reader s.objects).map fun (reader, objects) =>
      { s with reader, objects }
    | .readError =>
      match s.main with
      | .read => some { s with main := .failed }
      | _ => none

end Tlpi.DataTransfer
