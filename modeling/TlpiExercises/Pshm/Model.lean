import TlpiExercises.C.Strings
import TlpiExercises.Library.Transitions

/-!
# 54_Posix_Shared_Memory/pshm_writer.c and pshm_reader.c

The two processes, one system call or one `strcpy` a step. A process that polls for a name makes a
step that changes nothing.
-/

namespace Tlpi.Pshm

def MMAP_SIZE : Nat := 4096

/-- What one `read` of at most `MMAP_SIZE - 1` bytes returns. -/
structure Chunk where
  bytes : List UInt8
  nonempty : bytes ≠ []
  fits : bytes.length ≤ MMAP_SIZE - 1

/-- `strcpy` copies up to the first NUL. -/
def Chunk.text (chunk : Chunk) : CStr := .ofBytes chunk.bytes

/-- What both processes see. `input` is what is left of the writer's standard input; `stored` and
`printed` are ghost history. -/
structure Objects where
  writerSem : Bool
  readerSem : Bool
  shm : Bool
  writeValue : Nat
  readValue : Nat
  size : Nat
  mapping : CStr
  input : List Chunk
  stored : List CStr
  printed : List CStr

inductive WriterPc where
  | shmOpen
  | ftruncate
  | mmap
  | createSem
  | openReader
  | wait
  | read
  | strcpy (chunk : Chunk)
  | post
  | truncate
  | lastPost
  | unlinkSem
  | unlinkShm
  | exited

/-- `failed` is an `errExit`. -/
inductive ReaderPc where
  | createSem
  | openWriter
  | shmOpen
  | mmap
  | wait
  | fstat
  | copy
  | print (buf : CStr)
  | post
  | unlink
  | exited
  | failed

structure State where
  writer : WriterPc
  reader : ReaderPc
  objects : Objects

inductive Event where
  | writer
  | reader

def start (input : List Chunk) : State where
  writer := .shmOpen
  reader := .createSem
  objects := ⟨false, false, false, 0, 0, 0, .ofBytes [], input, [], []⟩

def stepWriter (pc : WriterPc) (o : Objects) : Option (WriterPc × Objects) :=
  match pc with
  | .shmOpen => some (.ftruncate, { o with shm := true })
  | .ftruncate => some (.mmap, { o with size := MMAP_SIZE })
  | .mmap => some (.createSem, o)
  | .createSem =>
    if o.writerSem then some (.openReader, o)
    else some (.openReader, { o with writerSem := true, writeValue := 1 })
  | .openReader => if o.readerSem then some (.wait, o) else some (.openReader, o)
  | .wait =>
    match o.writeValue with
    | 0 => none
    | value + 1 => some (.read, { o with writeValue := value })
  | .read =>
    match o.input with
    | [] => some (.truncate, o)
    | chunk :: rest => some (.strcpy chunk, { o with input := rest })
  | .strcpy chunk =>
    some (.post, { o with mapping := chunk.text, stored := o.stored ++ [chunk.text] })
  | .post => some (.wait, { o with readValue := o.readValue + 1 })
  | .truncate => some (.lastPost, { o with size := 0 })
  | .lastPost => some (.unlinkSem, { o with readValue := o.readValue + 1 })
  | .unlinkSem => some (.unlinkShm, { o with writerSem := false })
  | .unlinkShm => some (.exited, { o with shm := false })
  | .exited => none

def stepReader (pc : ReaderPc) (o : Objects) : Option (ReaderPc × Objects) :=
  match pc with
  | .createSem =>
    if o.readerSem then some (.openWriter, o)
    else some (.openWriter, { o with readerSem := true, readValue := 0 })
  | .openWriter => if o.writerSem then some (.shmOpen, o) else some (.openWriter, o)
  | .shmOpen => if o.shm then some (.mmap, o) else some (.failed, o)
  | .mmap => some (.wait, o)
  | .wait =>
    match o.readValue with
    | 0 => none
    | value + 1 => some (.fstat, { o with readValue := value })
  | .fstat => if o.size = 0 then some (.unlink, o) else some (.copy, o)
  | .copy => some (.print o.mapping, o)
  | .print buf => some (.post, { o with printed := o.printed ++ [buf] })
  | .post => some (.wait, { o with writeValue := o.writeValue + 1 })
  | .unlink => some (.exited, { o with readerSem := false })
  | .exited | .failed => none

def step (s : State) (e : Event) : Option State :=
  match e with
  | .writer => (stepWriter s.writer s.objects).map fun (writer, objects) =>
    { s with writer, objects }
  | .reader => (stepReader s.reader s.objects).map fun (reader, objects) =>
    { s with reader, objects }

end Tlpi.Pshm
