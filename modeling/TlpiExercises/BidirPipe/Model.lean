import TlpiExercises.C.Stdio
import TlpiExercises.Library.Transitions

/-!
# 44_Pipes_And_FIFOs/bidir_pipe.c

Parent and child, each in its loop, and the bytes in the two pipes. A `write` of at most PIPE_BUF bytes is
not split. No `close` and no `waitpid` fails.
-/

namespace Tlpi.BidirPipe

def BUF_SIZE : Nat := 100

/-- The bytes that a pipe can hold, at least PIPE_BUF. -/
def PIPE_CAPACITY : Nat := 65536

/-- `fault` is behind a use of memory before `p_io_buf`. -/
inductive ParentPc where
  | fgets
  | write
  | read
  | close
  | waitpid
  | exited
  | failed
  | fault
deriving DecidableEq

/-- `write` begins with the `for` that changes the letters. -/
inductive ChildPc where
  | read
  | write
  | exited
  | failed
  | fault
deriving DecidableEq

structure State where
  parent : ParentPc
  child : ChildPc
  p_io_buf : CharArray BUF_SIZE
  c_io_buf : CharArray BUF_SIZE
  mes_len : Nat
  stdin : List UInt8
  ptoc : List UInt8
  ctop : List UInt8
  printed : List (List UInt8)

inductive Event where
  | parent
  | child

/-- In the C locale. -/
def toupper (c : UInt8) : UInt8 := if 97 ≤ c ∧ c ≤ 122 then c - 32 else c

/-- The parent has `ptoc[1]` and `ctop[0]` open. -/
def ParentPc.holds : ParentPc → Bool
  | .fgets | .write | .read | .close | .fault => true
  | .waitpid | .exited | .failed => false

def ChildPc.holds : ChildPc → Bool
  | .read | .write | .fault => true
  | .exited | .failed => false

def parentFgets (s : State) : State :=
  match fgets (BUF_SIZE - 1) s.stdin with
  | none => { s with parent := .close }
  | some line =>
    match (s.p_io_buf.overwrite line.1 line.2).withoutNewline with
    | .error _ => { s with parent := .fault }
    | .ok buf =>
      { s with parent := .write, p_io_buf := buf, mes_len := buf.text.length + 1,
               stdin := s.stdin.drop line.1.length }

/-- `none` where the call blocks. -/
def stepParent (s : State) : Option State :=
  match s.parent with
  | .fgets => some (parentFgets s)
  | .write =>
    if s.child.holds = false then some { s with parent := .failed }
    else if s.ptoc.length + s.mes_len ≤ PIPE_CAPACITY then
      some { s with parent := .read, ptoc := s.ptoc ++ s.p_io_buf.1.take s.mes_len }
    else none
  | .read =>
    if s.ctop = [] then if s.child.holds then none else some { s with parent := .failed }
    else if fits : (s.ctop.take s.mes_len).length ≤ BUF_SIZE then
      if (s.ctop.take s.mes_len).length = s.mes_len then
        let buf := s.p_io_buf.fill (s.ctop.take s.mes_len) fits
        some { s with parent := .fgets, p_io_buf := buf, ctop := s.ctop.drop s.mes_len,
                      printed := s.printed ++ [buf.text.bytes] }
      else some { s with parent := .failed }
    else some { s with parent := .fault }
  | .close => some { s with parent := .waitpid }
  | .waitpid => if s.child.holds then none else some { s with parent := .exited }
  | .exited | .failed | .fault => none

/-- The `for` goes on to a NUL. -/
def upper {n : Nat} (a : CharArray n) : Option (CharArray n) :=
  if a.terminated then
    some ⟨a.text.bytes.map toupper ++ a.1.drop a.text.bytes.length, by
      have short := a.text_le
      have length := a.2
      unfold CStr.length at short
      simp
      omega⟩
  else none

def stepChild (s : State) : Option State :=
  match s.child with
  | .read =>
    if s.ptoc = [] then if s.parent.holds then none else some { s with child := .exited }
    else
      some { s with child := .write, ptoc := s.ptoc.drop BUF_SIZE,
                    c_io_buf := s.c_io_buf.fill (s.ptoc.take BUF_SIZE) (List.length_take_le ..) }
  | .write =>
    match upper s.c_io_buf with
    | none => some { s with child := .fault }
    | some buf =>
      -- A `write` to a pipe that no process reads is the end of the child.
      if s.parent.holds = false then some { s with child := .failed }
      else if s.ctop.length + (buf.text.length + 1) ≤ PIPE_CAPACITY then
        some { s with child := .read, c_io_buf := buf,
                      ctop := s.ctop ++ buf.1.take (buf.text.length + 1) }
      else none
  | .exited | .failed | .fault => none

def step (s : State) : Event → Option State
  | .parent => stepParent s
  | .child => stepChild s

/-- Behind the `fork`; the buffers hold anything. -/
def start (junk : CharArray BUF_SIZE × CharArray BUF_SIZE) (stdin : List UInt8) : State where
  parent := .fgets
  child := .read
  p_io_buf := junk.1
  c_io_buf := junk.2
  mes_len := 0
  stdin := stdin
  ptoc := []
  ctop := []
  printed := []

end Tlpi.BidirPipe
