import TlpiExercises.Pshm.Model
import TlpiExercises.Library.Channel
import TlpiExercises.Library.Mutex

/-!
# The hand-over between writer and reader

The two semaphores have one unit between them, and whoever has taken it may use the mapping. What
stands in the mapping and has not been printed is the one item of a channel.
-/

namespace Tlpi.Pshm

open Transitions

/-! ### What a place of the writer says -/

/-- The unit of the two semaphores exists. -/
def WriterPc.started : WriterPc → Bool
  | .shmOpen | .ftruncate | .mmap | .createSem => false
  | .openReader | .wait | .read | .strcpy _ | .post | .truncate | .lastPost | .unlinkSem
  | .unlinkShm | .exited => true

/-- It has seen the reader's semaphore. -/
def WriterPc.opened : WriterPc → Bool
  | .shmOpen | .ftruncate | .mmap | .createSem | .openReader => false
  | .wait | .read | .strcpy _ | .post | .truncate | .lastPost | .unlinkSem | .unlinkShm
  | .exited => true

def WriterPc.holds : WriterPc → Bool
  | .read | .strcpy _ | .post | .truncate | .lastPost => true
  | .shmOpen | .ftruncate | .mmap | .createSem | .openReader | .wait | .unlinkSem | .unlinkShm
  | .exited => false

/-- `post` comes next, with a new text in the mapping. -/
def WriterPc.hasStored : WriterPc → Bool
  | .post => true
  | .shmOpen | .ftruncate | .mmap | .createSem | .openReader | .wait | .read | .strcpy _
  | .truncate | .lastPost | .unlinkSem | .unlinkShm | .exited => false

/-- It has seen the end of its input. -/
def WriterPc.atEnd : WriterPc → Bool
  | .truncate | .lastPost | .unlinkSem | .unlinkShm | .exited => true
  | .shmOpen | .ftruncate | .mmap | .createSem | .openReader | .wait | .read | .strcpy _
  | .post => false

/-- The post after the end of the input is made. -/
def WriterPc.hasPosted : WriterPc → Bool
  | .unlinkSem | .unlinkShm | .exited => true
  | .shmOpen | .ftruncate | .mmap | .createSem | .openReader | .wait | .read | .strcpy _ | .post
  | .truncate | .lastPost => false

def WriterPc.named : WriterPc → Bool
  | .openReader | .wait | .read | .strcpy _ | .post | .truncate | .lastPost | .unlinkSem => true
  | .shmOpen | .ftruncate | .mmap | .createSem | .unlinkShm | .exited => false

def WriterPc.shm : WriterPc → Bool
  | .ftruncate | .mmap | .createSem | .openReader | .wait | .read | .strcpy _ | .post | .truncate
  | .lastPost | .unlinkSem | .unlinkShm => true
  | .shmOpen | .exited => false

def WriterPc.size : WriterPc → Nat
  | .mmap | .createSem | .openReader | .wait | .read | .strcpy _ | .post | .truncate => MMAP_SIZE
  | .shmOpen | .ftruncate | .lastPost | .unlinkSem | .unlinkShm | .exited => 0

/-- What was read and is not yet in the mapping. -/
def WriterPc.inBuffer : WriterPc → List Chunk
  | .strcpy chunk => [chunk]
  | .shmOpen | .ftruncate | .mmap | .createSem | .openReader | .wait | .read | .post | .truncate
  | .lastPost | .unlinkSem | .unlinkShm | .exited => []

/-! ### What a place of the reader says -/

/-- It has not waited yet. -/
def ReaderPc.early : ReaderPc → Bool
  | .createSem | .openWriter | .shmOpen | .mmap => true
  | .wait | .fstat | .copy | .print _ | .post | .unlink | .exited | .failed => false

/-- It has seen the writer's semaphore. -/
def ReaderPc.opened : ReaderPc → Bool
  | .createSem | .openWriter => false
  | .shmOpen | .mmap | .wait | .fstat | .copy | .print _ | .post | .unlink | .exited
  | .failed => true

def ReaderPc.holds : ReaderPc → Bool
  | .fstat | .copy | .print _ | .post | .unlink | .exited => true
  | .createSem | .openWriter | .shmOpen | .mmap | .wait | .failed => false

/-- It has found the object with its full size. -/
def ReaderPc.transfers : ReaderPc → Bool
  | .copy | .print _ | .post => true
  | .createSem | .openWriter | .shmOpen | .mmap | .wait | .fstat | .unlink | .exited
  | .failed => false

def ReaderPc.stopped : ReaderPc → Bool
  | .unlink | .exited => true
  | .createSem | .openWriter | .shmOpen | .mmap | .wait | .fstat | .copy | .print _ | .post
  | .failed => false

/-- The text that is stored and not printed. -/
def unprinted (w : WriterPc) (r : ReaderPc) (o : Objects) : Option CStr :=
  match r with
  | .print buf => some buf
  | .copy => some o.mapping
  | .fstat => if w.hasPosted then none else some o.mapping
  | .post | .unlink | .exited | .failed => none
  | .createSem | .openWriter | .shmOpen | .mmap | .wait =>
    if w.hasStored ∨ (o.readValue ≠ 0 ∧ ¬ w.hasPosted) then some o.mapping else none

def channel (w : WriterPc) (r : ReaderPc) (o : Objects) : Channel CStr :=
  ⟨o.stored, o.printed, unprinted w r o⟩

/-- The invariant, for the two places and the objects. -/
structure At (chunks : List Chunk) (w : WriterPc) (r : ReaderPc) (o : Objects) : Prop where
  writerSem : o.writerSem = w.named
  shm : o.shm = w.shm
  size : o.size = w.size
  unopened : r = .createSem → o.readerSem = false ∧ o.readValue = 0
  openedReader : w.opened → r ≠ .createSem
  openedWriter : r.opened → w.started
  token : o.writeValue + o.readValue + w.holds.toNat + r.holds.toNat = w.started.toNat
  early : r.early → o.printed = []
  text : o.stored ++ (w.inBuffer ++ o.input).map Chunk.text = chunks.map Chunk.text
  inOrder : (channel w r o).InOrder
  atEnd : w.atEnd → o.input = []
  closing : w.hasPosted → o.writeValue = 0 ∧ ¬ r.transfers
  stopped : r.stopped → w.hasPosted
  alive : r ≠ .failed

theorem at_start (chunks : List Chunk) :
    At chunks (start chunks).writer (start chunks).reader (start chunks).objects := by
  refine ⟨rfl, rfl, rfl, fun _ => ⟨rfl, rfl⟩, nofun, nofun, rfl, fun _ => rfl, rfl, rfl, nofun,
    nofun, nofun, nofun⟩

section Steps

variable {chunks : List Chunk} {w w' : WriterPc} {r r' : ReaderPc} {o o' : Objects}

theorem unprinted_writer (stored : w'.hasStored = w.hasStored)
    (posted : w'.hasPosted = w.hasPosted) (value : o'.readValue = o.readValue)
    (mapping : o'.mapping = o.mapping) : unprinted w' r o' = unprinted w r o := by
  unfold unprinted
  rw [stored, posted, value, mapping]

/-- The writer goes on without touching the mapping or the reader's semaphore. -/
theorem inOrder_writer (inv : At chunks w r o) (stored : w'.hasStored = w.hasStored)
    (posted : w'.hasPosted = w.hasPosted) (value : o'.readValue = o.readValue)
    (mapping : o'.mapping = o.mapping) (sent : o'.stored = o.stored)
    (printed : o'.printed = o.printed) : (channel w' r o').InOrder :=
  Channel.inOrder_same inv.inOrder (unprinted_writer stored posted value mapping) sent printed

theorem transfers_holds (transfers : r.transfers) : r.holds = true := by
  cases r <;> first | rfl | cases transfers

theorem writer_alone (inv : At chunks w r o) (holds : w.holds = true) :
    o.writeValue = 0 ∧ o.readValue = 0 ∧ r.holds = false :=
  Mutex.unit_exclusive (inv.token.trans_le (Bool.toNat_le _)) holds

theorem reader_alone (inv : At chunks w r o) (holds : r.holds = true) :
    o.writeValue = 0 ∧ o.readValue = 0 ∧ w.holds = false := by
  have token := inv.token.trans_le (Bool.toNat_le _)
  rw [Nat.add_right_comm] at token
  exact Mutex.unit_exclusive token holds

/-- While the writer may change the mapping, its text was printed. -/
theorem writer_slot (inv : At chunks w r o) (holds : w.holds = true) :
    unprinted w r o = if w.hasStored then some o.mapping else none := by
  obtain ⟨_, empty, other⟩ := writer_alone inv holds
  have alive := inv.alive
  cases r <;> simp [ReaderPc.holds] at other alive <;> simp [unprinted, empty]

theorem strcpy_puts {chunk : Chunk} (inv : At chunks (.strcpy chunk) r o) :
    (channel (.strcpy chunk) r o).put chunk.text = some (channel .post r
      { o with mapping := chunk.text, stored := o.stored ++ [chunk.text] }) := by
  have empty := writer_slot inv rfl
  obtain ⟨_, _, other⟩ := writer_alone inv rfl
  have alive := inv.alive
  have full : unprinted .post r
      { o with mapping := chunk.text, stored := o.stored ++ [chunk.text] } = some chunk.text := by
    cases r <;> simp [ReaderPc.holds] at other alive <;> simp [unprinted, WriterPc.hasStored]
  unfold channel Channel.put
  rw [empty, full]
  rfl

theorem print_takes {buf : CStr} : (channel w (.print buf) o).take =
    some (channel w .post { o with printed := o.printed ++ [buf] }) := rfl

/-- The text is handed over to the reader. -/
theorem at_writer_post (inv : At chunks .post r o) (h : stepWriter .post o = some (w', o')) :
    At chunks w' r o' := by
  cases h
  have token : o.writeValue + o.readValue + 1 + r.holds.toNat = 1 := inv.token
  have full : (channel .post r o).slot = some o.mapping := writer_slot inv rfl
  obtain ⟨_, _, other⟩ := writer_alone inv rfl
  refine { inv with
    unopened := fun start => absurd start (inv.openedReader rfl)
    token := ?_
    inOrder := Channel.inOrder_same inv.inOrder ?_ rfl rfl
    closing := nofun }
  · show o.writeValue + (o.readValue + 1) + 0 + r.holds.toNat = 1
    omega
  · have alive := inv.alive
    rw [full]
    cases r <;> simp [ReaderPc.holds] at other alive <;>
      simp [channel, unprinted, WriterPc.hasPosted]

theorem at_writer_lastPost (inv : At chunks .lastPost r o)
    (h : stepWriter .lastPost o = some (w', o')) : At chunks w' r o' := by
  cases h
  have token : o.writeValue + o.readValue + 1 + r.holds.toNat = 1 := inv.token
  have empty : (channel .lastPost r o).slot = none := writer_slot inv rfl
  obtain ⟨taken, _, other⟩ := writer_alone inv rfl
  refine { inv with
    unopened := fun start => absurd start (inv.openedReader rfl)
    token := ?_
    inOrder := Channel.inOrder_same inv.inOrder ?_ rfl rfl
    closing := fun _ => ⟨taken, ?_⟩
    stopped := fun _ => rfl }
  · show o.writeValue + (o.readValue + 1) + 0 + r.holds.toNat = 1
    omega
  · rw [empty]
    cases r <;> simp [ReaderPc.holds] at other <;>
      simp [channel, unprinted, WriterPc.hasPosted, WriterPc.hasStored]
  · intro transfers
    rw [transfers_holds transfers] at other
    cases other

theorem at_writer_shmOpen (inv : At chunks .shmOpen r o)
    (h : stepWriter .shmOpen o = some (w', o')) : At chunks w' r o' := by
  cases h
  exact { inv with
    shm := rfl
    inOrder := inOrder_writer inv rfl rfl rfl rfl rfl rfl }

theorem at_writer_ftruncate (inv : At chunks .ftruncate r o)
    (h : stepWriter .ftruncate o = some (w', o')) : At chunks w' r o' := by
  cases h
  exact { inv with
    size := rfl
    inOrder := inOrder_writer inv rfl rfl rfl rfl rfl rfl }

theorem at_writer_mmap (inv : At chunks .mmap r o) (h : stepWriter .mmap o = some (w', o')) :
    At chunks w' r o' := by
  cases h
  exact { inv with inOrder := inOrder_writer inv rfl rfl rfl rfl rfl rfl }

theorem at_writer_createSem (inv : At chunks .createSem r o)
    (h : stepWriter .createSem o = some (w', o')) : At chunks w' r o' := by
  have absent : o.writerSem = false := inv.writerSem
  have token : o.writeValue + o.readValue + 0 + r.holds.toNat = 0 := inv.token
  rw [stepWriter, if_neg (by rw [absent]; nofun)] at h
  cases h
  refine { inv with
    writerSem := rfl
    openedWriter := fun _ => rfl
    token := ?_
    inOrder := inOrder_writer inv rfl rfl rfl rfl rfl rfl
    closing := nofun }
  show 1 + o.readValue + 0 + r.holds.toNat = 1
  omega

theorem at_writer_openReader (inv : At chunks .openReader r o)
    (h : stepWriter .openReader o = some (w', o')) : At chunks w' r o' := by
  rw [stepWriter] at h
  split at h
  · rename_i present
    cases h
    refine { inv with
      openedReader := fun _ start => ?_
      inOrder := inOrder_writer inv rfl rfl rfl rfl rfl rfl }
    rw [(inv.unopened start).1] at present
    cases present
  · cases h
    exact inv

theorem at_writer_wait (inv : At chunks .wait r o) (h : stepWriter .wait o = some (w', o')) :
    At chunks w' r o' := by
  rw [stepWriter] at h
  split at h
  · cases h
  · rename_i value more
    cases h
    have token : o.writeValue + o.readValue + 0 + r.holds.toNat = 1 := inv.token
    refine { inv with
      token := ?_
      inOrder := inOrder_writer inv rfl rfl rfl rfl rfl rfl
      closing := nofun }
    show value + o.readValue + 1 + r.holds.toNat = 1
    omega

theorem at_writer_read (inv : At chunks .read r o) (h : stepWriter .read o = some (w', o')) :
    At chunks w' r o' := by
  rw [stepWriter] at h
  split at h
  · rename_i empty
    cases h
    exact { inv with
      inOrder := inOrder_writer inv rfl rfl rfl rfl rfl rfl
      atEnd := fun _ => empty }
  · rename_i chunk rest input
    cases h
    have text := inv.text
    rw [input] at text
    exact { inv with
      text := text
      inOrder := inOrder_writer inv rfl rfl rfl rfl rfl rfl
      atEnd := nofun }

theorem at_writer_strcpy (inv : At chunks (.strcpy chunk) r o)
    (h : stepWriter (.strcpy chunk) o = some (w', o')) : At chunks w' r o' := by
  cases h
  refine { inv with
    text := ?_
    inOrder := Channel.inOrder_put inv.inOrder (strcpy_puts inv) }
  have text : o.stored ++ ([chunk] ++ o.input).map Chunk.text = chunks.map Chunk.text := inv.text
  show (o.stored ++ [chunk.text]) ++ ([] ++ o.input).map Chunk.text = chunks.map Chunk.text
  rw [← text]
  simp

theorem at_writer_truncate (inv : At chunks .truncate r o)
    (h : stepWriter .truncate o = some (w', o')) : At chunks w' r o' := by
  cases h
  exact { inv with
    size := rfl
    inOrder := inOrder_writer inv rfl rfl rfl rfl rfl rfl }

theorem at_writer_unlinkSem (inv : At chunks .unlinkSem r o)
    (h : stepWriter .unlinkSem o = some (w', o')) : At chunks w' r o' := by
  cases h
  exact { inv with
    writerSem := rfl
    inOrder := inOrder_writer inv rfl rfl rfl rfl rfl rfl }

theorem at_writer_unlinkShm (inv : At chunks .unlinkShm r o)
    (h : stepWriter .unlinkShm o = some (w', o')) : At chunks w' r o' := by
  cases h
  exact { inv with
    shm := rfl
    inOrder := inOrder_writer inv rfl rfl rfl rfl rfl rfl }

theorem at_writer (inv : At chunks w r o) (h : stepWriter w o = some (w', o')) :
    At chunks w' r o' := by
  cases w with
  | shmOpen => exact at_writer_shmOpen inv h
  | ftruncate => exact at_writer_ftruncate inv h
  | mmap => exact at_writer_mmap inv h
  | createSem => exact at_writer_createSem inv h
  | openReader => exact at_writer_openReader inv h
  | wait => exact at_writer_wait inv h
  | read => exact at_writer_read inv h
  | strcpy chunk => exact at_writer_strcpy inv h
  | post => exact at_writer_post inv h
  | truncate => exact at_writer_truncate inv h
  | lastPost => exact at_writer_lastPost inv h
  | unlinkSem => exact at_writer_unlinkSem inv h
  | unlinkShm => exact at_writer_unlinkShm inv h
  | exited => cases h

/-- A name that is gone means that everything was printed, which an early reader has not seen. -/
theorem early_open (inv : At chunks w r o) (some : chunks ≠ []) (early : r.early) :
    ¬ w.hasPosted := by
  intro posted
  have inOrder := inv.inOrder
  have none_left : unprinted w r o = none := by
    have stored : w.hasStored = false := by
      cases w <;> first | rfl | cases posted
    cases r <;> first | (cases early; done) | simp [unprinted, posted, stored]
  have printed := Channel.inOrder_empty inOrder none_left
  have text := inv.text
  have atEnd : w.atEnd := by
    cases w <;> first | rfl | cases posted
  have buffer : w.inBuffer = [] := by
    cases w <;> first | rfl | cases posted
  have nothing : o.stored = [] := printed.symm.trans (inv.early early)
  rw [nothing, buffer, inv.atEnd atEnd] at text
  exact some (List.map_eq_nil_iff.mp text.symm)

theorem at_reader_wait (inv : At chunks w .wait o) (h : stepReader .wait o = some (r', o')) :
    At chunks w r' o' := by
  rw [stepReader] at h
  split at h
  · cases h
  · rename_i value more
    cases h
    have token : o.writeValue + o.readValue + w.holds.toNat + 0 = w.started.toNat := inv.token
    have one : w.started.toNat ≤ 1 := Bool.toNat_le _
    have stored : w.hasStored = false := by
      cases w <;> first | rfl | (simp [WriterPc.holds] at token; omega)
    refine { inv with
      unopened := nofun
      openedReader := nofun
      token := ?_
      inOrder := Channel.inOrder_same inv.inOrder ?_ rfl rfl
      alive := nofun }
    · show o.writeValue + value + w.holds.toNat + 1 = w.started.toNat
      omega
    · simp only [channel, unprinted, stored, more]
      cases w.hasPosted <;> simp

/-- The size tells whether the writer has posted for the last time. -/
theorem at_reader_fstat (inv : At chunks w .fstat o) (h : stepReader .fstat o = some (r', o')) :
    At chunks w r' o' := by
  obtain ⟨_, _, other⟩ := reader_alone inv rfl
  have started := inv.openedWriter rfl
  have size := inv.size
  rw [stepReader] at h
  split at h
  · rename_i zero
    cases h
    have posted : w.hasPosted = true := by
      rw [zero] at size
      cases w <;>
        first | rfl | (cases started; done) | exact absurd size (by decide) | cases other
    refine { inv with
      unopened := nofun
      openedReader := nofun
      inOrder := Channel.inOrder_same inv.inOrder ?_ rfl rfl
      stopped := fun _ => posted
      alive := nofun }
    simp [channel, unprinted, posted]
  · rename_i full
    cases h
    have notPosted : w.hasPosted = false := by
      rw [size] at full
      cases w <;> first | rfl | exact absurd rfl full
    refine { inv with
      unopened := nofun
      openedReader := nofun
      inOrder := Channel.inOrder_same inv.inOrder ?_ rfl rfl
      closing := ?_
      alive := nofun }
    · simp [channel, unprinted, notPosted]
    · rw [notPosted]
      nofun

theorem at_reader_post (inv : At chunks w .post o) (h : stepReader .post o = some (r', o')) :
    At chunks w r' o' := by
  cases h
  obtain ⟨_, zero, other⟩ := reader_alone inv rfl
  have token : o.writeValue + o.readValue + w.holds.toNat + 1 = w.started.toNat := inv.token
  have stored : w.hasStored = false := by
    cases w <;> first | rfl | cases other
  refine { inv with
    unopened := nofun
    openedReader := nofun
    token := ?_
    inOrder := Channel.inOrder_same inv.inOrder ?_ rfl rfl
    closing := fun posted => absurd rfl (inv.closing posted).2
    alive := nofun }
  · show o.writeValue + 1 + o.readValue + w.holds.toNat + 0 = w.started.toNat
    omega
  · simp [channel, unprinted, stored, zero]

theorem at_reader_createSem (inv : At chunks w .createSem o)
    (h : stepReader .createSem o = .some (r', o')) : At chunks w r' o' := by
  obtain ⟨absent, zero⟩ := inv.unopened rfl
  rw [stepReader, if_neg (by rw [absent]; nofun)] at h
  cases h
  have same : { o with readerSem := true, readValue := 0 } = { o with readerSem := true } := by
    rw [zero]
  rw [same]
  exact { inv with
    unopened := nofun
    openedReader := nofun
    alive := nofun }

theorem at_reader_openWriter (inv : At chunks w .openWriter o)
    (h : stepReader .openWriter o = .some (r', o')) : At chunks w r' o' := by
  rw [stepReader] at h
  split at h
  · rename_i present
    cases h
    have started : w.started := by
      rw [inv.writerSem] at present
      cases w <;> first | rfl | cases present
    exact { inv with
      unopened := nofun
      openedReader := nofun
      openedWriter := fun _ => started
      alive := nofun }
  · cases h
    exact inv

theorem at_reader_shmOpen (inv : At chunks w .shmOpen o) (some : chunks ≠ [])
    (h : stepReader .shmOpen o = .some (r', o')) : At chunks w r' o' := by
  rw [stepReader] at h
  split at h
  · cases h
    exact { inv with
      unopened := nofun
      openedReader := nofun
      alive := nofun }
  · rename_i gone
    have started := inv.openedWriter rfl
    have open_ := early_open inv some rfl
    rw [inv.shm] at gone
    cases w <;> first | (cases started; done) | exact absurd rfl gone | exact absurd rfl open_

theorem at_reader (inv : At chunks w r o) (some : chunks ≠ [])
    (h : stepReader r o = .some (r', o')) : At chunks w r' o' := by
  cases r with
  | createSem => exact at_reader_createSem inv h
  | openWriter => exact at_reader_openWriter inv h
  | shmOpen => exact at_reader_shmOpen inv some h
  | mmap =>
    cases h
    exact { inv with
      unopened := nofun
      openedReader := nofun
      early := nofun
      alive := nofun }
  | wait => exact at_reader_wait inv h
  | fstat => exact at_reader_fstat inv h
  | copy =>
    cases h
    exact { inv with
      unopened := nofun
      openedReader := nofun
      alive := nofun }
  | print buf =>
    cases h
    exact { inv with
      unopened := nofun
      openedReader := nofun
      early := nofun
      inOrder := Channel.inOrder_take inv.inOrder print_takes
      alive := nofun }
  | post => exact at_reader_post inv h
  | unlink =>
    cases h
    exact { inv with
      unopened := nofun
      openedReader := nofun
      alive := nofun }
  | exited | failed => cases h

end Steps

theorem at_step {chunks : List Chunk} (some : chunks ≠ []) (s : State) (e : Event) (t : State)
    (inv : At chunks s.writer s.reader s.objects) (h : step s e = .some t) :
    At chunks t.writer t.reader t.objects := by
  cases e with
  | writer =>
    obtain ⟨⟨w, o⟩, stepped, rfl⟩ := Option.map_eq_some_iff.mp h
    exact at_writer inv stepped
  | reader =>
    obtain ⟨⟨r, o⟩, stepped, rfl⟩ := Option.map_eq_some_iff.mp h
    exact at_reader inv some stepped

end Tlpi.Pshm
