import TlpiExercises.Pshm.Handover

/-!
# The transfer as a whole

With at least one chunk the writer cannot end before the reader has come to its loop, and the
reader then ends too. With an empty input the names may be gone before the reader looks for them.
-/

namespace Tlpi.Pshm

open Transitions

/-- Nothing is overwritten before it was printed, nothing is read behind the end of the object, and
the reader can always end after the writer. -/
structure Transferred (chunks : List Chunk) (s : State) : Prop where
  inOrder : s.objects.printed <+: s.objects.stored ∧ s.objects.stored <+: chunks.map Chunk.text
  printedFirst : ∀ chunk, s.writer = .strcpy chunk → s.objects.printed = s.objects.stored
  complete : s.reader = .exited → s.objects.printed = chunks.map Chunk.text
  mapped : s.reader = .copy → s.objects.size = MMAP_SIZE
  finishes : s.writer = .exited → ∃ t, Leads step s t ∧ t.reader = .exited

section Some

variable {chunks : List Chunk} {s : State} (inv : At chunks s.writer s.reader s.objects)
include inv

theorem stored_all (posted : s.writer.hasPosted) : s.objects.stored = chunks.map Chunk.text := by
  have atEnd : s.writer.atEnd := by
    cases pc : s.writer <;> rw [pc] at posted <;> first | rfl | cases posted
  have buffer : s.writer.inBuffer = [] := by
    cases pc : s.writer <;> rw [pc] at posted <;> first | rfl | cases posted
  have text := inv.text
  rw [buffer, inv.atEnd atEnd] at text
  simpa using text

theorem printed_all (ended : s.reader = .exited) : s.objects.printed = chunks.map Chunk.text := by
  have posted := inv.stopped (by rw [ended]; rfl)
  have none_left : unprinted s.writer s.reader s.objects = none := by
    rw [ended]
    rfl
  exact (Channel.inOrder_empty inv.inOrder none_left).trans (stored_all inv posted)

theorem copy_mapped (copies : s.reader = .copy) : s.objects.size = MMAP_SIZE := by
  have started := inv.openedWriter (by rw [copies]; rfl)
  obtain ⟨_, _, other⟩ := reader_alone inv (by rw [copies]; rfl)
  have transfers : s.reader.transfers := by
    rw [copies]
    rfl
  have open_ : ¬ s.writer.hasPosted := fun posted => (inv.closing posted).2 transfers
  rw [inv.size]
  cases pc : s.writer <;> rw [pc] at started other open_ <;>
    first | rfl | (cases started; done) | (cases other; done) | exact absurd rfl open_

/-- Three more steps of the reader. -/
theorem reader_ends (some : chunks ≠ []) (ended : s.writer = .exited) :
    ∃ t, Leads step s t ∧ t.reader = .exited := by
  have posted : s.writer.hasPosted := by
    rw [ended]
    rfl
  have size := inv.size
  have token := inv.token
  rw [ended] at size token
  have size : s.objects.size = 0 := size
  obtain ⟨noWriter, notTransfers⟩ := inv.closing posted
  have late : ¬ s.reader.early := fun early => early_open inv some early posted
  have alive := inv.alive
  cases pc : s.reader with
  | createSem | openWriter | shmOpen | mmap =>
    rw [pc] at late
    exact absurd rfl late
  | copy | print _ | post =>
    rw [pc] at notTransfers
    exact absurd rfl notTransfers
  | failed => exact absurd pc alive
  | exited => exact ⟨s, .refl, pc⟩
  | unlink =>
    have run : [Event.reader].foldlM step s =
        .some { s with reader := .exited, objects.readerSem := false } := by
      simp [step, stepReader, pc]
    exact ⟨_, leads_events run, rfl⟩
  | fstat =>
    have run : [Event.reader, .reader].foldlM step s =
        .some { s with reader := .exited, objects.readerSem := false } := by
      simp [step, stepReader, pc, size]
    exact ⟨_, leads_events run, rfl⟩
  | wait =>
    rw [pc] at token
    have token : s.objects.writeValue + s.objects.readValue + 0 + 0 = 1 := token
    have value : s.objects.readValue = 0 + 1 := by omega
    have run : [Event.reader, .reader, .reader].foldlM step s = .some { s with
        reader := .exited
        objects.readValue := 0
        objects.readerSem := false } := by
      simp [step, stepReader, pc, size, value]
    exact ⟨_, leads_events run, rfl⟩

theorem transferred_of_at (some : chunks ≠ []) : Transferred chunks s := by
  refine ⟨⟨Channel.inOrder_prefix inv.inOrder, ?_⟩, fun chunk at_ => ?_, printed_all inv,
    copy_mapped inv, reader_ends inv some⟩
  · rw [← inv.text]
    exact List.prefix_append _ _
  · have empty := writer_slot inv (by rw [at_]; rfl)
    rw [at_] at empty
    refine Channel.inOrder_empty inv.inOrder ?_
    show unprinted s.writer s.reader s.objects = none
    rw [at_]
    exact empty

end Some

/-- The reader polls for the writer's semaphore, which the writer has unlinked. -/
def Stranded (s : State) : Prop :=
  s.writer = .exited ∧ s.reader = .openWriter ∧ s.objects.writerSem = false

theorem stranded_step (s : State) (e : Event) (t : State) (stranded : Stranded s)
    (h : step s e = some t) : Stranded t := by
  obtain ⟨ended, polls, gone⟩ := stranded
  cases e with
  | writer => simp [step, stepWriter, ended] at h
  | reader =>
    simp only [step, stepReader, polls, gone, Bool.false_eq_true, if_false, Option.map_some,
      Option.some.injEq] at h
    subst h
    exact ⟨ended, rfl, gone⟩

/-- The writer opens the reader's semaphore, finds the end of its input, and ends. -/
theorem empty_strands : ∃ s, Leads step (start []) s ∧ Stranded s := by
  have run : ([.writer, .writer, .writer, .writer, .reader, .writer, .writer, .writer, .writer,
      .writer, .writer, .writer] : List Event).foldlM step (start []) =
      some ⟨.exited, .openWriter, ⟨false, true, false, 0, 1, 0, .ofBytes [], [], [], []⟩⟩ := rfl
  exact ⟨_, leads_events run, rfl, rfl, rfl⟩

theorem stranded_not_transferred {s : State} (stranded : Stranded s) : ¬ Transferred [] s := by
  intro transferred
  obtain ⟨t, leads, ended⟩ := transferred.finishes stranded.1
  have polls := (leads_invariant stranded_step leads stranded).2.1
  rw [polls] at ended
  cases ended

/-- In every interleaving the transfer is sound and comes to its end, exactly where there is
something to transfer. -/
theorem transferred_iff (chunks : List Chunk) :
    (∀ s, Leads step (start chunks) s → Transferred chunks s) ↔ chunks ≠ [] := by
  constructor
  · rintro all rfl
    obtain ⟨s, reached, stranded⟩ := empty_strands
    exact stranded_not_transferred stranded (all s reached)
  · intro some s reached
    exact transferred_of_at (leads_invariant (at_step some) reached (at_start chunks)) some

theorem empty_input_strands : ¬ ∀ s, Leads step (start []) s → Transferred [] s := by
  intro all
  obtain ⟨s, reached, stranded⟩ := empty_strands
  exact stranded_not_transferred stranded (all s reached)

end Tlpi.Pshm
