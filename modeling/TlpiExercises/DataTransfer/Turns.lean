import TlpiExercises.DataTransfer.Model
import TlpiExercises.Library.Channel
import TlpiExercises.Library.Mutex

/-!
# Taking turns

The two semaphores have one unit between them, and whoever has taken it may use `data`. What was
stored there and has not been printed is the one item of a channel.
-/

namespace Tlpi.DataTransfer

open Transitions

/-- It has taken the unit. A `main` that has failed keeps it. -/
def MainPc.holds : MainPc → Bool
  | .read | .terminate _ | .testRead _ | .post | .failed => true
  | .create | .wait | .testEof | .join | .returned => false

def ReaderPc.holds : ReaderPc → Bool
  | .testEof | .print | .post | .done => true
  | .absent | .wait => false

/-- It may have seen `eof` set. -/
def MainPc.late : MainPc → Bool
  | .post | .testEof | .join | .returned => true
  | .create | .wait | .read | .terminate _ | .testRead _ | .failed => false

/-- It has seen `eof` set. -/
def MainPc.left : MainPc → Bool
  | .join | .returned => true
  | .create | .wait | .read | .terminate _ | .testRead _ | .post | .testEof | .failed => false

/-- It has seen `eof` clear. -/
def ReaderPc.transfers : ReaderPc → Bool
  | .print | .post => true
  | .absent | .wait | .testEof | .done => false

/-- What was read and does not count as stored yet. -/
def MainPc.inBuffer (data : CharArray BUF_SIZE) : MainPc → List (List UInt8)
  | .terminate numRead => if numRead = 0 then [] else [data.1.take numRead]
  | .create | .wait | .read | .testRead _ | .post | .testEof | .join | .returned | .failed => []

/-- The end of the input was read. -/
def MainPc.readNothing : MainPc → Bool
  | .terminate numRead | .testRead numRead => numRead == 0
  | .create | .wait | .read | .post | .testEof | .join | .returned | .failed => false

/-- A text stands in `data` that `main` has stored there in this turn. -/
def MainPc.hasStored : MainPc → Bool
  | .testRead numRead => numRead != 0
  | .post => true
  | .create | .wait | .read | .terminate _ | .testEof | .join | .returned | .failed => false

/-- The text that is stored and not printed. -/
def unprinted (m : MainPc) (r : ReaderPc) (o : Objects) : Option CStr :=
  if o.eof then none
  else
    match r with
    | .testEof | .print => some o.data.text
    | .post | .done => none
    | .absent | .wait => if m.hasStored ∨ o.sem2 ≠ 0 then some o.data.text else none

/-- What is sent is the text of the stored bytes, up to a NUL. -/
def channel (m : MainPc) (r : ReaderPc) (o : Objects) : Channel CStr :=
  ⟨o.stored.map CStr.ofBytes, o.printed, unprinted m r o⟩

/-- The invariant, for the two places and the objects. -/
structure At (chunks : List Chunk) (m : MainPc) (r : ReaderPc) (o : Objects) : Prop where
  token : o.sem1 + o.sem2 + m.holds.toNat + r.holds.toNat = 1
  created : r = .absent ↔ m = .create
  bytes : o.stored ++ m.inBuffer o.data ++ o.input.map Chunk.bytes = chunks.map Chunk.bytes
  fits : ∀ numRead, m = .terminate numRead → numRead < BUF_SIZE
  inOrder : (channel m r o).InOrder
  atEnd : o.eof = true ∨ m.readNothing → o.input = []
  late : o.eof → m.late
  left : m.left → o.eof
  closing : o.eof → o.sem1 = 0
  transfers : r.transfers → o.eof = false
  done : r = .done → o.eof

theorem at_start (chunks : List Chunk) :
    At chunks (start chunks).main (start chunks).reader (start chunks).objects := by
  refine ⟨rfl, iff_of_true rfl rfl, rfl, nofun, rfl, ?_, nofun, nofun, nofun, nofun, nofun⟩
  rintro (eof | nothing) <;> contradiction

/-! ### The buffer -/

theorem terminate_text (data : CharArray BUF_SIZE) {numRead : Nat} (fits : numRead < BUF_SIZE) :
    (terminate data numRead).text = .ofBytes (data.1.take numRead) := by
  have inside : numRead < data.1.length := by
    rw [data.2]
    exact fits
  have cut : (terminate data numRead).1 =
      data.1.take numRead ++ 0 :: data.1.drop (numRead + 1) :=
    List.set_eq_take_append_cons_drop .. |>.trans (if_pos inside)
  apply CStr.ext
  show (terminate data numRead).1.takeWhile _ = (data.1.take numRead).takeWhile _
  rw [cut, List.takeWhile_append]
  split
  · rename_i whole
    rw [List.takeWhile_cons_of_neg (by simp), List.append_nil]
    exact ((List.takeWhile_prefix _).eq_of_length whole).symm
  · rfl

theorem readInto_take (data : CharArray BUF_SIZE) (chunk : Chunk) :
    (readInto data chunk).1.take chunk.bytes.length = chunk.bytes := by
  show (chunk.bytes ++ data.1.drop chunk.bytes.length).take chunk.bytes.length = chunk.bytes
  rw [List.take_left]

section Steps

variable {chunks : List Chunk} {m m' : MainPc} {r r' : ReaderPc} {o o' : Objects}

/-- While `main` holds the unit, the reader waits. -/
theorem reader_waits (inv : At chunks m r o) (holds : m.holds = true) :
    o.sem1 = 0 ∧ o.sem2 = 0 ∧ (r = .absent ∨ r = .wait) := by
  obtain ⟨taken, empty, other⟩ := Mutex.unit_exclusive inv.token.le holds
  refine ⟨taken, empty, ?_⟩
  cases r with
  | absent => exact Or.inl rfl
  | wait => exact Or.inr rfl
  | testEof | print | post | done => cases other

theorem main_waits (inv : At chunks m r o) (holds : r.holds = true) :
    o.sem1 = 0 ∧ o.sem2 = 0 ∧ m.holds = false := by
  have token := inv.token
  rw [Nat.add_right_comm] at token
  exact Mutex.unit_exclusive token.le holds

theorem reader_present (inv : At chunks m r o) (created : m ≠ .create) : r ≠ .absent :=
  fun absent => created (inv.created.mp absent)

theorem main_past (inv : At chunks m r o) (present : r ≠ .absent) : m ≠ .create :=
  fun first => present (inv.created.mpr first)

/-- Until the test of `numRead` is made, `eof` is clear. -/
theorem not_late (inv : At chunks m r o) (early : m.late = false) (set : o.eof = true) : False := by
  rw [inv.late set] at early
  cases early

theorem main_slot (inv : At chunks m r o) (holds : m.holds = true) :
    unprinted m r o = if o.eof = false ∧ m.hasStored then some o.data.text else none := by
  obtain ⟨_, empty, place⟩ := reader_waits inv holds
  cases eof : o.eof <;> rcases place with rfl | rfl <;> simp [unprinted, empty, eof]

/-- `main` has stored a text. -/
theorem terminate_puts {numRead : Nat} (inv : At chunks (.terminate numRead) r o)
    (some : numRead ≠ 0) {data : CharArray BUF_SIZE} {bytes : List UInt8}
    (text : data.text = .ofBytes bytes) :
    (channel (.terminate numRead) r o).put data.text = .some (channel (.testRead numRead) r
      { o with data := data, stored := o.stored ++ [bytes] }) := by
  have empty : unprinted (.terminate numRead) r o = none := by
    rw [main_slot inv rfl]
    exact if_neg fun stored => nomatch stored.2
  obtain ⟨_, _, place⟩ := reader_waits inv rfl
  have clear : o.eof = false := Bool.eq_false_iff.mpr (not_late inv rfl)
  have full : unprinted (.testRead numRead) r
      { o with data := data, stored := o.stored ++ [bytes] } = .some data.text := by
    rcases place with rfl | rfl <;> simp [unprinted, clear, MainPc.hasStored, some]
  unfold channel Channel.put
  rw [empty, full, List.map_append, List.map_singleton, ← text]

theorem print_takes (clear : o.eof = false) : (channel m .print o).take =
    some (channel m .post { o with printed := o.printed ++ [o.data.text] }) := by
  simp [channel, Channel.take, unprinted, clear]

/-- A chunk in the buffer, or the end of the input. -/
theorem at_main_read (inv : At chunks .read r o) (h : stepMain .read r o = some (m', r', o')) :
    At chunks m' r' o' := by
  obtain ⟨_, empty, place⟩ := reader_waits inv rfl
  rw [stepMain] at h
  split at h
  · rename_i nothing
    cases h
    refine { inv with
      created := iff_of_false (reader_present inv nofun) nofun
      fits := fun numRead same => ?_
      inOrder := Channel.inOrder_same inv.inOrder rfl rfl rfl
      atEnd := fun _ => nothing }
    cases same
    decide
  · rename_i chunk rest input
    cases h
    have some : chunk.bytes.length ≠ 0 := fun zero =>
      chunk.nonempty (List.length_eq_zero_iff.mp zero)
    have fits := chunk.fits
    refine { inv with
      created := iff_of_false (reader_present inv nofun) nofun
      bytes := ?_
      fits := fun numRead same => ?_
      inOrder := Channel.inOrder_same inv.inOrder ?_ rfl rfl
      atEnd := fun ended => ?_ }
    · have bytes : o.stored ++ [] ++ o.input.map Chunk.bytes = chunks.map Chunk.bytes := inv.bytes
      show o.stored ++ (if chunk.bytes.length = 0 then [] else
        [(readInto o.data chunk).1.take chunk.bytes.length]) ++
          rest.map Chunk.bytes = chunks.map Chunk.bytes
      rw [if_neg some, readInto_take, ← bytes, input, List.append_nil, List.append_assoc]
      rfl
    · cases same
      have whole : 0 < BUF_SIZE := by decide
      omega
    · rcases place with rfl | rfl <;> simp [channel, unprinted, empty, MainPc.hasStored]
    · rcases ended with set | zero
      · exact (not_late inv rfl set).elim
      · exact absurd (eq_of_beq zero) some

/-- The chunk counts as stored when its end is marked. -/
theorem at_main_terminate {numRead : Nat} (inv : At chunks (.terminate numRead) r o)
    (h : stepMain (.terminate numRead) r o = some (m', r', o')) : At chunks m' r' o' := by
  obtain ⟨_, empty, place⟩ := reader_waits inv rfl
  have text := terminate_text o.data (inv.fits numRead rfl)
  have bytes : o.stored ++ (if numRead = 0 then [] else [o.data.1.take numRead]) ++
    o.input.map Chunk.bytes = chunks.map Chunk.bytes := inv.bytes
  rw [stepMain] at h
  by_cases zero : numRead = 0
  · subst zero
    cases h
    refine { inv with
      created := iff_of_false (reader_present inv nofun) nofun
      fits := nofun
      inOrder := Channel.inOrder_same inv.inOrder ?_ rfl rfl }
    rcases place with rfl | rfl <;> simp [channel, unprinted, empty, MainPc.hasStored]
  · rw [if_neg zero] at h bytes
    cases h
    refine { inv with
      created := iff_of_false (reader_present inv nofun) nofun
      bytes := ?_
      fits := nofun
      inOrder := Channel.inOrder_put inv.inOrder (terminate_puts inv zero text) }
    show o.stored ++ [o.data.1.take numRead] ++ [] ++ o.input.map Chunk.bytes =
      chunks.map Chunk.bytes
    rw [List.append_nil]
    exact bytes

theorem at_main_testRead {numRead : Nat} (inv : At chunks (.testRead numRead) r o)
    (h : stepMain (.testRead numRead) r o = some (m', r', o')) : At chunks m' r' o' := by
  obtain ⟨taken, empty, place⟩ := reader_waits inv rfl
  rw [stepMain] at h
  by_cases zero : numRead = 0
  · subst zero
    cases h
    refine { inv with
      created := iff_of_false (reader_present inv nofun) nofun
      fits := nofun
      inOrder := Channel.inOrder_same inv.inOrder ?_ rfl rfl
      atEnd := fun _ => inv.atEnd (Or.inr rfl)
      late := fun _ => rfl
      left := nofun
      closing := fun _ => taken
      transfers := ?_
      done := ?_ }
    · rcases place with rfl | rfl <;> simp [channel, unprinted, empty, MainPc.hasStored]
    · rcases place with rfl | rfl <;> nofun
    · rcases place with rfl | rfl <;> nofun
  · rw [if_neg zero] at h
    cases h
    refine { inv with
      created := iff_of_false (reader_present inv nofun) nofun
      fits := nofun
      inOrder := Channel.inOrder_same inv.inOrder ?_ rfl rfl
      atEnd := fun ended => ?_
      late := fun _ => rfl }
    · rcases place with rfl | rfl <;> simp [channel, unprinted, MainPc.hasStored, zero]
    · rcases ended with set | none
      · exact (not_late inv rfl set).elim
      · cases none

theorem at_main_create (inv : At chunks .create r o) (h : stepMain .create r o = some (m', r', o')) :
    At chunks m' r' o' := by
  obtain rfl := inv.created.mpr rfl
  cases h
  exact { inv with
    created := iff_of_false nofun nofun
    fits := nofun
    inOrder := Channel.inOrder_same inv.inOrder rfl rfl rfl
    transfers := nofun
    done := nofun }

theorem at_main_wait (inv : At chunks .wait r o) (h : stepMain .wait r o = some (m', r', o')) :
    At chunks m' r' o' := by
  rw [stepMain] at h
  split at h
  · cases h
  · rename_i value more
    cases h
    have token : o.sem1 + o.sem2 + 0 + r.holds.toNat = 1 := inv.token
    refine { inv with
      token := ?_
      created := iff_of_false (reader_present inv nofun) nofun
      fits := nofun
      inOrder := Channel.inOrder_same inv.inOrder rfl rfl rfl
      closing := fun set => (not_late inv rfl set).elim }
    show value + o.sem2 + 1 + r.holds.toNat = 1
    omega

theorem at_main_post (inv : At chunks .post r o) (h : stepMain .post r o = some (m', r', o')) :
    At chunks m' r' o' := by
  obtain ⟨_, _, place⟩ := reader_waits inv rfl
  cases h
  have token : o.sem1 + o.sem2 + 1 + r.holds.toNat = 1 := inv.token
  refine { inv with
    token := ?_
    created := iff_of_false (reader_present inv nofun) nofun
    fits := nofun
    inOrder := Channel.inOrder_same inv.inOrder ?_ rfl rfl }
  · show o.sem1 + (o.sem2 + 1) + 0 + r.holds.toNat = 1
    omega
  · rcases place with rfl | rfl <;> simp [channel, unprinted, MainPc.hasStored]

theorem at_main_testEof (inv : At chunks .testEof r o) (h : stepMain .testEof r o = some (m', r', o')) :
    At chunks m' r' o' := by
  rw [stepMain] at h
  cases eof : o.eof with
  | true =>
    rw [eof] at h
    cases h
    exact { inv with
      created := iff_of_false (reader_present inv nofun) nofun
      fits := nofun
      inOrder := Channel.inOrder_same inv.inOrder rfl rfl rfl
      left := fun _ => eof }
  | false =>
    rw [eof] at h
    cases h
    refine { inv with
      created := iff_of_false (reader_present inv nofun) nofun
      fits := nofun
      inOrder := Channel.inOrder_same inv.inOrder rfl rfl rfl
      late := ?_ }
    rw [eof]
    nofun

theorem at_main_join (inv : At chunks .join r o) (h : stepMain .join r o = some (m', r', o')) :
    At chunks m' r' o' := by
  rw [stepMain] at h
  split at h
  · cases h
    exact { inv with
      created := iff_of_false (reader_present inv nofun) nofun
      fits := nofun
      inOrder := Channel.inOrder_same inv.inOrder rfl rfl rfl }
  · cases h

theorem at_main (inv : At chunks m r o) (h : stepMain m r o = some (m', r', o')) :
    At chunks m' r' o' := by
  cases m with
  | create => exact at_main_create inv h
  | wait => exact at_main_wait inv h
  | read => exact at_main_read inv h
  | terminate numRead => exact at_main_terminate inv h
  | testRead numRead => exact at_main_testRead inv h
  | post => exact at_main_post inv h
  | testEof => exact at_main_testEof inv h
  | join => exact at_main_join inv h
  | returned | failed => cases h

theorem stored_holds (stored : m.hasStored) : m.holds = true := by
  cases m <;> first | rfl | cases stored

theorem at_reader_wait (inv : At chunks m .wait o) (h : stepReader .wait o = some (r', o')) :
    At chunks m r' o' := by
  rw [stepReader] at h
  split at h
  · cases h
  · rename_i value more
    cases h
    have token : o.sem1 + o.sem2 + m.holds.toNat + 0 = 1 := inv.token
    refine { inv with
      token := ?_
      created := iff_of_false nofun (main_past inv nofun)
      inOrder := Channel.inOrder_same inv.inOrder ?_ rfl rfl
      done := nofun }
    · show o.sem1 + value + m.holds.toNat + 1 = 1
      omega
    · simp [channel, unprinted, more]

theorem at_reader_testEof (inv : At chunks m .testEof o) (h : stepReader .testEof o = some (r', o')) :
    At chunks m r' o' := by
  rw [stepReader] at h
  cases eof : o.eof with
  | true =>
    rw [eof] at h
    cases h
    refine { inv with
      created := iff_of_false nofun (main_past inv nofun)
      inOrder := Channel.inOrder_same inv.inOrder ?_ rfl rfl
      done := fun _ => eof }
    simp [channel, unprinted, eof]
  | false =>
    rw [eof] at h
    cases h
    exact { inv with
      created := iff_of_false nofun (main_past inv nofun)
      inOrder := Channel.inOrder_same inv.inOrder rfl rfl rfl
      transfers := fun _ => eof
      done := nofun }

theorem at_reader_print (inv : At chunks m .print o) (h : stepReader .print o = some (r', o')) :
    At chunks m r' o' := by
  cases h
  exact { inv with
    created := iff_of_false nofun (main_past inv nofun)
    inOrder := Channel.inOrder_take inv.inOrder (print_takes (inv.transfers rfl))
    done := nofun }

theorem at_reader_post (inv : At chunks m .post o) (h : stepReader .post o = some (r', o')) :
    At chunks m r' o' := by
  have clear := inv.transfers rfl
  obtain ⟨_, empty, other⟩ := main_waits inv rfl
  have notStored : m.hasStored = false := by
    by_contra stored
    rw [Bool.not_eq_false] at stored
    rw [stored_holds stored] at other
    cases other
  cases h
  have token : o.sem1 + o.sem2 + m.holds.toNat + 1 = 1 := inv.token
  refine { inv with
    token := ?_
    created := iff_of_false nofun (main_past inv nofun)
    inOrder := Channel.inOrder_same inv.inOrder ?_ rfl rfl
    closing := fun set => ?_
    transfers := nofun
    done := nofun }
  · show o.sem1 + 1 + o.sem2 + m.holds.toNat + 0 = 1
    omega
  · simp [channel, unprinted, notStored, empty]
  · rw [clear] at set
    cases set

theorem at_reader (inv : At chunks m r o) (h : stepReader r o = some (r', o')) :
    At chunks m r' o' := by
  cases r with
  | absent | done => cases h
  | wait => exact at_reader_wait inv h
  | testEof => exact at_reader_testEof inv h
  | print => exact at_reader_print inv h
  | post => exact at_reader_post inv h

theorem main_blocked (running : m.ended = false) (h : stepMain m r o = none) :
    m = .wait ∧ o.sem1 = 0 ∨ m = .join ∧ r ≠ .done := by
  cases m with
  | wait =>
    rw [stepMain] at h
    split at h
    · rename_i zero
      exact Or.inl ⟨rfl, zero⟩
    · cases h
  | join =>
    rw [stepMain] at h
    split at h
    · cases h
    · rename_i waits
      exact Or.inr ⟨rfl, waits⟩
  | read =>
    rw [stepMain] at h
    split at h <;> cases h
  | create | terminate _ | testRead _ | post | testEof => cases h
  | returned | failed => cases running

theorem reader_blocked (h : stepReader r o = none) :
    r = .absent ∨ r = .done ∨ r = .wait ∧ o.sem2 = 0 := by
  cases r with
  | absent => exact Or.inl rfl
  | done => exact Or.inr (Or.inl rfl)
  | wait =>
    rw [stepReader] at h
    split at h
    · rename_i zero
      exact Or.inr (Or.inr ⟨rfl, zero⟩)
    · cases h
  | testEof | print | post => cases h

theorem at_failed (inv : At chunks .read r o) : At chunks .failed r o :=
  { inv with
    created := iff_of_false (reader_present inv nofun) nofun
    fits := nofun
    inOrder := Channel.inOrder_same inv.inOrder rfl rfl rfl }

end Steps

theorem at_step {chunks : List Chunk} (s : State) (e : Event) (t : State)
    (inv : At chunks s.main s.reader s.objects) (h : step s e = some t) :
    At chunks t.main t.reader t.objects := by
  unfold step at h
  split at h
  · cases h
  · cases e with
    | main =>
      obtain ⟨⟨m, r, o⟩, stepped, rfl⟩ := Option.map_eq_some_iff.mp h
      exact at_main inv stepped
    | reader =>
      obtain ⟨⟨r, o⟩, stepped, rfl⟩ := Option.map_eq_some_iff.mp h
      exact at_reader inv stepped
    | readError =>
      dsimp only at h
      split at h
      · rename_i reading
        cases h
        rw [reading] at inv
        exact at_failed inv
      · cases h

/-! ### Every interleaving -/

/-- In the `read` or at the assignment behind it. -/
def MainPc.modifies : MainPc → Bool
  | .read | .terminate _ => true
  | .create | .wait | .testRead _ | .post | .testEof | .join | .returned | .failed => false

/-- Between `sem_wait` and `sem_post`. -/
def ReaderPc.between : ReaderPc → Bool
  | .testEof | .print | .post => true
  | .absent | .wait | .done => false

/-- A thread that has begun and not ended cannot go on. -/
def State.MainBlocked (s : State) : Prop := s.main.ended = false ∧ step s .main = none

/-- So too before the thread is created, and after it has returned. -/
def State.ReaderBlocked (s : State) : Prop := step s .reader = none

section Reached

variable {chunks : List Chunk} {s : State} (inv : At chunks s.main s.reader s.objects)
include inv

theorem modifies_alone (modifies : s.main.modifies) : ¬ s.reader.between := by
  have holds : s.main.holds = true := by
    cases pc : s.main <;> rw [pc] at modifies <;> first | rfl | cases modifies
  obtain ⟨_, _, place⟩ := reader_waits inv holds
  rcases place with place | place <;> rw [place] <;> nofun

theorem modifies_printed (modifies : s.main.modifies) :
    s.objects.printed = s.objects.stored.map CStr.ofBytes := by
  have holds : s.main.holds = true := by
    cases pc : s.main <;> rw [pc] at modifies <;> first | rfl | cases modifies
  have fresh : s.main.hasStored = false := by
    cases pc : s.main <;> rw [pc] at modifies <;> first | rfl | cases modifies
  refine Channel.inOrder_empty inv.inOrder ((main_slot inv holds).trans (if_neg ?_))
  rw [fresh]
  exact fun stored => nomatch stored.2

theorem stored_prefix : s.objects.stored <+: chunks.map Chunk.bytes := by
  rw [← inv.bytes, List.append_assoc]
  exact List.prefix_append _ _

theorem done_all (done : s.reader = .done) :
    s.objects.input = [] ∧ s.objects.stored = chunks.map Chunk.bytes ∧
      s.objects.printed = s.objects.stored.map CStr.ofBytes := by
  have eof := inv.done done
  have atEnd := inv.atEnd (Or.inl eof)
  have buffer : s.main.inBuffer s.objects.data = [] := by
    have late := inv.late eof
    cases pc : s.main <;> rw [pc] at late <;> first | rfl | cases late
  have bytes := inv.bytes
  rw [buffer, atEnd, List.map_nil, List.append_nil, List.append_nil] at bytes
  exact ⟨atEnd, bytes, Channel.inOrder_empty inv.inOrder (if_pos eof)⟩

theorem not_both_blocked : ¬ (s.MainBlocked ∧ s.ReaderBlocked) := by
  rintro ⟨⟨running, main⟩, reader⟩
  have running_ : ¬ s.main.ended = true := by
    rw [running]
    nofun
  unfold State.ReaderBlocked at reader
  unfold step at main reader
  rw [if_neg running_, Option.map_eq_none_iff] at main reader
  have token := inv.token
  rcases main_blocked running main with ⟨at_, zero⟩ | ⟨at_, waits⟩
  · rcases reader_blocked reader with place | place | ⟨place, none⟩
    · have first := inv.created.mp place
      rw [at_] at first
      cases first
    · have late := inv.late (inv.done place)
      rw [at_] at late
      cases late
    · rw [at_, place, zero, none] at token
      cases token
  · have eof := inv.left (by rw [at_]; rfl)
    rcases reader_blocked reader with place | place | ⟨place, none⟩
    · have first := inv.created.mp place
      rw [at_] at first
      cases first
    · exact waits place
    · rw [at_, place, inv.closing eof, none] at token
      cases token

end Reached

/-- The turns on `data`: every content is printed as it was stored, once and in order, before the
next one is stored, and the reader stops at the end of the input. -/
structure TakesTurns (chunks : List Chunk) (s : State) : Prop where
  alone : s.main.modifies → ¬ s.reader.between
  before : s.main.modifies → s.objects.printed.map CStr.bytes = s.objects.stored
  inOrder : s.objects.printed.map CStr.bytes <+: s.objects.stored
  stored : s.objects.stored <+: chunks.map Chunk.bytes
  atEnd : s.reader = .done → s.objects.eof ∧ s.objects.input = [] ∧
    s.objects.printed.map CStr.bytes = chunks.map Chunk.bytes
  running : ¬ (s.MainBlocked ∧ s.ReaderBlocked)

/-- Whatever the chunks hold, their texts are printed in turn, and one of the threads can go on. -/
theorem texts_printed {chunks : List Chunk} {s : State} (reached : Leads step (start chunks) s) :
    (s.main.modifies → ¬ s.reader.between ∧
      s.objects.printed = s.objects.stored.map CStr.ofBytes) ∧
    s.objects.printed <+: s.objects.stored.map CStr.ofBytes ∧
    s.objects.stored <+: chunks.map Chunk.bytes ∧
    (s.reader = .done → s.objects.eof ∧ s.objects.input = [] ∧
      s.objects.printed = (chunks.map Chunk.bytes).map CStr.ofBytes) ∧
    ¬ (s.MainBlocked ∧ s.ReaderBlocked) := by
  have inv := leads_invariant at_step reached (at_start chunks)
  refine ⟨fun modifies => ⟨modifies_alone inv modifies, modifies_printed inv modifies⟩,
    Channel.inOrder_prefix inv.inOrder, stored_prefix inv, fun done => ?_, not_both_blocked inv⟩
  obtain ⟨atEnd, all, printed⟩ := done_all inv done
  exact ⟨inv.done done, atEnd, by rw [printed, all]⟩

theorem bytes_kept {stored : List (List UInt8)} (free : ∀ bytes ∈ stored, (0 : UInt8) ∉ bytes) :
    (stored.map CStr.ofBytes).map CStr.bytes = stored := by
  have each : ∀ bytes ∈ stored, (CStr.bytes ∘ CStr.ofBytes) bytes = id bytes :=
    fun bytes member => CStr.ofBytes_free (free bytes member)
  rw [List.map_map, List.map_congr_left each, List.map_id]

/-! ### A whole run -/

/-- Both threads wait, and it is the turn of `main`. -/
structure Between (s : State) : Prop where
  main : s.main = .wait
  reader : s.reader = .wait
  sem1 : s.objects.sem1 = 1
  sem2 : s.objects.sem2 = 0
  eof : s.objects.eof = false

theorem chunk_transferred {s : State} {chunk : Chunk} {rest : List Chunk} (between : Between s)
    (input : s.objects.input = chunk :: rest) :
    ∃ t, Leads step s t ∧ Between t ∧ t.objects.input = rest := by
  obtain ⟨main, reader, sem1, sem2, data, eof, input', stored, printed⟩ := s
  obtain ⟨main_, reader_, sem1_, sem2_, eof_⟩ := between
  dsimp only at main_ reader_ sem1_ sem2_ eof_ input
  subst main_ reader_ sem1_ sem2_ eof_ input
  have some : chunk.bytes.length ≠ 0 := fun zero =>
    chunk.nonempty (List.length_eq_zero_iff.mp zero)
  have run : ∃ t : State,
      ([.main, .main, .main, .main, .main, .main, .reader, .reader, .reader, .reader] :
        List Event).foldlM step ⟨.wait, .wait, ⟨1, 0, data, false, chunk :: rest, stored, printed⟩⟩ =
        .some t ∧ Between t ∧ t.objects.input = rest := by
    simp only [List.foldlM_cons, step, MainPc.ended, stepMain, stepReader, Option.map_some,
      Option.bind_eq_bind, Option.bind_some, if_neg some, Bool.false_eq_true, if_false]
    exact ⟨_, rfl, ⟨rfl, rfl, rfl, rfl, rfl⟩, rfl⟩
  obtain ⟨t, run, between, input⟩ := run
  exact ⟨t, leads_events run, between, input⟩

theorem chunks_transferred {s : State} (between : Between s) :
    ∃ t, Leads step s t ∧ Between t ∧ t.objects.input = [] := by
  induction input : s.objects.input generalizing s with
  | nil => exact ⟨s, Relation.ReflTransGen.refl, between, input⟩
  | cons chunk rest ih =>
    obtain ⟨u, first, between, rest⟩ := chunk_transferred between input
    obtain ⟨t, later, between, none⟩ := ih between rest
    exact ⟨t, first.trans later, between, none⟩

/-- After a run over all chunks, what they hold has been printed. -/
theorem all_printed (chunks : List Chunk) :
    ∃ s, Leads step (start chunks) s ∧ s.objects.stored = chunks.map Chunk.bytes ∧
      s.objects.printed = s.objects.stored.map CStr.ofBytes := by
  have created : Leads step (start chunks) { start chunks with main := .wait, reader := .wait } :=
    Relation.ReflTransGen.single ⟨.main, rfl⟩
  obtain ⟨s, later, between, none⟩ := chunks_transferred
    (s := { start chunks with main := .wait, reader := .wait }) ⟨rfl, rfl, rfl, rfl, rfl⟩
  have reached := created.trans later
  have inv := leads_invariant at_step reached (at_start chunks)
  have bytes := inv.bytes
  rw [between.main, none, List.map_nil, List.append_nil] at bytes
  refine ⟨s, reached, (List.append_nil _).symm.trans bytes, Channel.inOrder_empty inv.inOrder ?_⟩
  show unprinted _ _ _ = Option.none
  simp [unprinted, between.main, between.reader, between.sem2, MainPc.hasStored]

theorem turns_nulFree {chunks : List Chunk}
    (turns : ∀ s, Leads step (start chunks) s → TakesTurns chunks s) :
    ∀ chunk ∈ chunks, (0 : UInt8) ∉ chunk.bytes := by
  intro chunk member
  obtain ⟨s, reached, stored, printed⟩ := all_printed chunks
  have inOrder := (turns s reached).inOrder
  have whole := inOrder.eq_of_length (by rw [printed, List.length_map, List.length_map])
  rw [printed, stored, List.map_map, List.map_map] at whole
  have same := List.map_inj_left.mp whole chunk member
  rw [← same]
  exact CStr.nulFree _

/-- In every interleaving the threads take turns on `data`, exactly when no chunk holds a NUL:
`%s` prints what stands before it. -/
theorem takes_turns_iff (chunks : List Chunk) :
    (∀ s, Leads step (start chunks) s → TakesTurns chunks s) ↔
      ∀ chunk ∈ chunks, (0 : UInt8) ∉ chunk.bytes := by
  refine ⟨turns_nulFree, ?_⟩
  intro free s reached
  obtain ⟨turn, inOrder, stored, atEnd, running⟩ := texts_printed reached
  have kept : ∀ bytes ∈ chunks.map Chunk.bytes, (0 : UInt8) ∉ bytes := by
    intro bytes member
    obtain ⟨chunk, inside, rfl⟩ := List.mem_map.mp member
    exact free chunk inside
  have whole := bytes_kept fun bytes member => kept bytes (stored.subset member)
  refine ⟨fun modifies => (turn modifies).1, fun modifies => ?_, ?_, stored, fun done => ?_, running⟩
  · rw [(turn modifies).2, whole]
  · have texts := inOrder.map CStr.bytes
    rw [whole] at texts
    exact texts
  · obtain ⟨eof, none, printed⟩ := atEnd done
    exact ⟨eof, none, by rw [printed, bytes_kept kept]⟩

/-- Of the bytes `a`, NUL and `b` the reader prints the `a`. -/
theorem chunk_cut_off : ¬ ∀ (chunks : List Chunk) (s : State),
    Leads step (start chunks) s → TakesTurns chunks s := by
  intro turns
  have free := turns_nulFree (turns [⟨[97, 0, 98], List.cons_ne_nil _ _, by decide⟩])
  exact absurd (free _ List.mem_cons_self) (by decide)

end Tlpi.DataTransfer
