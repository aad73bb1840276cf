import Mathlib.Data.List.Basic
import TlpiExercises.C.Strings
import TlpiExercises.Library.LittleEndian
import TlpiExercises.Library.Loop

/-!
# The event loop of 19_Monitoring_File_Events/tree_watch.c on the bytes that it reads

A batch is what one `read` has put into the buffer: records of a header and a name, one after another.
The kernel puts a NUL behind a name. When the loop replaces the inotify descriptor, what was queued on
the old one is gone. Which directories get a watch is left out, as is `inotify_rm_watch`.
-/

namespace Tlpi.TreeWatch.Batches

open Loop LittleEndian

def IN_CREATE : UInt32 := 0x00000100
def IN_ISDIR : UInt32 := 0x40000000

/-- `struct inotify_event`. `wd` is given by its bits. -/
@[ext] structure InotifyEvent where
  wd : UInt32
  mask : UInt32
  cookie : UInt32
  name : List UInt8
  short : name.length < 2 ^ 32
  terminated : name = [] ∨ 0 ∈ name
  deriving DecidableEq

def InotifyEvent.len (event : InotifyEvent) : UInt32 := UInt32.ofNat event.name.length

/-- `sizeof(struct inotify_event)` -/
def HEADER : Nat := 16

def wordBytes (word : UInt32) : List UInt8 := toBytes 4 word.toNat

def encode (event : InotifyEvent) : List UInt8 :=
  wordBytes event.wd ++ (wordBytes event.mask ++ (wordBytes event.cookie ++ (wordBytes event.len ++
    event.name)))

def word (bytes : List UInt8) : UInt32 := UInt32.ofNat (ofBytes (bytes.take 4))

/-- The record at the start of some bytes, which have to hold its header and its name. -/
def readEvent (bytes : List UInt8) : Option InotifyEvent :=
  let len := word (bytes.drop 12)
  if bytes.length < HEADER + len.toNat then none
  else if terminated : (bytes.drop HEADER).take len.toNat = [] ∨ 0 ∈ (bytes.drop HEADER).take len.toNat then
    some {
      wd := word bytes
      mask := word (bytes.drop 4)
      cookie := word (bytes.drop 8)
      name := (bytes.drop HEADER).take len.toNat
      short := Nat.lt_of_le_of_lt (List.length_take_le _ _) len.toNat_lt
      terminated }
  else none

/-- What is printed: `d ` for a directory, and a line with the name. -/
def displayEvent (event : InotifyEvent) : List UInt8 :=
  (if event.mask &&& IN_ISDIR ≠ 0 then [100, SPACE] else []) ++
    if event.len > 0 then (CStr.ofBytes event.name).bytes ++ [NEWLINE] else []

def handleEvent (event : InotifyEvent) : Int :=
  if event.mask &&& IN_ISDIR ≠ 0 then
    if event.mask &&& IN_CREATE ≠ 0 ∧ event.len > 0 then 1 else 0
  else 0

/-- The loop over a batch, with `p` and what has been printed. It ends with the output, and with
whether the descriptor was replaced. -/
def handleRecord (buf : List UInt8) (s : Nat × List UInt8) :
    Except (Except Fault (List UInt8 × Bool)) (Nat × List UInt8) :=
  let (p, output) := s
  if p < buf.length then
    match readEvent (buf.drop p) with
    | none => .error (.error .outOfBounds)
    | some event =>
      let output := output ++ displayEvent event
      if handleEvent event = 1 then .error (.ok (output, true))
      else .ok (p + HEADER + event.len.toNat, output)
  else .error (.ok (output, false))

def handleBatch (buf : List UInt8) : Option (Except Fault (List UInt8 × Bool)) :=
  loop (handleRecord buf) (buf.length + 1) (0, [])

/-- The events that are queued on the descriptor, and what has been printed. -/
structure State where
  queue : List InotifyEvent
  output : List UInt8

/-- A batch is handled, with `queue` behind it. -/
def handleRead (batch queue : List InotifyEvent) (output : List UInt8) : Option State :=
  match handleBatch (batch.flatMap encode) with
  | some (.ok (printed, replaced)) => some ⟨if replaced then [] else queue, output ++ printed⟩
  | _ => none

/-- What happens up to the next `read` that returns: the events that arrive, and how many of the
queued ones but the first it takes. -/
structure Round where
  arrived : List InotifyEvent
  more : Nat

def round (r : Round) (s : State) : Option State :=
  let queue := s.queue ++ r.arrived
  handleRead (queue.take (r.more + 1)) (queue.drop (r.more + 1)) s.output

def rounds : List Round → State → Option State
  | [], s => some s
  | r :: rest, s =>
    match round r s with
    | none => none
    | some t => rounds rest t

def display (events : List InotifyEvent) : List UInt8 := events.flatMap displayEvent

/-- Something is printed for each event. The batch is displayed whole and in order, without a fault,
and what is queued behind it is displayed by later rounds, if there are enough of them. -/
structure NothingLost (batch queue : List InotifyEvent) : Prop where
  visible : ∀ event ∈ batch ++ queue, displayEvent event ≠ []
  displayed : ∃ replaced, handleBatch (batch.flatMap encode) = some (.ok (display batch, replaced))
  later : ∀ s, handleRead batch queue [] = some s → ∀ rest, queue.length ≤ rest.length →
    ∃ t, rounds rest s = some t ∧ display (batch ++ queue) <+: t.output

/-! ### The records -/

theorem word_wordBytes (x : UInt32) (rest : List UInt8) : word (wordBytes x ++ rest) = x := by
  have small : x.toNat < 256 ^ 4 := x.toNat_lt
  unfold word wordBytes
  rw [List.take_left' (toBytes_length 4 x.toNat), ofBytes_toBytes small, UInt32.ofNat_toNat]

theorem wordBytes_length (x : UInt32) : (wordBytes x).length = 4 := toBytes_length 4 x.toNat

theorem drop_wordBytes (n : Nat) (x : UInt32) (rest : List UInt8) :
    (wordBytes x ++ rest).drop (n + 4) = rest.drop n := by
  rw [Nat.add_comm, ← List.drop_drop, List.drop_left' (wordBytes_length x)]

theorem len_toNat (event : InotifyEvent) : event.len.toNat = event.name.length :=
  UInt32.toNat_ofNat_of_lt' event.short

theorem encode_length (event : InotifyEvent) : (encode event).length = HEADER + event.len.toNat := by
  unfold encode HEADER
  simp only [List.length_append, wordBytes_length, len_toNat]
  omega

theorem readEvent_encode (event : InotifyEvent) (rest : List UInt8) :
    readEvent (encode event ++ rest) = some event := by
  have layout : encode event ++ rest = wordBytes event.wd ++ (wordBytes event.mask ++
      (wordBytes event.cookie ++ (wordBytes event.len ++ (event.name ++ rest)))) := by
    unfold encode
    simp only [List.append_assoc]
  have len : word ((encode event ++ rest).drop 12) = event.len := by
    rw [layout, drop_wordBytes 8, drop_wordBytes 4, drop_wordBytes 0, List.drop_zero, word_wordBytes]
  have inside : ¬ (encode event ++ rest).length < HEADER + (word ((encode event ++ rest).drop 12)).toNat := by
    rw [len, List.length_append, encode_length]
    omega
  have name : ((encode event ++ rest).drop HEADER).take
      (word ((encode event ++ rest).drop 12)).toNat = event.name := by
    rw [len, layout, HEADER, drop_wordBytes 12, drop_wordBytes 8, drop_wordBytes 4, drop_wordBytes 0,
      List.drop_zero, len_toNat, List.take_left]
  have terminated := event.terminated
  rw [← name] at terminated
  refine (if_neg inside).trans ((dif_pos terminated).trans
    (congrArg some (InotifyEvent.ext ?_ ?_ ?_ name)))
  · dsimp only
    rw [layout, word_wordBytes]
  · dsimp only
    rw [layout, drop_wordBytes 0, List.drop_zero, word_wordBytes]
  · dsimp only
    rw [layout, drop_wordBytes 4, drop_wordBytes 0, List.drop_zero, word_wordBytes]

/-! ### A batch -/

/-- A directory has been created, and all watches are made anew. -/
def InotifyEvent.Creates (event : InotifyEvent) : Prop := handleEvent event = 1

instance (event : InotifyEvent) : Decidable event.Creates :=
  inferInstanceAs (Decidable (handleEvent event = 1))

/-- The events up to the first creation. -/
def shown : List InotifyEvent → List InotifyEvent
  | [] => []
  | event :: rest => if event.Creates then [event] else event :: shown rest

def replaces (events : List InotifyEvent) : Bool := events.any (·.Creates)

theorem handleBatch_loop (before output : List UInt8) (events : List InotifyEvent) {fuel : Nat}
    (enough : events.length < fuel) :
    loop (handleRecord (before ++ events.flatMap encode)) fuel (before.length, output) =
      some (.ok (output ++ display (shown events), replaces events)) := by
  induction events generalizing before output fuel with
  | nil =>
    obtain ⟨fuel, rfl⟩ := Nat.exists_eq_add_one_of_ne_zero (Nat.ne_of_gt enough)
    have stop : ¬ before.length < (before ++ [].flatMap encode).length := by
      rw [List.flatMap_nil, List.append_nil]
      exact Nat.lt_irrefl _
    rw [loop, handleRecord]
    dsimp only
    rw [if_neg stop]
    exact congrArg (fun output => some (Except.ok (output, false))) (List.append_nil output).symm
  | cons event rest ih =>
    obtain ⟨fuel, rfl⟩ := Nat.exists_eq_add_one_of_ne_zero (Nat.ne_of_gt (Nat.zero_lt_of_lt enough))
    have length := encode_length event
    have inside : before.length < (before ++ (event :: rest).flatMap encode).length := by
      rw [List.flatMap_cons, List.length_append, List.length_append, length, HEADER]
      omega
    have found : readEvent ((before ++ (event :: rest).flatMap encode).drop before.length) = some event := by
      rw [List.drop_left, List.flatMap_cons, readEvent_encode]
    rw [loop, handleRecord]
    dsimp only
    rw [if_pos inside, found]
    dsimp only
    unfold replaces
    rw [shown, List.any_cons]
    by_cases creates : event.Creates
    · have replaced : handleEvent event = 1 := creates
      rw [if_pos replaced, if_pos creates, decide_eq_true creates, Bool.true_or, display,
        List.flatMap_singleton]
    · have goes_on : ¬ handleEvent event = 1 := creates
      have next := ih (before ++ encode event) (output ++ displayEvent event)
        (Nat.lt_of_succ_lt_succ enough)
      rw [List.append_assoc, ← List.flatMap_cons, List.length_append, length, List.append_assoc,
        ← Nat.add_assoc] at next
      rw [if_neg goes_on, if_neg creates, decide_eq_false creates, Bool.false_or, display,
        List.flatMap_cons]
      exact next

theorem length_flatMap_encode (events : List InotifyEvent) :
    events.length ≤ (events.flatMap encode).length := by
  induction events with
  | nil => exact Nat.le_refl 0
  | cons event rest ih =>
    rw [List.flatMap_cons, List.length_cons, List.length_append, encode_length, HEADER]
    omega

/-- The cursor stays in the bytes, and the loop ends. -/
theorem handleBatch_records (events : List InotifyEvent) :
    handleBatch (events.flatMap encode) = some (.ok (display (shown events), replaces events)) :=
  handleBatch_loop [] [] events (Nat.lt_succ_of_le (length_flatMap_encode events))

theorem handleRead_records (batch queue : List InotifyEvent) (output : List UInt8) :
    handleRead batch queue output =
      some ⟨if replaces batch then [] else queue, output ++ display (shown batch)⟩ := by
  unfold handleRead
  rw [handleBatch_records]

/-! ### What is shown -/

theorem shown_append (first second : List InotifyEvent) :
    shown (first ++ second) = shown first ++ if replaces first then [] else shown second := by
  induction first with
  | nil => rfl
  | cons event rest ih =>
    rw [List.cons_append, shown, shown, replaces, List.any_cons]
    by_cases creates : event.Creates
    · rw [if_pos creates, if_pos creates, decide_eq_true creates]
      rfl
    · rw [if_neg creates, if_neg creates, decide_eq_false creates, Bool.false_or, ih]
      rfl

theorem shown_isPrefix (events : List InotifyEvent) : shown events <+: events := by
  induction events with
  | nil => exact List.prefix_refl []
  | cons event rest ih =>
    rw [shown]
    split
    · exact List.prefix_append [event] rest
    · exact List.prefix_cons_inj event |>.mpr ih

/-- Both parts are shown, unless there is a creation in the first one and the second one is empty. -/
theorem shown_append_iff (first second : List InotifyEvent) :
    shown (first ++ second) = first ++ second ↔
      shown first = first ∧ (replaces first → second = []) ∧ shown second = second := by
  rw [shown_append]
  have first_length := (shown_isPrefix first).length_le
  have second_length := (shown_isPrefix second).length_le
  constructor
  · intro same
    have lengths := congrArg List.length same
    rw [List.length_append, List.length_append] at lengths
    by_cases replaced : replaces first
    · rw [if_pos replaced, List.length_nil] at lengths
      obtain rfl := List.eq_nil_of_length_eq_zero (l := second) (by omega)
      rw [if_pos replaced] at same
      exact ⟨List.append_cancel_right same, fun _ => rfl, rfl⟩
    · rw [if_neg replaced] at same lengths
      obtain ⟨one, two⟩ := List.append_inj same (by omega)
      exact ⟨one, fun yes => absurd yes replaced, two⟩
  · rintro ⟨one, empty, two⟩
    split
    next replaced => rw [one, empty replaced]
    next => rw [one, two]

/-- Nothing is lost if a creation comes last, if at all. -/
theorem shown_eq_iff (events : List InotifyEvent) :
    shown events = events ↔ ∀ event ∈ events.dropLast, ¬ event.Creates := by
  induction events with
  | nil => exact iff_of_true rfl (List.forall_mem_nil _)
  | cons event rest ih =>
    cases rest with
    | nil =>
      refine iff_of_true ?_ (List.forall_mem_nil _)
      rw [shown]
      exact ite_self _
    | cons next rest =>
      rw [List.dropLast_cons_of_ne_nil (List.cons_ne_nil next rest), List.forall_mem_cons, ← ih, shown]
      by_cases creates : event.Creates
      · rw [if_pos creates]
        refine iff_of_false (fun same => ?_) fun both => both.1 creates
        cases List.tail_eq_of_cons_eq same
      · rw [if_neg creates, List.cons_inj_right]
        exact (and_iff_right creates).symm

/-! ### What is printed -/

/-- A file or a directory is named, or it is a directory. -/
def InotifyEvent.Printed (event : InotifyEvent) : Prop := event.mask &&& IN_ISDIR ≠ 0 ∨ event.len > 0

theorem displayEvent_iff (event : InotifyEvent) : displayEvent event ≠ [] ↔ event.Printed := by
  unfold displayEvent InotifyEvent.Printed
  by_cases directory : event.mask &&& IN_ISDIR ≠ 0
  · rw [if_pos directory]
    exact iff_of_true (List.cons_ne_nil _ _) (Or.inl directory)
  · rw [if_neg directory, List.nil_append, or_iff_right directory]
    by_cases named : event.len > 0
    · rw [if_pos named]
      exact iff_of_true (by simp) named
    · rw [if_neg named]
      exact iff_of_false (fun some => some rfl) named

theorem display_append (first second : List InotifyEvent) :
    display (first ++ second) = display first ++ display second := List.flatMap_append

/-- Where each event prints something, a part of them prints less than all. -/
theorem display_whole {part events : List InotifyEvent} (inside : part <+: events)
    (visible : ∀ event ∈ events, displayEvent event ≠ [])
    (printed : display events <+: display part) : part = events := by
  obtain ⟨rest, rfl⟩ := inside
  cases rest with
  | nil => exact (List.append_nil part).symm
  | cons event rest =>
    have some := List.length_pos_iff.mpr
      (visible event (List.mem_append_right part List.mem_cons_self))
    have short := printed.length_le
    rw [display_append, List.length_append, display, display, List.flatMap_cons,
      List.length_append] at short
    omega

/-! ### The rounds -/

theorem round_eq (r : Round) (s : State) : round r s =
    some ⟨if replaces ((s.queue ++ r.arrived).take (r.more + 1)) then []
        else (s.queue ++ r.arrived).drop (r.more + 1),
      s.output ++ display (shown ((s.queue ++ r.arrived).take (r.more + 1)))⟩ :=
  handleRead_records ..

theorem rounds_grow (rest : List Round) (s : State) :
    ∃ t, rounds rest s = some t ∧ s.output <+: t.output := by
  induction rest generalizing s with
  | nil => exact ⟨s, rfl, List.prefix_refl _⟩
  | cons r rest ih =>
    rw [rounds, round_eq]
    obtain ⟨t, ran, grown⟩ :=
      ih ⟨_, s.output ++ display (shown ((s.queue ++ r.arrived).take (r.more + 1)))⟩
    exact ⟨t, ran, (List.prefix_append _ _).trans grown⟩

/-- Every round takes an event at least, until a creation comes. -/
theorem rounds_show {rest : List Round} {s : State} {queue others : List InotifyEvent}
    (queued : s.queue = queue ++ others) (whole : shown queue = queue)
    (enough : queue.length ≤ rest.length) :
    ∃ t, rounds rest s = some t ∧ s.output ++ display queue <+: t.output := by
  induction rest generalizing s queue others with
  | nil =>
    obtain rfl := List.eq_nil_of_length_eq_zero (Nat.le_zero.mp enough)
    exact ⟨s, rfl, by rw [display, List.flatMap_nil, List.append_nil]⟩
  | cons r rest ih =>
    rw [rounds, round_eq, queued, List.append_assoc]
    dsimp only
    by_cases short : r.more + 1 < queue.length
    · have taken : (queue ++ (others ++ r.arrived)).take (r.more + 1) = queue.take (r.more + 1) :=
        List.take_append_of_le_length (Nat.le_of_lt short)
      have left : (queue ++ (others ++ r.arrived)).drop (r.more + 1) =
          queue.drop (r.more + 1) ++ (others ++ r.arrived) :=
        List.drop_append_of_le_length (Nat.le_of_lt short)
      rw [← List.take_append_drop (r.more + 1) queue, shown_append_iff] at whole
      obtain ⟨first, empty, second⟩ := whole
      have goes_on : ¬ replaces (queue.take (r.more + 1)) := by
        intro replaced
        exact absurd (List.drop_eq_nil_iff.mp (empty replaced)) (Nat.not_le.mpr short)
      rw [taken, left, if_neg goes_on, first]
      rw [List.length_cons] at enough
      obtain ⟨t, ran, grown⟩ := ih (s := ⟨_, s.output ++ display (queue.take (r.more + 1))⟩) rfl second
        (by
          rw [List.length_drop]
          omega)
      refine ⟨t, ran, ?_⟩
      rwa [List.append_assoc, ← display_append, List.take_append_drop] at grown
    · obtain ⟨t, ran, grown⟩ := rounds_grow rest
        ⟨if replaces ((queue ++ (others ++ r.arrived)).take (r.more + 1)) then []
          else (queue ++ (others ++ r.arrived)).drop (r.more + 1),
        s.output ++ display (shown ((queue ++ (others ++ r.arrived)).take (r.more + 1)))⟩
      refine ⟨t, ran, List.IsPrefix.trans ?_ grown⟩
      dsimp only
      rw [List.take_append, List.take_of_length_le (by omega), shown_append, whole, display_append,
        ← List.append_assoc]
      exact List.prefix_append _ _

/-- Without new events, what has been displayed and what will be make up the same. -/
theorem rounds_silent (n : Nat) (s : State) :
    ∃ t, rounds (List.replicate n ⟨[], 0⟩) s = some t ∧
      t.output ++ display (shown t.queue) = s.output ++ display (shown s.queue) := by
  induction n generalizing s with
  | zero => exact ⟨s, rfl, rfl⟩
  | succ n ih =>
    rw [List.replicate_succ, rounds, round_eq]
    dsimp only
    rw [List.append_nil]
    obtain ⟨t, ran, same⟩ := ih ⟨if replaces (s.queue.take (0 + 1)) then [] else s.queue.drop (0 + 1),
      s.output ++ display (shown (s.queue.take (0 + 1)))⟩
    refine ⟨t, ran, same.trans ?_⟩
    dsimp only
    have parts := shown_append (s.queue.take (0 + 1)) (s.queue.drop (0 + 1))
    rw [List.take_append_drop] at parts
    rw [parts, display_append, List.append_assoc]
    split <;> rfl

/-- The loop leaves the batch at the creation of a directory, and closes the descriptor. Of an event
with neither a name nor `IN_ISDIR` nothing is printed. -/
theorem nothingLost_iff (batch queue : List InotifyEvent) :
    NothingLost batch queue ↔ (∀ event ∈ (batch ++ queue).dropLast, ¬ event.Creates) ∧
      ∀ event ∈ batch ++ queue, event.Printed := by
  rw [← shown_eq_iff]
  constructor
  · intro kept
    refine ⟨?_, fun event member => (displayEvent_iff event).mp (kept.visible event member)⟩
    obtain ⟨t, ran, same⟩ := rounds_silent queue.length
      ⟨if replaces batch then [] else queue, [] ++ display (shown batch)⟩
    obtain ⟨t', ran', all⟩ := kept.later _ (handleRead_records batch queue [])
      (List.replicate queue.length ⟨[], 0⟩) (Nat.le_of_eq List.length_replicate.symm)
    obtain rfl := Option.some.inj (ran.symm.trans ran')
    have total : t.output ++ display (shown t.queue) = display (shown (batch ++ queue)) := by
      rw [same, shown_append, List.nil_append, display_append]
      split <;> rfl
    have inside : display (batch ++ queue) <+: display (shown (batch ++ queue)) :=
      total ▸ all.trans (List.prefix_append _ _)
    exact display_whole (shown_isPrefix _) kept.visible inside
  · rintro ⟨same, printed⟩
    obtain ⟨first, empty, second⟩ := (shown_append_iff batch queue).mp same
    refine ⟨fun event member => (displayEvent_iff event).mpr (printed event member),
      ⟨replaces batch, by rw [handleBatch_records, first]⟩, fun s handled rest enough => ?_⟩
    obtain rfl := Option.some.inj ((handleRead_records batch queue []).symm.trans handled)
    have queued : (if replaces batch then [] else queue) = queue ++ [] := by
      rw [List.append_nil]
      split
      next replaced => exact (empty replaced).symm
      next => rfl
    have later := rounds_show
      (s := ⟨if replaces batch then [] else queue, [] ++ display (shown batch)⟩) queued second enough
    rw [first] at later ⊢
    rw [display_append]
    exact later

/-- A directory is created, and a name is deleted before the events are read. -/
theorem deletion_lost : ¬ ∀ batch queue : List InotifyEvent, NothingLost batch queue := by
  intro all
  have kept := all [⟨1, IN_CREATE ||| IN_ISDIR, 0, 100 :: List.replicate 15 0, by decide, by decide⟩,
    ⟨1, 0x200, 0, 102 :: List.replicate 15 0, by decide, by decide⟩] []
  obtain ⟨replaced, whole⟩ := kept.displayed
  rw [handleBatch_records] at whole
  have lengths := congrArg List.length (Prod.mk.inj (Except.ok.inj (Option.some.inj whole))).1
  exact absurd lengths (by decide)

end Tlpi.TreeWatch.Batches
