import TlpiExercises.Popen.Calls

/-!
# The length of fd_to_stream

`saved_fd_max` keeps the limit of the first call. A later call with a larger limit than that one
gives the table as many entries as its own limit, which can be fewer than the table had.
-/

namespace Tlpi.Popen

variable {s t : State}

/-- Every stream that a caller holds has an entry. -/
def State.InTable (s : State) : Prop :=
  ∀ stream ∈ s.returned, ∃ entries, s.fdToStream = some entries ∧ stream.fd < entries.length

/-- A reallocation leaves the open streams their entries. -/
def Fits (s : State) : Event → Prop
  | .popen calls _ => s.Reallocates calls → ∀ stream ∈ s.returned, stream.fd < s.limit
  | _ => True

theorem Prepared.inTable {calls : PopenCalls} {p : State} (prepared : Prepared s calls p)
    (inv : Inv s) (inTable : s.InTable) :
    p.InTable ↔ (s.Reallocates calls → ∀ stream ∈ s.returned, stream.fd < s.limit) := by
  rcases prepared with ⟨rfl, same⟩ | ⟨first, table, _, rfl⟩ | ⟨reallocates, rfl⟩
  · exact iff_of_true inTable fun reallocates => absurd reallocates same
  · have empty := (inv.unused first).2
    refine iff_of_true ?_ ?_
    · intro stream member
      rw [empty] at member
      cases member
    · rintro ⟨_, later, _, _⟩
      rw [first] at later
      cases later
  · have entry (fd : Fd) : (∃ entries, some (resize (s.fdToStream.getD []) s.limit) = some entries ∧
        fd < entries.length) ↔ fd < s.limit := by
      constructor
      · rintro ⟨entries, same, inside⟩
        rwa [← Option.some.inj same, resize_length] at inside
      · intro inside
        exact ⟨_, rfl, by rwa [resize_length]⟩
    constructor
    · exact fun all _ stream member => (entry _).mp (all stream member)
    · exact fun fits stream member => (entry _).mpr (fits reallocates stream member)

theorem Stored.inTable {p : State} {result : Option Stream} (stored : Stored p t result) :
    t.InTable ↔ p.InTable := by
  rcases stored with ⟨_, table, returned⟩ | ⟨out, before, _, _, returned, table, inside, after⟩
  · unfold State.InTable
    rw [table, returned]
  · unfold State.InTable
    rw [returned, table, after, List.forall_mem_cons]
    simp only [Option.some.injEq, exists_eq_left', List.length_set]
    exact and_iff_right inside

theorem step_inTable {e : Event} (inv : Inv s) (inTable : s.InTable) (stepped : step s e = .ok t) :
    t.InTable ↔ Fits s e := by
  cases e with
  | setrlimit limit =>
    cases stepped
    exact iff_of_true inTable trivial
  | popen calls type =>
    rcases popenImp_cases inv.sound calls type with
      ⟨t', result, call, _, _, p, prepared, _, _, stored⟩ | ⟨fault, call, _⟩
    · rw [step, call] at stepped
      cases stepped
      exact stored.inTable.trans (prepared.inTable inv inTable)
    · rw [step, call] at stepped
      cases stepped
  | pclose calls stream =>
    refine iff_of_true ?_ trivial
    rcases step_pclose stepped with rfl | ⟨child, closing, _, _, rfl⟩
    · exact inTable
    · exact fun other member => inTable other (List.mem_filter.mp member).1

/-- No call uses an index outside of the table while every stream has its entry. -/
theorem step_inside {e : Event} (inv : Inv s) (inTable : s.InTable) :
    step s e ≠ .error (.fault .outOfBounds) := by
  intro overrun
  cases e with
  | setrlimit limit => cases overrun
  | popen calls type =>
    rcases popenImp_cases inv.sound calls type with ⟨t, result, call, _⟩ | ⟨fault, call, inside⟩
    · rw [step, call] at overrun
      cases overrun
    · rw [step, call] at overrun
      cases overrun
      exact inside inv.keepsLength rfl
  | pclose calls stream =>
    by_cases held : stream ∈ s.returned
    · rcases pcloseImp_cases s calls held with
        ⟨_, call⟩ | ⟨child, _, ⟨entries, closing, _, _, _, call⟩ | ⟨fault, call, outside⟩⟩ |
        ⟨e, waited, call⟩
      · rw [step, call] at overrun
        cases overrun
      · rw [step, call] at overrun
        cases overrun
      · rw [step, call] at overrun
        cases overrun
        obtain ⟨entries, table, short⟩ := outside rfl
        obtain ⟨entries', table', inside⟩ := inTable stream held
        rw [table] at table'
        cases table'
        exact absurd inside (Nat.not_lt.mpr short)
      · rw [step, call] at overrun
        cases overrun
        exact waitpid_no_fault waited
    · rw [step, pcloseImp, if_pos held] at overrun
      cases overrun

theorem inTable_start (limit : Nat) (descriptors : List Fd) :
    (start limit descriptors).InTable := fun _ member => absurd member List.not_mem_nil

/-- A sequence of calls that all return keeps to the table exactly when no reallocation is shorter
than an open descriptor needs; and then no call that does not return leaves the table either. -/
theorem table_covers_iff (limit : Nat) (descriptors : List Fd) (events : List Event) :
    (∀ s, Runs.run step (start limit descriptors) events = .ok s →
      (Runs.Throughout step State.InTable (start limit descriptors) events ↔
        Runs.Each step Fits (start limit descriptors) events)) ∧
    (Runs.Each step Fits (start limit descriptors) events →
      Runs.run step (start limit descriptors) events ≠ .error (.fault .outOfBounds)) := by
  constructor
  · intro s returned
    refine Runs.reached_throughout_iff (I := Inv) ?_ ?_ (inv_start limit descriptors)
      (inTable_start limit descriptors) returned
    · exact fun s e t inv inTable stepped => step_inTable inv inTable stepped
    · exact fun s e t inv stepped => step_inv inv stepped
  · intro fits
    refine Runs.each_never (I := fun s => Inv s ∧ s.InTable) ?_ ?_ ?_ fits
    · exact fun s e held _ => step_inside held.1 held.2
    · intro s e t held fits stepped
      exact ⟨step_inv held.1 stepped, (step_inTable held.1 held.2 stepped).mpr fits⟩
    · exact ⟨inv_start limit descriptors, inTable_start limit descriptors⟩

def popenCalls (pid : Pid) (untilClosed : Bool) : PopenCalls :=
  ⟨true, true, true, true, true, some ⟨pid, 0, untilClosed⟩, true⟩

def reading : CStr := .ofBytes [114]

def writing : CStr := .ofBytes [119]

/-- A process without standard input opens four streams while the limit goes from 5 to 8, closes
the first, and opens another one after the limit has gone to 6. -/
def shrinking : List Event :=
  [.popen (popenCalls 100 false) reading, .setrlimit 8, .popen (popenCalls 101 true) writing,
    .popen (popenCalls 102 true) writing, .popen (popenCalls 103 true) writing,
    .pclose ⟨false, 100, true⟩ ⟨0, 0⟩, .setrlimit 6, .popen (popenCalls 104 false) reading]

theorem table_covers_iff_sample : ∃ s, Runs.run step (start 5 [1, 2]) shrinking = .ok s ∧
    (Runs.Throughout step State.InTable (start 5 [1, 2]) shrinking ↔
      Runs.Each step Fits (start 5 [1, 2]) shrinking) := by
  have returned : ∃ s, Runs.run step (start 5 [1, 2]) shrinking = .ok s := ⟨_, rfl⟩
  obtain ⟨s, returned⟩ := returned
  exact ⟨s, returned, (table_covers_iff 5 [1, 2] shrinking).1 s returned⟩

theorem table_shrinks_below_stream :
    ¬ ∀ limit descriptors events s, Runs.run step (start limit descriptors) events = .ok s →
      s.InTable := by
  intro all
  have covered := all 5 [1, 2] shrinking _ rfl
  obtain ⟨entries, table, inside⟩ := covered ⟨3, 6⟩ (by decide)
  cases table
  exact absurd inside (by decide)

end Tlpi.Popen
