import TlpiExercises.Popen.Calls

/-!
# Whom pclose_imp waits for

The table keeps the streams and not the children, and `pclose_imp` hands the descriptor to
`waitpid`. The child of a stream is the one on the other end of its pipe.
-/

namespace Tlpi.Popen

variable {s t : State}

def Event.isCall : Event → Bool
  | .setrlimit _ => false
  | _ => true

/-- The call waits for the stream's own child and returns its status; all other children and
streams stay. -/
def Closes (s : State) (calls : PcloseCalls) (stream : Stream) : Prop :=
  ∃ child ∈ s.children, child.stream = stream ∧
    ∃ t, pcloseImp s calls stream = .ok (t, ⟨child.status, some child⟩) ∧
      t.children = s.children.erase child ∧ t.streams = s.streams.filter (· ≠ stream)

/-- `waitpid` finds the child of the stream by the number of the stream's descriptor. -/
def Meets (s : State) (calls : PcloseCalls) (stream : Stream) : Prop :=
  ∃ child ∈ s.children, child.stream = stream ∧ child.untilClosed = false ∧
    calls.interrupted = false ∧ calls.fclose = true ∧
    (stream.fd = child.pid ∨ stream.fd = 0 ∧ s.anyChild calls.first = some child)

/-! ### The entries of the table -/

/-- Every stream that a caller holds is at its descriptor's place. -/
def State.Covered (s : State) : Prop :=
  ∀ stream ∈ s.returned, ∃ entries, s.fdToStream = some entries ∧
    entries[stream.fd]? = some (some stream)

/-- What holds while nobody changes the limit. -/
structure Assigned (s : State) : Prop extends Inv s where
  covered : s.Covered
  constant : s.init = false → s.savedFdMax = s.limit

theorem assigned_start (limit : Nat) (descriptors : List Fd) :
    Assigned (start limit descriptors) where
  toInv := inv_start limit descriptors
  covered := fun _ member => absurd member List.not_mem_nil
  constant := nofun

theorem Stored.covered {p : State} {result : Option Stream} (stored : Stored p t result)
    (sound : p.Sound) (covered : p.Covered) : t.Covered := by
  rcases stored with ⟨_, table, returned⟩ | ⟨out, before, _, free, returned, table, inside, after⟩
  · unfold State.Covered
    rw [table, returned]
    exact covered
  · unfold State.Covered
    rw [returned, after]
    refine List.forall_mem_cons.mpr ⟨⟨_, rfl, List.getElem?_set_self inside⟩, fun stream held => ?_⟩
    obtain ⟨entries, same, entry⟩ := covered stream held
    rw [table] at same
    cases same
    have apart : out.fd ≠ stream.fd := by
      intro same
      exact free (same ▸ sound.inUse stream (sound.returned stream held))
    exact ⟨_, rfl, (List.getElem?_set_ne apart).trans entry⟩

theorem Prepared.covered {calls : PopenCalls} {p : State} (prepared : Prepared s calls p)
    (assigned : Assigned s) : p.Covered ∧ (p.init = false → p.savedFdMax = p.limit) := by
  rcases prepared with ⟨rfl, _⟩ | ⟨first, table, _, rfl⟩ | ⟨⟨_, later, grown, _⟩, rfl⟩
  · exact ⟨assigned.covered, assigned.constant⟩
  · refine ⟨fun stream held => ?_, fun _ => rfl⟩
    rw [show s.returned = [] from (assigned.unused first).2] at held
    cases held
  · exact absurd grown (Nat.not_lt.mpr (assigned.constant later).ge)

theorem step_assigned {e : Event} (isCall : e.isCall = true) (assigned : Assigned s)
    (stepped : step s e = .ok t) : Assigned t := by
  have inv := step_inv assigned.toInv stepped
  cases e with
  | setrlimit limit => cases isCall
  | popen calls type =>
    rcases popenImp_cases assigned.sound calls type with
      ⟨t', result, call, _, limit, p, prepared, init, saved, stored⟩ | ⟨fault, call, _⟩
    · rw [step, call] at stepped
      cases stepped
      obtain ⟨sound, same⟩ := prepared.sound assigned.sound
      obtain ⟨covered, constant⟩ := prepared.covered assigned
      refine ⟨inv, stored.covered sound covered, ?_⟩
      rw [init, saved, limit, ← same]
      exact constant
    · rw [step, call] at stepped
      cases stepped
  | pclose calls stream =>
    rcases step_pclose stepped with rfl | ⟨child, closing, _, _, rfl⟩
    · exact assigned
    · exact ⟨inv, fun stream left => assigned.covered stream (List.mem_filter.mp left).1,
        assigned.constant⟩

/-! ### waitpid -/

theorem waitpid_own_iff {calls : PcloseCalls} {child : Child} (sound : s.Sound)
    (member : child ∈ s.children) (opened : child.stream ∈ s.streams) (fd : Fd) :
    s.waitpid calls fd = .ok (some child) ↔
      child.untilClosed = false ∧ calls.interrupted = false ∧
        (fd = child.pid ∨ fd = 0 ∧ s.anyChild calls.first = some child) := by
  have ends : s.ends child = true ↔ child.untilClosed = false := by
    simp [State.ends, opened]
  constructor
  · intro waited
    refine ⟨ends.mp (waitpid_mem waited).2, ?_⟩
    unfold State.waitpid at waited
    split at waited
    · cases waited
    rename_i notInterrupted
    refine ⟨by simpa using notInterrupted, ?_⟩
    split at waited
    · rename_i zero
      split at waited
      · rename_i any
        cases waited
        exact Or.inr ⟨zero, any⟩
      · split at waited <;> cases waited
    · split at waited
      · rename_i found
        split at waited
        · cases waited
          have number := List.find?_some found
          exact Or.inl (of_decide_eq_true number).symm
        · cases waited
      · cases waited
  · rintro ⟨ended, notInterrupted, own | ⟨zero, any⟩⟩
    · have positive : fd ≠ 0 := own ▸ sound.pidsPositive child member
      have found : s.children.find? (·.pid = fd) = some child := by
        cases search : s.children.find? (·.pid = fd) with
        | none =>
          have other := List.find?_eq_none.mp search child member
          exact absurd own.symm (by simpa using other)
        | some other =>
          have number : other.pid = fd := by simpa using List.find?_some search
          have there := List.mem_of_find?_eq_some search
          rw [sound.pids child member other there (number.trans own)]
      simp [State.waitpid, notInterrupted, positive, found, ends.mpr ended]
    · simp [State.waitpid, notInterrupted, zero, any]

theorem pcloseImp_covered {calls : PcloseCalls} {stream : Stream} {child : Child}
    (assigned : Assigned s) (held : stream ∈ s.returned)
    (waited : s.waitpid calls stream.fd = .ok (some child)) :
    pcloseImp s calls stream = .ok (s.closed child stream,
      ⟨if calls.fclose then child.status else -1, some child⟩) := by
  obtain ⟨entries, table, entry⟩ := assigned.covered stream held
  have opened := assigned.sound.returned stream held
  rw [pcloseImp, if_neg (not_not_intro held), waited]
  simp only [State.fclose, State.closed, table, entry, if_pos opened]

theorem closes_iff_meets {calls : PcloseCalls} {stream : Stream} (assigned : Assigned s)
    (held : stream ∈ s.returned) : Closes s calls stream ↔ Meets s calls stream := by
  have opened := assigned.sound.returned stream held
  constructor
  · rintro ⟨child, member, rfl, t, call, _, _⟩
    rcases pcloseImp_cases s calls held with
      ⟨_, call'⟩ | ⟨child', waited, ⟨_, _, _, _, _, call'⟩ | ⟨_, call', _⟩⟩ | ⟨_, _, call'⟩
    · rw [call'] at call
      cases call
    · rw [call'] at call
      simp only [Except.ok.injEq, Prod.mk.injEq, Closing.mk.injEq, Option.some.injEq] at call
      obtain ⟨_, status, rfl⟩ := call
      obtain ⟨ended, notInterrupted, number⟩ :=
        (waitpid_own_iff assigned.sound member opened _).mp waited
      have flushed : calls.fclose = true := by
        by_contra failed
        rw [if_neg failed] at status
        omega
      exact ⟨child', member, rfl, ended, notInterrupted, flushed, number⟩
    · rw [call'] at call
      cases call
    · rw [call'] at call
      cases call
  · rintro ⟨child, member, rfl, ended, notInterrupted, flushed, number⟩
    have waited : s.waitpid calls child.stream.fd = .ok (some child) :=
      (waitpid_own_iff assigned.sound member opened _).mpr ⟨ended, notInterrupted, number⟩
    refine ⟨child, member, rfl, s.closed child child.stream, ?_, rfl, rfl⟩
    rw [pcloseImp_covered assigned held waited, if_pos flushed]

/-- In every state that calls lead to, `pclose_imp` does what is expected of it exactly when the
stream's descriptor has the number of its child, or `waitpid(0, ...)` hits on that child. -/
theorem closes_iff {limit : Nat} {descriptors : List Fd} {events : List Event} {s : State}
    (calls : ∀ e ∈ events, e.isCall = true)
    (reached : Runs.run step (start limit descriptors) events = .ok s) {stream : Stream}
    (held : stream ∈ s.returned) (env : PcloseCalls) :
    Closes s env stream ↔ Meets s env stream := by
  have assigned : Assigned s := by
    refine Runs.run_invariant (C := fun _ e => e.isCall = true) ?_
      (assigned_start limit descriptors) (Runs.each_of_all calls) reached
    exact fun s e t assigned isCall stepped => step_assigned isCall assigned stepped
  exact closes_iff_meets assigned held

/-- The driver's first stream: `ls` has a process id of its own. -/
def firstStream : List Event :=
  [.popen ⟨true, true, true, true, true, some ⟨100, 0, false⟩, true⟩ (.ofBytes [114])]

theorem closes_iff_sample : ∃ s, Runs.run step (start 8 [0, 1, 2]) firstStream = .ok s ∧
    (Closes s ⟨false, 100, true⟩ ⟨0, 3⟩ ↔ Meets s ⟨false, 100, true⟩ ⟨0, 3⟩) := by
  have reached : ∃ s, Runs.run step (start 8 [0, 1, 2]) firstStream = .ok s ∧
      (⟨0, 3⟩ : Stream) ∈ s.returned := ⟨_, rfl, List.mem_cons_self⟩
  obtain ⟨s, reached, held⟩ := reached
  exact ⟨s, reached, closes_iff (by simp [firstStream, Event.isCall]) reached held _⟩

theorem pclose_misses_child :
    ¬ ∀ limit descriptors events s, (∀ e ∈ events, e.isCall = true) →
      Runs.run step (start limit descriptors) events = .ok s →
      ∀ stream ∈ s.returned, ∀ env, Closes s env stream := by
  intro all
  have closes := all 8 [0, 1, 2] firstStream _ (by simp [firstStream, Event.isCall]) rfl ⟨0, 3⟩
    List.mem_cons_self ⟨false, 100, true⟩
  obtain ⟨child, _, _, t, call, _⟩ := closes
  cases call

end Tlpi.Popen
