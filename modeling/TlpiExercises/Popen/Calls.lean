import TlpiExercises.Popen.Model

/-!
# What one call does

`popenImp_cases` and `pcloseImp_cases` list the outcomes; the later modules use nothing else about
the code.
-/

namespace Tlpi.Popen

variable {s t : State}

/-! ### Descriptors -/

theorem lowest_spec {limit : Nat} {descriptors : List Fd} {fd : Fd}
    (h : lowest limit descriptors = some fd) : fd < limit ∧ fd ∉ descriptors := by
  have member := List.mem_of_find?_eq_some h
  have free := List.find?_some h
  exact ⟨List.mem_range.mp member, by simpa using free⟩

theorem pipe_spec {calls : PopenCalls} {readEnd writeEnd : Fd}
    (h : s.pipe calls = some (readEnd, writeEnd)) :
    (readEnd < s.limit ∧ readEnd ∉ s.descriptors) ∧
      (writeEnd < s.limit ∧ writeEnd ∉ s.descriptors) ∧ readEnd ≠ writeEnd := by
  unfold State.pipe at h
  split at h
  · obtain ⟨first, found, h⟩ := Option.bind_eq_some_iff.mp h
    obtain ⟨second, found', h⟩ := Option.bind_eq_some_iff.mp h
    cases h
    obtain ⟨below', free'⟩ := lowest_spec found'
    obtain ⟨different, free'⟩ := not_or.mp (mt List.mem_cons.mpr free')
    exact ⟨lowest_spec found, ⟨below', free'⟩, Ne.symm different⟩
  · cases h

/-! ### The table -/

theorem resize_length (entries : List (Option Stream)) (size : Nat) :
    (resize entries size).length = size := by
  unfold resize
  rw [List.length_append, List.length_take, List.length_replicate]
  omega

def State.Reallocates (s : State) (calls : PopenCalls) : Prop :=
  calls.getrlimit = true ∧ s.init = false ∧ s.savedFdMax < s.limit ∧ calls.allocate = true

/-- The table is as it was, or new, or has got as many entries as the limit is. -/
def Prepared (s : State) (calls : PopenCalls) (t : State) : Prop :=
  (t = s ∧ ¬ s.Reallocates calls) ∨
  (s.init = true ∧ ∃ table : Option (List (Option Stream)),
    (∀ entries, table = some entries → entries.length = s.limit) ∧
    t = { s with fdToStream := table, savedFdMax := s.limit, init := false }) ∨
  (s.Reallocates calls ∧
    t = { s with fdToStream := some (resize (s.fdToStream.getD []) s.limit) })

/-- The table has not become shorter than it was at first. -/
def State.KeepsLength (s : State) : Prop :=
  s.init = false → ∀ entries, s.fdToStream = some entries → s.savedFdMax ≤ entries.length

theorem prepare_cases {calls : PopenCalls} {ready : Bool} (asked : calls.getrlimit = true)
    (h : s.prepare calls = (t, ready)) :
    Prepared s calls t ∧ (ready = true → s.KeepsLength →
      ∀ entries, t.fdToStream = some entries → s.limit ≤ entries.length) := by
  unfold State.prepare at h
  split at h
  · rename_i first
    split at h
    · cases h
      have size : ∀ entries : List (Option Stream),
          (if calls.allocate then some (List.replicate s.limit none) else none) = some entries →
          entries.length = s.limit := by
        intro entries same
        split at same
        · cases same
          exact List.length_replicate
        · cases same
      exact ⟨Or.inr (Or.inl ⟨first, _, size, rfl⟩), fun _ _ entries same => (size entries same).ge⟩
    · cases h
      refine ⟨Or.inl ⟨rfl, ?_⟩, nofun⟩
      rintro ⟨_, later, _, _⟩
      rw [first] at later
      cases later
  · rename_i later
    have later : s.init = false := by simpa using later
    split at h
    · rename_i grown
      split at h
      · rename_i allocated
        cases h
        refine ⟨Or.inr (Or.inr ⟨⟨asked, later, grown, allocated⟩, rfl⟩), fun _ _ entries same => ?_⟩
        rw [← Option.some.inj same, resize_length]
      · rename_i refused
        cases h
        exact ⟨Or.inl ⟨rfl, fun reallocates => refused reallocates.2.2.2⟩, nofun⟩
    · rename_i same
      cases h
      exact ⟨Or.inl ⟨rfl, fun reallocates => same reallocates.2.2.1⟩,
        fun _ keeps entries table => (Nat.not_lt.mp same).trans (keeps later entries table)⟩

/-! ### popen_imp -/

theorem fork_spec {fate : Option Fate} {out : Stream} (h : s.fork fate out = some t) :
    ∃ fate : Fate, fate.pid ≠ 0 ∧ (∀ child ∈ s.children, child.pid ≠ fate.pid) ∧
      t = { s with children := ⟨fate, out⟩ :: s.children } := by
  unfold State.fork at h
  obtain ⟨fate, _, h⟩ := Option.bind_eq_some_iff.mp h
  split at h
  · cases h
  · rename_i free
    obtain ⟨positive, other⟩ := not_or.mp free
    cases h
    refine ⟨fate, positive, fun child member same => other ?_, rfl⟩
    exact List.mem_map.mpr ⟨child, member, same⟩

/-- What becomes of the table behind `pipe`. -/
def Stored (s t : State) (result : Option Stream) : Prop :=
  (result = none ∧ t.fdToStream = s.fdToStream ∧ t.returned = s.returned) ∨
  ∃ out entries, result = some out ∧ out.fd ∉ s.descriptors ∧ t.returned = out :: s.returned ∧
    s.fdToStream = some entries ∧ out.fd < entries.length ∧
    t.fdToStream = some (entries.set out.fd (some out))

theorem store_cases (s : State) (out : Stream) :
    (∃ entries, s.fdToStream = some entries ∧ out.fd < entries.length ∧
      s.store out = .ok { s with
        fdToStream := some (entries.set out.fd (some out))
        returned := out :: s.returned }) ∨
    (s.fdToStream = none ∧ s.store out = .error (.fault .nullDereference)) ∨
    (∃ entries, s.fdToStream = some entries ∧ entries.length ≤ out.fd ∧
      s.store out = .error (.fault .outOfBounds)) := by
  unfold State.store
  cases s.fdToStream with
  | none => exact Or.inr (Or.inl ⟨rfl, rfl⟩)
  | some entries =>
    by_cases inside : out.fd < entries.length
    · exact Or.inl ⟨entries, rfl, inside, if_pos inside⟩
    · exact Or.inr (Or.inr ⟨entries, rfl, Nat.not_lt.mp inside, if_neg inside⟩)

/-- The state with the descriptors and the stream of `out` in it. -/
def State.withStream (s : State) (calls : PopenCalls) (out : Stream) (shellFd : Fd) : State :=
  { s with
    descriptors := out.fd :: shellFd :: s.descriptors
    opened := s.opened + 1
    streams := if calls.fdopen then out :: s.streams else s.streams }

theorem mem_withStream {calls : PopenCalls} {out stream : Stream} {shellFd : Fd}
    (member : stream ∈ (s.withStream calls out shellFd).streams) :
    stream = out ∨ stream ∈ s.streams := by
  unfold State.withStream at member
  simp only at member
  split at member
  · exact List.mem_cons.mp member
  · exact Or.inr member

theorem sound_withStream (sound : s.Sound) (calls : PopenCalls) {outFd : Fd} (shellFd : Fd)
    (free : outFd ∉ s.descriptors) : (s.withStream calls ⟨s.opened, outFd⟩ shellFd).Sound := by
  have more (fd : Fd) (member : fd ∈ s.descriptors) :
      fd ∈ outFd :: shellFd :: s.descriptors :=
    List.mem_cons_of_mem _ (List.mem_cons_of_mem _ member)
  have apart (stream : Stream) (member : stream ∈ s.streams) : stream.fd ≠ outFd := by
    intro same
    exact free (same ▸ sound.inUse stream member)
  constructor
  case inUse =>
    intro stream member
    rcases mem_withStream member with rfl | old
    · exact List.mem_cons_self
    · exact more _ (sound.inUse stream old)
  case fds =>
    intro stream member other member' same
    rcases mem_withStream member with rfl | old <;> rcases mem_withStream member' with rfl | old'
    · rfl
    · exact absurd same (apart other old')
    · exact absurd same.symm (apart stream old)
    · exact sound.fds stream old other old' same
  case old =>
    intro stream member
    rcases mem_withStream member with rfl | old
    · exact Nat.lt_succ_self _
    · exact Nat.lt_succ_of_lt (sound.old stream old)
  case oldChildren => exact fun child member => Nat.lt_succ_of_lt (sound.oldChildren child member)
  case returned =>
    intro stream member
    have old := sound.returned stream member
    unfold State.withStream
    simp only
    split
    · exact List.mem_cons_of_mem _ old
    · exact old
  case pids => exact sound.pids
  case pidsPositive => exact sound.pidsPositive
  case ownStreams => exact sound.ownStreams

theorem sound_fork (sound : s.Sound) {fate : Fate} {out : Stream} (positive : fate.pid ≠ 0)
    (fresh : ∀ child ∈ s.children, child.pid ≠ fate.pid)
    (new : ∀ child ∈ s.children, child.stream ≠ out) (old : out.id < s.opened) :
    Popen.Sound s.descriptors s.opened s.streams (⟨fate, out⟩ :: s.children) s.returned where
  inUse := sound.inUse
  fds := sound.fds
  old := sound.old
  oldChildren := List.forall_mem_cons.mpr ⟨old, sound.oldChildren⟩
  returned := sound.returned
  pids := by
    intro child member other member' same
    rcases List.mem_cons.mp member with rfl | before <;>
      rcases List.mem_cons.mp member' with rfl | before'
    · rfl
    · exact absurd same (fresh other before')
    · exact absurd same.symm (fresh child before)
    · exact sound.pids child before other before' same
  pidsPositive := List.forall_mem_cons.mpr ⟨positive, sound.pidsPositive⟩
  ownStreams := by
    intro child member other member' same
    rcases List.mem_cons.mp member with rfl | before <;>
      rcases List.mem_cons.mp member' with rfl | before'
    · rfl
    · exact absurd same (new other before')
    · exact absurd same.symm (new child before)
    · exact sound.ownStreams child before other before' same

theorem sound_close {descriptors : List Fd} {opened : Nat} {streams : List Stream}
    {children : List Child} {returned : List Stream}
    (sound : Popen.Sound descriptors opened streams children returned) {fd : Fd}
    (unused : ∀ stream ∈ streams, stream.fd ≠ fd) :
    Popen.Sound (descriptors.filter (· ≠ fd)) opened streams children returned :=
  { sound with
    inUse := fun stream member => List.mem_filter.mpr
      ⟨sound.inUse stream member, decide_eq_true (unused stream member)⟩ }

theorem sound_store (sound : s.Sound) {out : Stream} (opened : out ∈ s.streams) :
    Popen.Sound s.descriptors s.opened s.streams s.children (out :: s.returned) :=
  { sound with returned := List.forall_mem_cons.mpr ⟨opened, sound.returned⟩ }

theorem spawn_unforked {calls : PopenCalls} {outFd shellFd : Fd}
    (forked : (s.withStream calls ⟨s.opened, outFd⟩ shellFd).fork calls.fork ⟨s.opened, outFd⟩ =
      none) :
    s.spawn calls outFd shellFd = .ok (s.withStream calls ⟨s.opened, outFd⟩ shellFd, none) := by
  unfold State.withStream at forked ⊢
  unfold State.spawn
  simp only [forked]

theorem spawn_forked {calls : PopenCalls} {outFd shellFd : Fd} {t : State}
    (forked : (s.withStream calls ⟨s.opened, outFd⟩ shellFd).fork calls.fork ⟨s.opened, outFd⟩ =
      some t) :
    s.spawn calls outFd shellFd =
      if calls.close = false then
        .ok ({ t with descriptors := t.descriptors.filter (· ≠ shellFd) }, none)
      else if calls.fdopen = false then .error (.fault .nullDereference)
      else (State.store { t with descriptors := t.descriptors.filter (· ≠ shellFd) }
        ⟨s.opened, outFd⟩).map (·, some ⟨s.opened, outFd⟩) := by
  unfold State.withStream at forked
  unfold State.spawn
  simp only [forked]

/-- What `fdopen`, `fork` and `close` leave, and what the store then does. -/
theorem spawn_cases (sound : s.Sound) (calls : PopenCalls) {outFd shellFd : Fd}
    (free : outFd ∉ s.descriptors) (freeShell : shellFd ∉ s.descriptors)
    (different : outFd ≠ shellFd) :
    (∃ t result, s.spawn calls outFd shellFd = .ok (t, result) ∧ t.Sound ∧ t.limit = s.limit ∧
      t.init = s.init ∧ t.savedFdMax = s.savedFdMax ∧ Stored s t result) ∨
    (∃ fault, s.spawn calls outFd shellFd = .error (.fault fault) ∧ (fault = .outOfBounds →
      ∃ entries, s.fdToStream = some entries ∧ entries.length ≤ outFd)) := by
  have opened := sound_withStream sound calls shellFd free
  cases forked : (s.withStream calls ⟨s.opened, outFd⟩ shellFd).fork calls.fork
      ⟨s.opened, outFd⟩ with
  | none =>
    rw [spawn_unforked forked]
    exact Or.inl ⟨_, _, rfl, opened, rfl, rfl, rfl, Or.inl ⟨rfl, rfl, rfl⟩⟩
  | some s' =>
    rw [spawn_forked forked]
    obtain ⟨fate, positive, fresh, rfl⟩ := fork_spec forked
    have new (child : Child) (member : child ∈ s.children) : child.stream ≠ ⟨s.opened, outFd⟩ := by
      intro same
      have old := sound.oldChildren child member
      rw [same] at old
      exact absurd old (Nat.lt_irrefl _)
    have child := sound_fork opened positive fresh new (Nat.lt_succ_self s.opened)
    have unused : ∀ stream ∈ (s.withStream calls ⟨s.opened, outFd⟩ shellFd).streams,
        stream.fd ≠ shellFd := by
      intro stream member same
      rcases mem_withStream member with rfl | old
      · exact different same
      · exact freeShell (same ▸ sound.inUse stream old)
    have closed : State.Sound
        { s.withStream calls ⟨s.opened, outFd⟩ shellFd with
          children := ⟨fate, ⟨s.opened, outFd⟩⟩ :: s.children
          descriptors := (s.withStream calls ⟨s.opened, outFd⟩ shellFd).descriptors.filter
            (· ≠ shellFd) } := sound_close child unused
    by_cases failed : calls.close = false
    · rw [if_pos failed]
      exact Or.inl ⟨_, _, rfl, closed, rfl, rfl, rfl, Or.inl ⟨rfl, rfl, rfl⟩⟩
    rw [if_neg failed]
    by_cases null : calls.fdopen = false
    · rw [if_pos null]
      exact Or.inr ⟨_, rfl, by rintro ⟨⟩⟩
    rw [if_neg null]
    rcases store_cases _ ⟨s.opened, outFd⟩ with
      ⟨entries, table, inside, call⟩ | ⟨_, call⟩ | ⟨entries, table, outside, call⟩
    · rw [call]
      refine Or.inl ⟨_, _, rfl, sound_store closed ?_, rfl, rfl, rfl,
        Or.inr ⟨_, entries, rfl, free, rfl, table, inside, rfl⟩⟩
      unfold State.withStream
      simp only
      rw [if_pos (by simpa using null)]
      exact List.mem_cons_self
    · rw [call]
      exact Or.inr ⟨_, rfl, by rintro ⟨⟩⟩
    · rw [call]
      exact Or.inr ⟨_, rfl, fun _ => ⟨entries, table, outside⟩⟩

theorem Prepared.sound {calls : PopenCalls} {p : State} (prepared : Prepared s calls p)
    (sound : s.Sound) : p.Sound ∧ p.limit = s.limit := by
  rcases prepared with ⟨rfl, _⟩ | ⟨_, table, _, rfl⟩ | ⟨_, rfl⟩
  · exact ⟨sound, rfl⟩
  · exact ⟨sound, rfl⟩
  · exact ⟨sound, rfl⟩

/-- A call prepares the table and then stores a stream in it, or not. -/
theorem popenImp_cases (sound : s.Sound) (calls : PopenCalls) (type : CStr) :
    (∃ t result, popenImp s calls type = .ok (t, result) ∧ t.Sound ∧ t.limit = s.limit ∧
      ∃ p, Prepared s calls p ∧ t.init = p.init ∧ t.savedFdMax = p.savedFdMax ∧
        Stored p t result) ∨
    (∃ fault, popenImp s calls type = .error (.fault fault) ∧
      (s.KeepsLength → fault ≠ .outOfBounds)) := by
  unfold popenImp
  by_cases refused : calls.getrlimit = false
  · rw [if_pos refused]
    refine Or.inl ⟨s, none, rfl, sound, rfl, s, Or.inl ⟨rfl, ?_⟩, rfl, rfl, Or.inl ⟨rfl, rfl, rfl⟩⟩
    rintro ⟨asked, _⟩
    rw [refused] at asked
    cases asked
  rw [if_neg refused]
  have asked : calls.getrlimit = true := by simpa using refused
  cases h : s.prepare calls with | mk p ready =>
  obtain ⟨prepared, long⟩ := prepare_cases asked h
  obtain ⟨sound', limit⟩ := prepared.sound sound
  have same : ∃ t result, (Except.ok (p, none) : Except End (State × Option Stream)) =
      .ok (t, result) ∧ t.Sound ∧ t.limit = s.limit ∧ ∃ p, Prepared s calls p ∧ t.init = p.init ∧
        t.savedFdMax = p.savedFdMax ∧ Stored p t result :=
    ⟨p, none, rfl, sound', limit, p, prepared, rfl, rfl, Or.inl ⟨rfl, rfl, rfl⟩⟩
  cases ready with
  | false => exact Or.inl same
  | true =>
    simp only
    cases piped : p.pipe calls with
    | none => exact Or.inl same
    | some ends =>
      obtain ⟨readEnd, writeEnd⟩ := ends
      obtain ⟨⟨readBelow, readFree⟩, ⟨writeBelow, writeFree⟩, different⟩ := pipe_spec piped
      have spawned (outFd shellFd : Fd) (below : outFd < p.limit) (free : outFd ∉ p.descriptors)
          (freeShell : shellFd ∉ p.descriptors) (apart : outFd ≠ shellFd) :
          (∃ t result, p.spawn calls outFd shellFd = .ok (t, result) ∧ t.Sound ∧
            t.limit = s.limit ∧ ∃ p, Prepared s calls p ∧ t.init = p.init ∧
            t.savedFdMax = p.savedFdMax ∧ Stored p t result) ∨
          (∃ fault, p.spawn calls outFd shellFd = .error (.fault fault) ∧
            (s.KeepsLength → fault ≠ .outOfBounds)) := by
        rcases spawn_cases sound' calls free freeShell apart with
          ⟨t, result, call, tSound, tLimit, init, saved, stored⟩ | ⟨fault, call, outside⟩
        · exact Or.inl ⟨t, result, call, tSound, tLimit.trans limit, p, prepared, init, saved, stored⟩
        · refine Or.inr ⟨fault, call, fun keeps overrun => ?_⟩
          obtain ⟨entries, table, short⟩ := outside overrun
          have enough := (long rfl keeps entries table).trans short
          rw [limit] at below
          exact absurd below (Nat.not_lt.mpr enough)
      simp only
      split
      · exact spawned readEnd writeEnd readBelow readFree writeFree different
      · split
        · exact spawned writeEnd readEnd writeBelow writeFree readFree different.symm
        · exact Or.inl same

theorem Prepared.keepsLength {calls : PopenCalls} {p : State} (prepared : Prepared s calls p)
    (keeps : s.KeepsLength) : p.KeepsLength := by
  intro later entries table
  rcases prepared with ⟨rfl, _⟩ | ⟨_, made, length, rfl⟩ | ⟨reallocates, rfl⟩
  · exact keeps later entries table
  · exact (length entries table).ge
  · rw [← Option.some.inj table, resize_length]
    exact reallocates.2.2.1.le

theorem Stored.keepsLength {p : State} {result : Option Stream} (stored : Stored p t result)
    (init : t.init = p.init) (saved : t.savedFdMax = p.savedFdMax) (keeps : p.KeepsLength) :
    t.KeepsLength := by
  intro later entries table
  rw [saved]
  rw [init] at later
  rcases stored with ⟨_, same, _⟩ | ⟨out, before, _, _, _, old, _, new⟩
  · exact keeps later entries (same ▸ table)
  · rw [new] at table
    rw [← Option.some.inj table, List.length_set]
    exact keeps later before old

/-! ### pclose_imp -/

theorem waitpid_mem {calls : PcloseCalls} {fd : Fd} {child : Child}
    (h : s.waitpid calls fd = .ok (some child)) : child ∈ s.children ∧ s.ends child = true := by
  unfold State.waitpid at h
  split at h
  · cases h
  split at h
  · split at h
    · rename_i found any
      cases h
      unfold State.anyChild at any
      split at any
      · cases any
      · rename_i first others ended
        have chosen : child ∈ s.children.filter s.ends := by
          rw [ended, ← Option.some.inj any]
          cases found : (first :: others).find? (·.pid = calls.first) with
          | none => exact List.mem_cons_self
          | some other => exact List.mem_of_find?_eq_some found
        exact List.mem_filter.mp chosen
    · split at h <;> cases h
  · split at h
    · rename_i found
      split at h
      · rename_i ended
        cases h
        exact ⟨List.mem_of_find?_eq_some found, ended⟩
      · cases h
    · cases h

theorem waitpid_no_fault {calls : PcloseCalls} {fd : Fd} {fault : Fault} :
    s.waitpid calls fd ≠ .error (.fault fault) := by
  unfold State.waitpid
  split
  · exact nofun
  split
  · split
    · exact nofun
    · split <;> exact nofun
  · split
    · split <;> exact nofun
    · exact nofun

/-- What `pclose_imp` leaves when it has waited for a child. -/
def State.closed (s : State) (child : Child) (closing : Stream) : State :=
  { s with
    children := s.children.erase child
    descriptors := s.descriptors.filter (· ≠ closing.fd)
    streams := s.streams.filter (· ≠ closing)
    returned := s.returned.filter (· ≠ closing) }

theorem fclose_cases (s : State) (fd : Fd) :
    (∃ entries closing, s.fdToStream = some entries ∧ entries[fd]? = some (some closing) ∧
      closing ∈ s.streams ∧ s.fclose fd = .ok { s with
        descriptors := s.descriptors.filter (· ≠ closing.fd)
        streams := s.streams.filter (· ≠ closing)
        returned := s.returned.filter (· ≠ closing) }) ∨
    (∃ fault, s.fclose fd = .error (.fault fault) ∧ (fault = .outOfBounds →
      ∃ entries, s.fdToStream = some entries ∧ entries.length ≤ fd)) := by
  unfold State.fclose
  cases table : s.fdToStream with
  | none => exact Or.inr ⟨_, rfl, nofun⟩
  | some entries =>
    simp only
    cases entry : entries[fd]? with
    | none => exact Or.inr ⟨_, rfl, fun _ => ⟨entries, rfl, List.getElem?_eq_none_iff.mp entry⟩⟩
    | some stored =>
      cases stored with
      | none => exact Or.inr ⟨_, rfl, nofun⟩
      | some closing =>
        simp only
        by_cases opened : closing ∈ s.streams
        · exact Or.inl ⟨entries, closing, rfl, entry, opened, if_pos opened⟩
        · rw [if_neg opened]
          exact Or.inr ⟨_, rfl, nofun⟩

/-- A call fails, or waits for a child and closes what the table has. -/
theorem pcloseImp_cases (s : State) (calls : PcloseCalls) {stream : Stream}
    (held : stream ∈ s.returned) :
    (s.waitpid calls stream.fd = .ok none ∧ pcloseImp s calls stream = .ok (s, ⟨-1, none⟩)) ∨
    (∃ child, s.waitpid calls stream.fd = .ok (some child) ∧
      ((∃ entries closing, s.fdToStream = some entries ∧
        entries[stream.fd]? = some (some closing) ∧ closing ∈ s.streams ∧
        pcloseImp s calls stream = .ok (s.closed child closing,
          ⟨if calls.fclose then child.status else -1, some child⟩)) ∨
      ∃ fault, pcloseImp s calls stream = .error (.fault fault) ∧ (fault = .outOfBounds →
        ∃ entries, s.fdToStream = some entries ∧ entries.length ≤ stream.fd))) ∨
    (∃ e, s.waitpid calls stream.fd = .error e ∧ pcloseImp s calls stream = .error e) := by
  unfold pcloseImp
  rw [if_neg (not_not_intro held)]
  cases waited : s.waitpid calls stream.fd with
  | error e => exact Or.inr (Or.inr ⟨e, rfl, rfl⟩)
  | ok result =>
    cases result with
    | none => exact Or.inl ⟨rfl, rfl⟩
    | some child =>
      refine Or.inr (Or.inl ⟨child, rfl, ?_⟩)
      simp only
      rcases fclose_cases { s with children := s.children.erase child } stream.fd with
        ⟨entries, closing, table, entry, member, call⟩ | ⟨fault, call, outside⟩
      · rw [call]
        exact Or.inl ⟨entries, closing, table, entry, member, rfl⟩
      · rw [call]
        exact Or.inr ⟨fault, rfl, outside⟩

/-- What is left where the program goes on after `pclose_imp`. -/
theorem step_pclose {calls : PcloseCalls} {stream : Stream}
    (stepped : step s (.pclose calls stream) = .ok t) :
    t = s ∨ ∃ child closing, s.fdToStream ≠ none ∧ closing ∈ s.streams ∧ t = s.closed child closing := by
  by_cases held : stream ∈ s.returned
  · rcases pcloseImp_cases s calls held with
      ⟨_, call⟩ | ⟨child, _, ⟨entries, closing, table, _, member, call⟩ | ⟨fault, call, _⟩⟩ |
      ⟨e, _, call⟩
    · rw [step, call] at stepped
      cases stepped
      exact Or.inl rfl
    · rw [step, call] at stepped
      cases stepped
      refine Or.inr ⟨child, closing, ?_, member, rfl⟩
      rw [table]
      exact Option.some_ne_none entries
    · rw [step, call] at stepped
      cases stepped
    · rw [step, call] at stepped
      cases stepped
  · rw [step, pcloseImp, if_pos held] at stepped
    cases stepped

theorem sound_closed (sound : s.Sound) (child : Child) {closing : Stream}
    (member : closing ∈ s.streams) : (s.closed child closing).Sound := by
  have fewer (other : Child) (left : other ∈ s.children.erase child) : other ∈ s.children :=
    List.mem_of_mem_erase left
  constructor
  case inUse =>
    intro stream left
    obtain ⟨old, different⟩ := List.mem_filter.mp left
    refine List.mem_filter.mpr ⟨sound.inUse stream old, decide_eq_true fun same => ?_⟩
    exact of_decide_eq_true different (sound.fds closing member stream old same)
  case fds =>
    intro stream left other left'
    exact sound.fds stream (List.mem_filter.mp left).1 other (List.mem_filter.mp left').1
  case old => exact fun stream left => sound.old stream (List.mem_filter.mp left).1
  case oldChildren => exact fun other left => sound.oldChildren other (fewer other left)
  case returned =>
    intro stream left
    obtain ⟨old, different⟩ := List.mem_filter.mp left
    exact List.mem_filter.mpr ⟨sound.returned stream old, different⟩
  case pids =>
    exact fun first left second left' =>
      sound.pids first (fewer first left) second (fewer second left')
  case pidsPositive => exact fun other left => sound.pidsPositive other (fewer other left)
  case ownStreams =>
    exact fun first left second left' =>
      sound.ownStreams first (fewer first left) second (fewer second left')

/-! ### What any calls keep -/

structure Inv (s : State) : Prop where
  sound : s.Sound
  keepsLength : s.KeepsLength
  unused : s.init = true → s.fdToStream = none ∧ s.returned = []

theorem inv_start (limit : Nat) (descriptors : List Fd) : Inv (start limit descriptors) where
  sound := sound_start limit descriptors
  keepsLength := nofun
  unused := fun _ => ⟨rfl, rfl⟩

theorem step_inv {e : Event} (inv : Inv s) (stepped : step s e = .ok t) : Inv t := by
  cases e with
  | setrlimit limit =>
    cases stepped
    exact ⟨inv.sound, inv.keepsLength, inv.unused⟩
  | popen calls type =>
    rcases popenImp_cases inv.sound calls type with
      ⟨t', result, call, sound, _, p, prepared, init, saved, stored⟩ | ⟨fault, call, _⟩
    · rw [step, call] at stepped
      cases stepped
      refine ⟨sound, stored.keepsLength init saved (prepared.keepsLength inv.keepsLength), ?_⟩
      rw [init]
      intro first
      have untouched : p.fdToStream = none ∧ p.returned = [] := by
        rcases prepared with ⟨rfl, _⟩ | ⟨_, table, _, rfl⟩ | ⟨reallocates, rfl⟩
        · exact inv.unused first
        · cases first
        · exact absurd (reallocates.2.1.symm.trans first) Bool.false_ne_true
      rcases stored with ⟨_, table, returned⟩ | ⟨out, entries, _, _, _, table, _⟩
      · rw [table, returned]
        exact untouched
      · rw [untouched.1] at table
        cases table
    · rw [step, call] at stepped
      cases stepped
  | pclose calls stream =>
    rcases step_pclose stepped with rfl | ⟨child, closing, table, member, rfl⟩
    · exact inv
    · exact ⟨sound_closed inv.sound child member, inv.keepsLength,
        fun first => absurd (inv.unused first).1 table⟩

end Tlpi.Popen
