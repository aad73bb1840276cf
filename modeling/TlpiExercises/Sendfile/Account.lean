import TlpiExercises.C.Numbers

/-!
# 61_Sockets_Advanced_Topics/sendfile_imp.c

The bytes that arrive at `out_fd`, against the count that is returned and the two offsets. A call takes
the results of its reads and writes as they come; it has no result where they cannot be those of the
calls that it makes, and where it exits instead of returning. A file has fewer than 2^63 bytes, so that
`num_sent` does not overflow.
-/

namespace Tlpi.Sendfile

abbrev Byte := UInt8

def BUF_SIZE : Nat := 1000

/-- An open file with its file offset. A pipe or a socket cannot `lseek`. -/
structure InFd where
  bytes : List Byte
  position : Nat
  seekable : Bool

/-- What the `read` of a round returns, and the `write` behind it where there is one. `none` is -1. -/
structure Round where
  read : Option Nat
  write : Option Nat
  deriving DecidableEq

/-- `offset` is what `*offset` is at the end. -/
structure Outcome where
  rv : Int
  offset : Option Int
  position : Nat
  delivered : List Byte

/-- The variables of the loop, and what has arrived. -/
structure Progress where
  position : Nat
  count : Nat
  numSent : Nat
  delivered : List Byte

/-- The last call has been made. -/
def ending {α : Type} (rounds : List Round) (value : α) : Option α :=
  if rounds = [] then some value else none

/-- The loop, and whether it has ended without an error. -/
def transfer (bytes : List Byte) : List Round → Progress → Option (Bool × Progress)
  | [], s => if s.count = 0 then some (true, s) else none
  | round :: rest, s =>
    if s.count = 0 then none
    else
      let readCnt := if s.count < BUF_SIZE then s.count else BUF_SIZE
      match round.read with
      | none => ending rest (false, s)
      | some numRead =>
        if min readCnt (bytes.length - s.position) < numRead then none
        else if numRead = 0 then ending rest (true, s)
        else
          match round.write with
          | none => ending rest (false, { s with position := s.position + numRead })
          | some written =>
            if numRead < written then none
            else
              transfer bytes rest
                { position := s.position + numRead
                  count := s.count - numRead
                  numSent := s.numSent + numRead
                  delivered := s.delivered ++ (bytes.drop s.position).take written }

def sendfileImp (inFd : InFd) (offset : Option Int) (count : Nat) (rounds : List Round) :
    Option Outcome :=
  match offset with
  | none =>
    match transfer inFd.bytes rounds ⟨inFd.position, count, 0, []⟩ with
    | none => none
    | some (false, s) => some ⟨-1, none, s.position, s.delivered⟩
    | some (true, s) => some ⟨s.numSent, none, s.position, s.delivered⟩
  | some old =>
    if ¬ inFd.seekable then none
    else if old < 0 then ending rounds ⟨-1, some old, inFd.position, []⟩
    else
      match transfer inFd.bytes rounds ⟨old.toNat, count, 0, []⟩ with
      | none => none
      | some (false, s) => some ⟨-1, some old, s.position, s.delivered⟩
      | some (true, s) => some ⟨s.numSent, some s.position, inFd.position, s.delivered⟩

/-! ### The results of the calls -/

def Round.Fails (round : Round) : Prop :=
  round.read = none ∨ (round.read ≠ some 0 ∧ round.write = none)

/-- The write takes all that was read. -/
def Round.Full (round : Round) : Prop :=
  round.read ≠ none ∧ (round.read = some 0 ∨ round.write = round.read)

instance : DecidablePred Round.Fails :=
  fun round => inferInstanceAs (Decidable (round.read = none ∨ _))

instance : DecidablePred Round.Full :=
  fun round => inferInstanceAs (Decidable (round.read ≠ none ∧ _))

def Round.taken (round : Round) : Nat := round.read.getD 0

def Round.given (round : Round) : Nat := if round.taken = 0 then 0 else round.write.getD 0

def taken (rounds : List Round) : Nat := (rounds.map Round.taken).sum

def given (rounds : List Round) : Nat := (rounds.map Round.given).sum

/-! ### The loop -/

variable {bytes : List Byte} {round : Round} {rounds rest : List Round} {s t : Progress}
  {finished : Bool}

theorem ending_some {α : Type} {value result : α} (h : ending rounds value = some result) :
    rounds = [] ∧ value = result := by
  unfold ending at h
  by_cases last : rounds = []
  · rw [if_pos last] at h
    exact ⟨last, Option.some.inj h⟩
  · rw [if_neg last] at h
    cases h

/-- The state after a round that has read and written. -/
def Progress.next (s : Progress) (bytes : List Byte) (numRead written : Nat) : Progress where
  position := s.position + numRead
  count := s.count - numRead
  numSent := s.numSent + numRead
  delivered := s.delivered ++ (bytes.drop s.position).take written

/-- How a round leaves the loop, or begins the next one. -/
theorem transfer_cons (call : transfer bytes (round :: rest) s = some (finished, t)) :
    (round.read = none ∧ rest = [] ∧ finished = false ∧ t = s) ∨
    (round.read = some 0 ∧ rest = [] ∧ finished = true ∧ t = s) ∨
    (∃ numRead, round.read = some numRead ∧ numRead ≠ 0 ∧ round.write = none ∧ rest = [] ∧
      finished = false ∧ t = { s with position := s.position + numRead }) ∨
    (∃ numRead written, round.read = some numRead ∧ numRead ≠ 0 ∧
      s.position + numRead ≤ bytes.length ∧ round.write = some written ∧ written ≤ numRead ∧
      transfer bytes rest (s.next bytes numRead written) = some (finished, t)) := by
  rw [transfer] at call
  by_cases done : s.count = 0
  · rw [if_pos done] at call
    cases call
  rw [if_neg done] at call
  dsimp only at call
  cases read : round.read with
  | none =>
    rw [read] at call
    obtain ⟨last, result⟩ := ending_some call
    cases result
    exact Or.inl ⟨rfl, last, rfl, rfl⟩
  | some numRead =>
    rw [read] at call
    dsimp only at call
    generalize (if s.count < BUF_SIZE then s.count else BUF_SIZE) = readCnt at call
    by_cases large : min readCnt (bytes.length - s.position) < numRead
    · rw [if_pos large] at call
      cases call
    rw [if_neg large] at call
    by_cases zero : numRead = 0
    · rw [if_pos zero] at call
      obtain ⟨last, result⟩ := ending_some call
      cases result
      exact Or.inr (Or.inl ⟨congrArg some zero, last, rfl, rfl⟩)
    rw [if_neg zero] at call
    cases write : round.write with
    | none =>
      rw [write] at call
      obtain ⟨last, result⟩ := ending_some call
      cases result
      exact Or.inr (Or.inr (Or.inl ⟨numRead, rfl, zero, rfl, last, rfl, rfl⟩))
    | some written =>
      rw [write] at call
      dsimp only at call
      by_cases more : numRead < written
      · rw [if_pos more] at call
        cases call
      rw [if_neg more] at call
      exact Or.inr (Or.inr (Or.inr
        ⟨numRead, written, rfl, zero, by omega, rfl, Nat.not_lt.mp more, call⟩))

theorem transfer_nil (call : transfer bytes [] s = some (finished, t)) : finished = true ∧ t = s := by
  rw [transfer] at call
  by_cases done : s.count = 0
  · rw [if_pos done] at call
    cases call
    exact ⟨rfl, rfl⟩
  · rw [if_neg done] at call
    cases call

/-- What the loop has moved since it was in `s`. -/
structure Moved (bytes : List Byte) (rounds : List Round) (s : Progress) (finished : Bool)
    (t : Progress) : Prop where
  position : t.position = s.position + taken rounds
  delivered : t.delivered.length = s.delivered.length + given rounds
  sent : finished = true → t.numSent = s.numSent + taken rounds
  ended : finished = true ↔ ∀ round ∈ rounds, ¬ round.Fails
  bounded : given rounds ≤ taken rounds
  full : finished = true → (given rounds = taken rounds ↔ ∀ round ∈ rounds, round.Full)
  copied : (∀ round ∈ rounds, round.Full) →
    t.delivered = s.delivered ++ (bytes.drop s.position).take (taken rounds)

theorem taken_cons : taken (round :: rest) = round.taken + taken rest := by
  rw [taken, List.map_cons, List.sum_cons, taken]

theorem given_cons : given (round :: rest) = round.given + given rest := by
  rw [given, List.map_cons, List.sum_cons, given]

theorem taken_nil : taken [] = 0 := rfl

theorem given_nil : given [] = 0 := rfl

/-- A loop that a failed call ends. -/
theorem moved_failed (fails : round.Fails) (given : round.given = 0)
    (moved : t = { s with position := s.position + round.taken }) :
    Moved bytes [round] s false t := by
  have not_full : ¬ ∀ other ∈ [round], other.Full := by
    intro all
    obtain ⟨read, rest⟩ := all round List.mem_cons_self
    rcases fails with none | ⟨some_read, write⟩
    · exact read none
    · rcases rest with zero | same
      · exact some_read zero
      · exact read (same ▸ write)
  subst moved
  refine ⟨?_, ?_, nofun, ?_, ?_, nofun, fun full => absurd full not_full⟩
  · rw [taken_cons, taken_nil, Nat.add_zero]
  · rw [given_cons, given_nil, given]
    rfl
  · exact iff_of_false (by decide) fun all => all round List.mem_cons_self fails
  · rw [given_cons, given_nil, given]
    exact Nat.zero_le _

/-- A loop that the end of the input ends. -/
theorem moved_ended (read : round.read = some 0) : Moved bytes [round] s true s := by
  have nothing : round.taken = 0 := by rw [Round.taken, read, Option.getD_some]
  have neither : round.given = 0 := if_pos nothing
  have fine : ¬ round.Fails := by simp [Round.Fails, read]
  have full : round.Full := by simp [Round.Full, read]
  have all_taken : taken [round] = 0 := by rw [taken_cons, nothing, taken_nil]
  have all_given : given [round] = 0 := by rw [given_cons, neither, given_nil]
  refine ⟨?_, ?_, ?_, ?_, ?_, ?_, ?_⟩
  · rw [all_taken, Nat.add_zero]
  · rw [all_given, Nat.add_zero]
  · intro _
    rw [all_taken, Nat.add_zero]
  · exact iff_of_true rfl (List.forall_mem_singleton.mpr fine)
  · rw [all_given]
    exact Nat.zero_le _
  · intro _
    rw [all_given, all_taken]
    exact iff_of_true rfl (List.forall_mem_singleton.mpr full)
  · intro _
    rw [all_taken, List.take_zero, List.append_nil]

/-- A round in front of what a loop has moved. -/
theorem Moved.cons {numRead written : Nat} (read : round.read = some numRead) (some_read : numRead ≠ 0)
    (inside : s.position + numRead ≤ bytes.length) (write : round.write = some written)
    (fits : written ≤ numRead) (later : Moved bytes rest (s.next bytes numRead written) finished t) :
    Moved bytes (round :: rest) s finished t := by
  have moved : round.taken = numRead := by rw [Round.taken, read, Option.getD_some]
  have passed : round.given = written := by
    rw [Round.given, moved, if_neg some_read, write, Option.getD_some]
  have fine : ¬ round.Fails := by simp [Round.Fails, read, write]
  have full : round.Full ↔ written = numRead := by simp [Round.Full, read, write, some_read]
  refine ⟨?_, ?_, ?_, ?_, ?_, ?_, ?_⟩
  · rw [later.position, taken_cons, moved, ← Nat.add_assoc]
    rfl
  · have copied : ((bytes.drop s.position).take written).length = written := by
      rw [List.length_take, List.length_drop]
      omega
    rw [later.delivered, given_cons, passed, ← Nat.add_assoc, Progress.next, List.length_append, copied]
  · intro done
    rw [later.sent done, taken_cons, moved, ← Nat.add_assoc]
    rfl
  · rw [later.ended, List.forall_mem_cons, and_iff_right fine]
  · rw [given_cons, taken_cons, passed, moved]
    exact Nat.add_le_add fits later.bounded
  · intro done
    rw [given_cons, taken_cons, passed, moved, List.forall_mem_cons, full, ← later.full done]
    have bounded := later.bounded
    omega
  · intro all
    rw [List.forall_mem_cons, full] at all
    obtain ⟨rfl, all⟩ := all
    rw [later.copied all, taken_cons, moved, List.take_add, List.drop_drop, Progress.next,
      List.append_assoc]

theorem transfer_moved (call : transfer bytes rounds s = some (finished, t)) :
    Moved bytes rounds s finished t := by
  induction rounds generalizing s with
  | nil =>
    obtain ⟨rfl, rfl⟩ := transfer_nil call
    refine ⟨rfl, rfl, fun _ => rfl, ?_, le_rfl, ?_, ?_⟩
    · exact iff_of_true rfl (fun _ member => by cases member)
    · exact fun _ => iff_of_true rfl (fun _ member => by cases member)
    · intro _
      rw [taken_nil, List.take_zero, List.append_nil]
  | cons round rest ih =>
    rcases transfer_cons call with ⟨read, rfl, rfl, rfl⟩ | ⟨read, rfl, rfl, rfl⟩ |
      ⟨numRead, read, some_read, write, rfl, rfl, rfl⟩ |
      ⟨numRead, written, read, some_read, inside, write, fits, later⟩
    · have nothing : round.taken = 0 := by rw [Round.taken, read, Option.getD_none]
      refine moved_failed (Or.inl read) (if_pos nothing) ?_
      rw [nothing]
      rfl
    · exact moved_ended read
    · have moved : round.taken = numRead := by rw [Round.taken, read, Option.getD_some]
      refine moved_failed (Or.inr ⟨?_, write⟩) ?_ ?_
      · rw [read]
        exact fun same => some_read (Option.some.inj same)
      · rw [Round.given, moved, if_neg some_read, write, Option.getD_none]
      · rw [moved]
    · exact Moved.cons read some_read inside write fits (ih later)

/-! ### The call -/

/-- Where the call begins to read. -/
def start (inFd : InFd) (offset : Option Int) : Nat := offset.elim inFd.position Int.toNat

/-- The count that is returned and the offsets account for what has been delivered. -/
structure Accounts (inFd : InFd) (offset : Option Int) (o : Outcome) : Prop where
  counted : 0 ≤ o.rv → o.rv = o.delivered.length
  inOrder : 0 ≤ o.rv → o.delivered <+: inFd.bytes.drop (start inFd offset)
  advanced : ∀ old, offset = some old → o.offset = some (old + o.delivered.length)
  restored : ∀ old, offset = some old → o.position = inFd.position

section Call

variable {inFd : InFd} {offset : Option Int} {count : Nat} {o : Outcome}

/-- What a call returns and leaves behind when its loop has ended. -/
def outcome (inFd : InFd) (offset : Option Int) (finished : Bool) (t : Progress) : Outcome :=
  if finished then
    ⟨t.numSent, offset.map fun _ => (t.position : Int), offset.elim t.position fun _ => inFd.position,
      t.delivered⟩
  else ⟨-1, offset, t.position, t.delivered⟩

/-- A call with its checks behind it. -/
theorem sendfileImp_transfer
    (checked : ∀ old, offset = some old → inFd.seekable = true ∧ ¬ old < 0) :
    sendfileImp inFd offset count rounds =
      (transfer inFd.bytes rounds ⟨start inFd offset, count, 0, []⟩).map
        fun ended => outcome inFd offset ended.1 ended.2 := by
  cases offset with
  | none =>
    have begins : start inFd none = inFd.position := rfl
    rw [sendfileImp, begins]
    rcases transfer inFd.bytes rounds ⟨inFd.position, count, 0, []⟩ with _ | ⟨_ | _, t⟩
    · rfl
    · rfl
    · rfl
  | some old =>
    obtain ⟨seekable, positive⟩ := checked old rfl
    have begins : start inFd (some old) = old.toNat := rfl
    rw [sendfileImp, if_neg (not_not.mpr seekable), if_neg positive, begins]
    rcases transfer inFd.bytes rounds ⟨old.toNat, count, 0, []⟩ with _ | ⟨_ | _, t⟩
    · rfl
    · rfl
    · rfl

/-- A negative offset, and a loop that has ended. -/
theorem sendfileImp_cases (returns : sendfileImp inFd offset count rounds = some o) :
    (rounds = [] ∧ o = ⟨-1, offset, inFd.position, []⟩) ∨
    ((∀ old, offset = some old → 0 ≤ old) ∧ ∃ finished t,
      Moved inFd.bytes rounds ⟨start inFd offset, count, 0, []⟩ finished t ∧
      o = outcome inFd offset finished t) := by
  by_cases checked : ∀ old, offset = some old → inFd.seekable = true ∧ ¬ old < 0
  · rw [sendfileImp_transfer checked] at returns
    obtain ⟨⟨finished, t⟩, call, rfl⟩ := Option.map_eq_some_iff.mp returns
    exact Or.inr ⟨fun old same => Int.not_lt.mp (checked old same).2, finished, t,
      transfer_moved call, rfl⟩
  · push Not at checked
    obtain ⟨old, rfl, negative⟩ := checked
    rw [sendfileImp] at returns
    by_cases seekable : inFd.seekable = true
    · rw [if_neg (not_not.mpr seekable), if_pos (negative seekable)] at returns
      obtain ⟨last, result⟩ := ending_some returns
      exact Or.inl ⟨last, result.symm⟩
    · rw [if_pos seekable] at returns
      cases returns

theorem start_some (inFd : InFd) {old : Int} (inside : 0 ≤ old) : (start inFd (some old) : Int) = old :=
  Int.toNat_of_nonneg inside

theorem not_full_of_fails (fails : ∃ round ∈ rounds, round.Fails) :
    ¬ ∀ round ∈ rounds, round.Full := by
  intro all
  obtain ⟨round, member, none | ⟨some_read, write⟩⟩ := fails
  · exact (all round member).1 none
  · obtain ⟨read, zero | same⟩ := all round member
    · exact some_read zero
    · exact read (same ▸ write)

/-- Nothing has been moved, or the file was read up to the offset that it has. -/
theorem accounts_failed (inside : ∀ old, offset = some old → 0 ≤ old)
    (moved : Moved inFd.bytes rounds ⟨start inFd offset, count, 0, []⟩ false t) :
    Accounts inFd offset (outcome inFd offset false t) ↔
      ∀ old, offset = some old → given rounds = 0 ∧ old + taken rounds = inFd.position := by
  have result : outcome inFd offset false t = ⟨-1, offset, t.position, t.delivered⟩ := rfl
  have length : t.delivered.length = given rounds := by
    rw [moved.delivered, List.length_nil, Nat.zero_add]
  rw [result]
  constructor
  · intro accounts old same
    have advanced := accounts.advanced old same
    have restored := accounts.restored old same
    dsimp only at advanced restored
    rw [moved.position] at restored
    rw [same] at advanced restored
    have from_start := start_some inFd (inside old same)
    have unmoved := Option.some.inj advanced
    dsimp only at restored
    omega
  · intro untouched
    have negative : ¬ (0 : Int) ≤ -1 := by decide
    refine ⟨fun positive => absurd positive negative, fun positive => absurd positive negative, ?_, ?_⟩
    · intro old same
      obtain ⟨none_given, _⟩ := untouched old same
      dsimp only
      rw [same, length, none_given, Nat.cast_zero, add_zero]
    · intro old same
      obtain ⟨_, back⟩ := untouched old same
      have from_start := start_some inFd (inside old same)
      dsimp only
      rw [moved.position, same]
      dsimp only
      omega

theorem accounts_finished (inside : ∀ old, offset = some old → 0 ≤ old)
    (moved : Moved inFd.bytes rounds ⟨start inFd offset, count, 0, []⟩ true t) :
    Accounts inFd offset (outcome inFd offset true t) ↔ ∀ round ∈ rounds, round.Full := by
  have result : outcome inFd offset true t = ⟨t.numSent, offset.map fun _ => (t.position : Int),
    offset.elim t.position fun _ => inFd.position, t.delivered⟩ := rfl
  have sent : t.numSent = taken rounds := (moved.sent rfl).trans (Nat.zero_add _)
  have length : t.delivered.length = given rounds := by
    rw [moved.delivered, List.length_nil, Nat.zero_add]
  rw [result, ← moved.full rfl]
  constructor
  · intro accounts
    have counted := accounts.counted (Int.natCast_nonneg _)
    dsimp only at counted
    omega
  · intro equal
    have copied := moved.copied ((moved.full rfl).mp equal)
    refine ⟨fun _ => ?_, fun _ => ?_, ?_, ?_⟩
    · dsimp only
      rw [sent, length, equal]
    · dsimp only
      rw [copied]
      exact List.take_prefix _ _
    · rintro old rfl
      have from_start := start_some inFd (inside old rfl)
      dsimp only [Option.map_some]
      rw [moved.position, length, equal, Nat.cast_add, from_start]
    · rintro old rfl
      rfl

/-- Full writes are accounted for. After a failed call the offsets are left where they are. -/
theorem accounts_iff (inFd : InFd) (offset : Option Int) (count : Nat) (rounds : List Round)
    (o : Outcome) (returns : sendfileImp inFd offset count rounds = some o) :
    Accounts inFd offset o ↔ (∀ round ∈ rounds, round.Full) ∨
      ((∃ round ∈ rounds, round.Fails) ∧
        ∀ old, offset = some old → given rounds = 0 ∧ old + taken rounds = inFd.position) := by
  rcases sendfileImp_cases returns with ⟨rfl, rfl⟩ | ⟨inside, finished, t, moved, rfl⟩
  · refine iff_of_true ⟨?_, ?_, ?_, ?_⟩ (Or.inl fun _ member => by cases member)
    · exact fun positive : (0 : Int) ≤ -1 => absurd positive (by decide)
    · exact fun positive : (0 : Int) ≤ -1 => absurd positive (by decide)
    · rintro old rfl
      exact congrArg some (add_zero old).symm
    · exact fun _ _ => rfl
  cases finished with
  | false =>
    have failed : ∃ round ∈ rounds, round.Fails := by
      have ended := moved.ended.not.mp (by decide)
      push Not at ended
      exact ended
    rw [or_iff_right (not_full_of_fails failed), and_iff_right failed]
    exact accounts_failed inside moved
  | true =>
    have fine : ¬ ∃ round ∈ rounds, round.Fails := by
      rintro ⟨round, member, fails⟩
      exact moved.ended.mp rfl round member fails
    rw [or_iff_left fun failed => fine failed.1]
    exact accounts_finished inside moved

/-- Three bytes from the second one on, with the offset of the file left at the first. -/
theorem accounts_three :
    Accounts ⟨[10, 11, 12, 13, 14], 0, true⟩ (some 1) ⟨3, some 4, 0, [11, 12, 13]⟩ :=
  (accounts_iff _ _ 3 [⟨some 2, some 2⟩, ⟨some 1, some 1⟩] _ rfl).mpr (Or.inl (by decide))

/-- A write that takes one byte of two is counted as both. -/
theorem short_write_counted : ¬ ∀ (inFd : InFd) (offset : Option Int) (count : Nat)
    (rounds : List Round) (o : Outcome), sendfileImp inFd offset count rounds = some o →
      Accounts inFd offset o := by
  intro all
  have counted := (all ⟨[10, 11], 0, true⟩ none 2 [⟨some 2, some 1⟩] ⟨2, none, 2, [10]⟩ rfl).counted
  exact absurd (counted (by decide)) (by decide)

end Call

end Tlpi.Sendfile
