import TlpiExercises.ReadvWritev.Model
import Mathlib.Data.List.GetD

/-!
# What is transferred, and what is returned

Both loops transfer a prefix of the buffers and stop at the first short transfer. After it `readv_clone`
returns everything that it has read, and `writev_clone` only what the last `write` has written.
-/

namespace Tlpi.ReadvWritev

def bytes (buffers : List DataBuffer) : List UInt8 := buffers.flatMap DataBuffer.buf

def sum (buffers : List DataBuffer) : Nat := (buffers.map DataBuffer.len).sum

/-- The amounts of the transfers up to the first short one. -/
def untilShort (amount : Nat → Nat) : Nat → List DataBuffer → List Nat
  | _, [] => []
  | i, b :: rest => amount i :: if amount i = b.len then untilShort amount (i + 1) rest else []

/-- No transfer from `i` on is short. -/
def Full (amount : Nat → Nat) (i : Nat) (buffers : List DataBuffer) : Prop :=
  ∀ k b, buffers[k]? = some b → amount (i + k) = b.len

/-- The bytes that were moved are a prefix of the buffers' bytes, the rest of which is as before. -/
structure Transferred (amount : Nat → Nat) (buffers : List DataBuffer) (result : Result) : Prop where
  stops : result.moved.map List.length = untilShort amount 0 buffers
  total : result.rv = (result.moved.map List.length).sum
  inOrder : bytes result.buffers =
    result.moved.flatten ++ (bytes buffers).drop result.moved.flatten.length

/-- `readv_clone` returns, and has put what each `read` gave into the buffers. -/
def Reads (reads : Nat → List UInt8) (buffers : List DataBuffer)
    (call : Except Undefined Result) : Prop :=
  ∃ result, call = .ok result ∧ Transferred (fun i => (reads i).length) buffers result ∧
    ∀ i bytes, result.moved[i]? = some bytes → bytes = reads i

/-- `writev_clone` returns, and has only read the buffers. -/
def Writes (writes : Nat → Nat) (buffers : List DataBuffer) (call : Except Undefined Result) : Prop :=
  ∃ result, call = .ok result ∧ Transferred writes buffers result ∧ result.buffers = buffers

/-! ### The first loop -/

theorem sumLens_iff {length : Int} {i : Nat} {totalBytes t : Int} {rest : List DataBuffer}
    (index : (i : Int) ≤ INT_MAX) (small : totalBytes ≤ SSIZE_MAX) (begun : (i : Int) ≤ length) :
    sumLens length i totalBytes rest = .ok t ↔
      length ≤ i + rest.length ∧ length ≤ INT_MAX ∧
        totalBytes + sum (rest.take (length - i).toNat) ≤ SSIZE_MAX ∧
        t = totalBytes + sum (rest.take (length - i).toNat) := by
  induction rest generalizing i totalBytes with
  | nil =>
    rw [sumLens, List.take_nil, sum, List.map_nil, List.sum_nil, List.length_nil]
    by_cases more : (i : Int) < length
    · rw [if_pos more]
      exact iff_of_false nofun (by omega)
    · rw [if_neg more]
      constructor
      · rintro ⟨⟩
        exact ⟨by omega, by omega, by omega, by omega⟩
      · rintro ⟨_, _, _, rfl⟩
        simp
  | cons b rest ih =>
    rw [sumLens, List.length_cons]
    by_cases more : (i : Int) < length
    · obtain ⟨k, count⟩ : ∃ k, (length - i).toNat = k + 1 := ⟨(length - i).toNat - 1, by omega⟩
      have later : (length - (i + 1 : Nat)).toNat = k := by omega
      have split : sum ((b :: rest).take (length - i).toNat) = b.len + sum (rest.take k) := by
        rw [count, List.take_succ_cons, sum, List.map_cons, List.sum_cons]
        rfl
      rw [if_pos more, split]
      by_cases large : totalBytes + b.len > SSIZE_MAX
      · rw [if_pos large]
        exact iff_of_false nofun (by omega)
      rw [if_neg large]
      by_cases last : (i : Int) + 1 > INT_MAX
      · rw [if_pos last]
        exact iff_of_false nofun (by omega)
      rw [if_neg last, ih (by omega) (by omega) (by omega), later]
      omega
    · have done : (length - i).toNat = 0 := by omega
      rw [if_neg more, done, List.take_zero, sum, List.map_nil, List.sum_nil]
      constructor
      · rintro ⟨⟩
        exact ⟨by omega, by omega, by omega, by omega⟩
      · rintro ⟨_, _, _, rfl⟩
        simp

section Clone

variable {transfer : Nat → DataBuffer → Option (List UInt8 × DataBuffer)}
  {onShort : Int → Int → Int} {buffers : List DataBuffer} {length : Int}

/-- The `int` index reaches every buffer, and the sum fits into `ssize_t`. -/
def Addable (buffers : List DataBuffer) (length : Int) : Prop :=
  length ≤ buffers.length ∧ length ≤ INT_MAX ∧ sum (buffers.take length.toNat) ≤ SSIZE_MAX

theorem vectorClone_adds (transfer : Nat → DataBuffer → Option (List UInt8 × DataBuffer))
    (onShort : Int → Int → Int) (positive : 0 < length) (add : Addable buffers length) :
    vectorClone transfer onShort buffers length = .ok
      { transferLoop transfer onShort 0 0 (buffers.take length.toNat) with
        buffers := (transferLoop transfer onShort 0 0 (buffers.take length.toNat)).buffers ++
          buffers.drop length.toNat } := by
  obtain ⟨inside, index, fits⟩ := add
  have first : sumLens length 0 0 buffers = .ok (sum (buffers.take length.toNat) : Int) := by
    refine (sumLens_iff (by decide) (by decide) (by omega)).mpr ?_
    simp only [Nat.cast_zero, sub_zero, zero_add, and_true]
    exact ⟨inside, index, fits⟩
  unfold vectorClone
  rw [if_neg (by omega), first]
  dsimp only
  rw [if_neg (by omega)]

theorem vectorClone_undefined (transfer : Nat → DataBuffer → Option (List UInt8 × DataBuffer))
    (onShort : Int → Int → Int) (positive : 0 < length) (undefined : ¬ Addable buffers length) :
    ∃ u, vectorClone transfer onShort buffers length = .error u := by
  unfold vectorClone
  rw [if_neg (by omega)]
  cases first : sumLens length 0 0 buffers with
  | error u => exact ⟨u, rfl⟩
  | ok totalBytes =>
    obtain ⟨inside, index, fits, -⟩ :=
      (sumLens_iff (by decide) (by decide) (by omega)).mp first
    simp only [Nat.cast_zero, sub_zero, zero_add] at inside fits
    exact absurd ⟨inside, index, fits⟩ undefined

/-- A call that is to transfer all the buffers. -/
theorem whole_iff {P : Result → Prop} (nonempty : buffers ≠ []) (fits : sum buffers ≤ SSIZE_MAX) :
    (∃ result, vectorClone transfer onShort buffers buffers.length = .ok result ∧ P result) ↔
      buffers.length ≤ INT_MAX ∧ P (transferLoop transfer onShort 0 0 buffers) := by
  have positive : 0 < (buffers.length : Int) := by
    have := List.length_pos_of_ne_nil nonempty
    omega
  by_cases index : (buffers.length : Int) ≤ INT_MAX
  · have call := vectorClone_adds transfer onShort positive
      ⟨le_refl _, index, by rwa [Int.toNat_natCast, List.take_length]⟩
    rw [Int.toNat_natCast, List.take_length, List.drop_length, List.append_nil] at call
    rw [call]
    constructor
    · rintro ⟨result, same, good⟩
      cases same
      exact ⟨index, good⟩
    · rintro ⟨_, good⟩
      exact ⟨_, rfl, good⟩
  · obtain ⟨u, call⟩ := vectorClone_undefined transfer onShort positive
      (fun add : Addable buffers buffers.length => index add.2.1)
    rw [call]
    exact iff_of_false (fun ⟨_, returned, _⟩ => nomatch returned) fun add => index add.1

end Clone

/-! ### The second loop -/

section Loop

variable {transfer : Nat → DataBuffer → Option (List UInt8 × DataBuffer)}
  {onShort : Int → Int → Int} {amount : Nat → Nat} {move : Nat → DataBuffer → List UInt8}

/-- Each transfer moves bytes of the buffer's beginning. -/
structure Moves (transfer : Nat → DataBuffer → Option (List UInt8 × DataBuffer))
    (amount : Nat → Nat) (move : Nat → DataBuffer → List UInt8) (i : Nat)
    (buffers : List DataBuffer) : Prop where
  call : ∀ k b, buffers[k]? = some b →
    transfer (i + k) b = some (move (i + k) b, ⟨move (i + k) b ++ b.buf.drop (amount (i + k))⟩)
  length : ∀ k b, buffers[k]? = some b → (move (i + k) b).length = amount (i + k)
  le : ∀ k b, buffers[k]? = some b → amount (i + k) ≤ b.len

theorem Moves.tail {i : Nat} {b : DataBuffer} {rest : List DataBuffer}
    (moves : Moves transfer amount move i (b :: rest)) :
    Moves transfer amount move (i + 1) rest := by
  refine ⟨fun k c found => ?_, fun k c found => ?_, fun k c found => ?_⟩ <;>
    rw [Nat.add_assoc, Nat.add_comm 1 k]
  · exact moves.call (k + 1) c found
  · exact moves.length (k + 1) c found
  · exact moves.le (k + 1) c found

theorem full_cons {i : Nat} {b : DataBuffer} {rest : List DataBuffer} :
    Full amount i (b :: rest) ↔ amount i = b.len ∧ Full amount (i + 1) rest := by
  constructor
  · intro full
    refine ⟨full 0 b rfl, fun k c found => ?_⟩
    rw [Nat.add_assoc, Nat.add_comm 1 k]
    exact full (k + 1) c found
  · rintro ⟨here, later⟩ k c found
    cases k with
    | zero =>
      cases found
      exact here
    | succ k =>
      have next := later k c found
      rwa [Nat.add_assoc, Nat.add_comm 1 k] at next

theorem loop_short {i : Nat} {total : Int} {b : DataBuffer} {rest : List DataBuffer}
    (moves : Moves transfer amount move i (b :: rest)) (short : amount i ≠ b.len) :
    transferLoop transfer onShort i total (b :: rest) =
      ⟨onShort (total + amount i) (amount i), false, [move i b],
        ⟨move i b ++ b.buf.drop (amount i)⟩ :: rest⟩ := by
  have call : transfer i b = some (move i b, ⟨move i b ++ b.buf.drop (amount i)⟩) :=
    moves.call 0 b rfl
  have length : (move i b).length = amount i := moves.length 0 b rfl
  rw [transferLoop, call]
  dsimp only
  rw [length, if_pos short]

theorem loop_full {i : Nat} {total : Int} {b : DataBuffer} {rest : List DataBuffer}
    (moves : Moves transfer amount move i (b :: rest)) (full : amount i = b.len) :
    transferLoop transfer onShort i total (b :: rest) =
      { transferLoop transfer onShort (i + 1) (total + amount i) rest with
        moved := move i b :: (transferLoop transfer onShort (i + 1) (total + amount i) rest).moved
        buffers := ⟨move i b⟩ ::
          (transferLoop transfer onShort (i + 1) (total + amount i) rest).buffers } := by
  have call : transfer i b = some (move i b, ⟨move i b ++ b.buf.drop (amount i)⟩) :=
    moves.call 0 b rfl
  have length : (move i b).length = amount i := moves.length 0 b rfl
  have none_left : b.buf.drop (amount i) = [] := List.drop_eq_nil_of_le (full ▸ Nat.le_refl _)
  rw [transferLoop, call, none_left, List.append_nil]
  dsimp only
  rw [length, if_neg (not_not_intro full)]

theorem loop_moved {i : Nat} {total : Int} {rest : List DataBuffer}
    (moves : Moves transfer amount move i rest) :
    (transferLoop transfer onShort i total rest).moved.map List.length =
      untilShort amount i rest := by
  induction rest generalizing i total with
  | nil => rfl
  | cons b rest ih =>
    have length : (move i b).length = amount i := moves.length 0 b rfl
    rw [untilShort]
    by_cases full : amount i = b.len
    · rw [loop_full moves full, if_pos full, ← ih moves.tail, List.map_cons, length]
    · rw [loop_short moves full, if_neg full, List.map_cons, List.map_nil, length]

theorem loop_inOrder {i : Nat} {total : Int} {rest : List DataBuffer}
    (moves : Moves transfer amount move i rest) :
    bytes (transferLoop transfer onShort i total rest).buffers =
      (transferLoop transfer onShort i total rest).moved.flatten ++
        (bytes rest).drop (transferLoop transfer onShort i total rest).moved.flatten.length := by
  induction rest generalizing i total with
  | nil => rfl
  | cons b rest ih =>
    have length : (move i b).length = amount i := moves.length 0 b rfl
    have le : amount i ≤ b.len := moves.le 0 b rfl
    unfold bytes at ih ⊢
    by_cases full : amount i = b.len
    · rw [loop_full moves full]
      dsimp only
      rw [List.flatMap_cons, ih moves.tail, List.flatten_cons, List.append_assoc,
        List.length_append, List.flatMap_cons, length, full]
      congr 2
      exact (List.drop_length_add_append _).symm
    · rw [loop_short moves full]
      simp only [List.flatMap_cons, List.flatten_cons, List.flatten_nil, List.append_nil, length]
      rw [List.drop_append_of_le_length le, List.append_assoc]

theorem loop_each {i k : Nat} {total : Int} {rest : List DataBuffer} {moved : List UInt8}
    (moves : Moves transfer amount move i rest)
    (found : (transferLoop transfer onShort i total rest).moved[k]? = some moved) :
    ∃ b, rest[k]? = some b ∧ moved = move (i + k) b := by
  induction rest generalizing i k total with
  | nil => cases found
  | cons b rest ih =>
    by_cases full : amount i = b.len
    · rw [loop_full moves full] at found
      cases k with
      | zero => exact ⟨b, rfl, (Option.some.inj found).symm⟩
      | succ k =>
        obtain ⟨c, there, rfl⟩ := ih moves.tail found
        refine ⟨c, there, ?_⟩
        rw [Nat.add_assoc, Nat.add_comm 1 k]
    · rw [loop_short moves full] at found
      cases k with
      | zero => exact ⟨b, rfl, (Option.some.inj found).symm⟩
      | succ k => cases found

theorem loop_buffers (transfer : Nat → DataBuffer → Option (List UInt8 × DataBuffer))
    (onShort : Int → Int → Int) (i : Nat) (total : Int) (rest : List DataBuffer)
    (kept : ∀ i b bytes b', transfer i b = some (bytes, b') → b' = b) :
    (transferLoop transfer onShort i total rest).buffers = rest := by
  induction rest generalizing i total with
  | nil => rfl
  | cons b rest ih =>
    rw [transferLoop]
    cases call : transfer i b with
    | none => rfl
    | some moved =>
      obtain ⟨bytes, b'⟩ := moved
      obtain rfl := kept i b bytes b' call
      dsimp only
      split
      · rfl
      · dsimp only
        rw [ih]

/-- What is returned: the total, or what the short transfer makes of it. -/
theorem loop_rv (onShort : Int → Int → Int) (total : Int) {i : Nat} {rest : List DataBuffer}
    (moves : Moves transfer amount move i rest) :
    (Full amount i rest ∧ (transferLoop transfer onShort i total rest).rv =
      total + (untilShort amount i rest).sum) ∨
    (¬ Full amount i rest ∧ ∃ (before : List Nat) (last : Nat), untilShort amount i rest = before ++ [last] ∧
      (transferLoop transfer onShort i total rest).rv =
        onShort (total + (untilShort amount i rest).sum) last) := by
  induction rest generalizing i total with
  | nil => exact Or.inl ⟨nofun, by simp [transferLoop, untilShort]⟩
  | cons b rest ih =>
    rw [untilShort, full_cons]
    by_cases full : amount i = b.len
    · rw [loop_full moves full, if_pos full]
      dsimp only
      rcases ih (total + amount i) moves.tail with
        ⟨all, returned⟩ | ⟨short, before, last, amounts, returned⟩
      · refine Or.inl ⟨⟨full, all⟩, ?_⟩
        rw [returned, List.sum_cons, Nat.cast_add, add_assoc]
      · refine Or.inr ⟨fun all => short all.2, amount i :: before, last, ?_, ?_⟩
        · rw [amounts, List.cons_append]
        · rw [returned, List.sum_cons, Nat.cast_add, add_assoc]
    · rw [loop_short moves full, if_neg full]
      refine Or.inr ⟨fun all => full all.1, [], amount i, rfl, ?_⟩
      rw [List.sum_singleton]

end Loop

theorem reads_moves {reads : Nat → List UInt8} {buffers : List DataBuffer}
    (le : ∀ (i : Nat) b, buffers[i]? = some b → (reads i).length ≤ b.len) :
    Moves (fun i b => (some (reads i)).map fun bytes => (bytes, ⟨bytes ++ b.buf.drop bytes.length⟩))
      (fun i => (reads i).length) (fun i _ => reads i) 0 buffers := by
  refine ⟨fun k b _ => rfl, fun k b _ => rfl, fun k b found => ?_⟩
  rw [Nat.zero_add]
  exact le k b found

theorem writes_moves {writes : Nat → Nat} {buffers : List DataBuffer}
    (le : ∀ (i : Nat) b, buffers[i]? = some b → writes i ≤ b.len) :
    Moves (fun i b => (some (writes i)).map fun n => (b.buf.take n, b)) writes
      (fun i b => b.buf.take (writes i)) 0 buffers := by
  refine ⟨fun k b _ => ?_, fun k b found => ?_, fun k b found => ?_⟩
  · rw [Option.map_some, List.take_append_drop]
  · rw [List.length_take_of_le]
    rw [Nat.zero_add]
    exact le k b found
  · rw [Nat.zero_add]
    exact le k b found

theorem reads_iff {reads : Nat → List UInt8} {buffers : List DataBuffer} (nonempty : buffers ≠ [])
    (fits : sum buffers ≤ SSIZE_MAX)
    (le : ∀ (i : Nat) b, buffers[i]? = some b → (reads i).length ≤ b.len) :
    Reads reads buffers (readvClone (fun i => some (reads i)) buffers buffers.length) ↔
      (buffers.length : Int) ≤ INT_MAX := by
  have moves := reads_moves le
  refine (whole_iff nonempty fits).trans (and_iff_left ⟨⟨loop_moved moves, ?_,
    loop_inOrder moves⟩, fun i moved found => ?_⟩)
  · rw [loop_moved moves]
    rcases loop_rv (fun totalRead _ => totalRead) 0 moves with
      ⟨_, returned⟩ | ⟨_, _, _, _, returned⟩ <;>
    · rw [returned, zero_add]
  · obtain ⟨b, _, rfl⟩ := loop_each moves found
    rw [Nat.zero_add]

theorem writes_iff {writes : Nat → Nat} {buffers : List DataBuffer} (nonempty : buffers ≠ [])
    (fits : sum buffers ≤ SSIZE_MAX)
    (le : ∀ (i : Nat) b, buffers[i]? = some b → writes i ≤ b.len) :
    Writes writes buffers (writevClone (fun i => some (writes i)) buffers buffers.length) ↔
      buffers.length ≤ INT_MAX ∧
        (Full writes 0 buffers ∨ (untilShort writes 0 buffers).dropLast.sum = 0) := by
  have moves := writes_moves le
  refine (whole_iff nonempty fits).trans (and_congr_right fun _ => ?_)
  have kept := loop_buffers (fun i b => (some (writes i)).map fun n => (b.buf.take n, b))
    (fun _ numWritten => numWritten) 0 0 buffers
    fun i b bytes b' call => (Prod.mk.inj (Option.some.inj call)).2.symm
  rcases loop_rv (fun _ numWritten => numWritten) 0 moves with
    ⟨full, returned⟩ | ⟨short, before, last, amounts, returned⟩
  · refine iff_of_true ⟨⟨loop_moved moves, ?_, loop_inOrder moves⟩, kept⟩ (Or.inl full)
    rw [loop_moved moves, returned, zero_add]
  · rw [amounts, List.dropLast_concat]
    constructor
    · rintro ⟨transferred, _⟩
      have total := transferred.total
      rw [loop_moved moves, returned, amounts, List.sum_append, List.sum_singleton] at total
      exact Or.inr (by omega)
    · intro nothing
      have first := nothing.resolve_left short
      refine ⟨⟨loop_moved moves, ?_, loop_inOrder moves⟩, kept⟩
      rw [loop_moved moves, returned, amounts, List.sum_append, List.sum_singleton, first,
        Nat.zero_add]

/-- Both return the total exactly if nothing is lost in front of a short `write`. -/
theorem clones_transfer_iff (reads : Nat → List UInt8) (writes : Nat → Nat) (buffers : List DataBuffer)
    (nonempty : buffers ≠ []) (fits : sum buffers ≤ SSIZE_MAX)
    (reads_le : ∀ (i : Nat) b, buffers[i]? = some b → (reads i).length ≤ b.len)
    (writes_le : ∀ (i : Nat) b, buffers[i]? = some b → writes i ≤ b.len) :
    (Reads reads buffers (readvClone (fun i => some (reads i)) buffers buffers.length) ∧
      Writes writes buffers (writevClone (fun i => some (writes i)) buffers buffers.length)) ↔
    buffers.length ≤ INT_MAX ∧
      (Full writes 0 buffers ∨ (untilShort writes 0 buffers).dropLast.sum = 0) := by
  rw [reads_iff nonempty fits reads_le, writes_iff nonempty fits writes_le]
  exact ⟨fun both => both.2, fun both => ⟨both.1, both⟩⟩

/-- Two buffers are filled, and the `write` of the first one is short. -/
theorem transferred_short_first :
    Reads (fun _ => [7, 8]) [⟨[1, 2]⟩, ⟨[3, 4]⟩] (readvClone (fun _ => some [7, 8]) [⟨[1, 2]⟩, ⟨[3, 4]⟩] 2) ∧
      Writes (fun _ => 1) [⟨[1, 2]⟩, ⟨[3, 4]⟩] (writevClone (fun _ => some 1) [⟨[1, 2]⟩, ⟨[3, 4]⟩] 2) := by
  have two (i : Nat) (b : DataBuffer) (found : [(⟨[1, 2]⟩ : DataBuffer), ⟨[3, 4]⟩][i]? = some b) :
      b.len = 2 := by
    rcases List.mem_pair.mp (List.mem_of_getElem? found) with rfl | rfl
    · rfl
    · rfl
  refine (clones_transfer_iff (fun _ => [7, 8]) (fun _ => 1) [⟨[1, 2]⟩, ⟨[3, 4]⟩] nofun (by decide)
    (fun i b found => ?_) fun i b found => ?_).mpr ⟨by decide, Or.inr (by decide)⟩
  · rw [two i b found]
    decide
  · rw [two i b found]
    decide

/-- Of two bytes in each of two buffers `write` takes two and then one, and `writev_clone` returns one. -/
theorem writev_forgets : ¬ ∀ (reads : Nat → List UInt8) (writes : Nat → Nat)
    (buffers : List DataBuffer), buffers ≠ [] → sum buffers ≤ SSIZE_MAX →
    (∀ (i : Nat) b, buffers[i]? = some b → (reads i).length ≤ b.len) →
    (∀ (i : Nat) b, buffers[i]? = some b → writes i ≤ b.len) →
    Reads reads buffers (readvClone (fun i => some (reads i)) buffers buffers.length) ∧
      Writes writes buffers (writevClone (fun i => some (writes i)) buffers buffers.length) := by
  intro all
  have both := all (fun _ => []) (fun i => 2 - i) [⟨[1, 2]⟩, ⟨[3, 4]⟩] nofun (by decide)
    (fun i b _ => Nat.zero_le _) fun i b found => ?_
  · obtain ⟨result, call, transferred, _⟩ := both.2
    cases call
    have total := transferred.total
    revert total
    decide
  · have long : b.len = 2 := by
      rcases List.mem_cons.mp (List.mem_of_getElem? found) with rfl | last
      · rfl
      · obtain rfl := List.mem_singleton.mp last
        rfl
    omega

end Tlpi.ReadvWritev
