import TlpiExercises.CpHole.Model

/-!
# Which files are copied

What is written never ends with a hole and never reaches beyond `INT_MAX`, so a file that does is not
copied. All others are.
-/

namespace Tlpi.CpHole

open SparseFile Loop

structure Copy (file1 file2 : List (Option UInt8)) : Prop where
  bytes : file2.map (fun cell => cell.getD 0) = file1.map fun cell => cell.getD 0
  inside : ∀ (i : Nat) (b : UInt8), file2[i]? = some (some b) → ∃ c, file1[i]? = some (some c)

/-- The program ends, and `file2` is then a copy. -/
def Copied (file1 : List (Option UInt8)) : Prop :=
  ∃ fuel file2, cpHole file1 fuel = some (.success file2) ∧ Copy file1 file2

variable {file1 file2 : List (Option UInt8)} {s s' : State} {n : Nat} {numRead : Int}

/-! ### What is written -/

/-- Both descriptors have advanced together, by at most `numRead`. -/
structure Advances (numRead : Int) (s s' : State) : Prop where
  inStep : s'.offset1 = s'.offset2
  forward : s.offset1 ≤ s'.offset1
  bound : s'.offset1 ≤ s.offset1 + numRead
  length : s'.file2.length ≤ max s.file2.length s'.offset2
  closed : Closed s.file2 → Closed s'.file2

theorem copy_advances (inStep : s.offset1 = s.offset2) : Advances n s (s.copy file1 n) := by
  have read := readAt_length (0 : UInt8) file1 s.offset1 n
  have written := writeAt_length_le s.file2 s.offset2 (readAt 0 file1 s.offset1 n)
  refine ⟨?_, Nat.le_add_right _ _, ?_, written, writeAt_closed⟩
  · exact congrArg (· + _) inStep
  · simp only [State.copy]
    omega

theorem Advances.trans {m : Int} {s'' : State} (first : Advances numRead s s')
    (second : Advances m s' s'') : Advances (numRead + m) s s'' := by
  obtain ⟨_, _, _, length, closed⟩ := first
  obtain ⟨inStep, _, _, later_length, later_closed⟩ := second
  exact ⟨inStep, by omega, by omega, by omega, fun start => later_closed (closed start)⟩

theorem copyData_advances (inStep : s.offset1 = s.offset2)
    (call : copyData file1 numRead s = some s') : Advances numRead s s' := by
  fun_induction copyData file1 numRead s with
  | case1 numRead s more ih =>
    have block : Advances BUF_SIZE s (s.copy file1 BUF_SIZE) := copy_advances inStep
    have both := block.trans (ih block.inStep call)
    rwa [add_sub_cancel] at both
  | case2 => cases call
  | case3 numRead s last positive =>
    cases call
    have block : Advances numRead.toNat s (s.copy file1 numRead.toNat) := copy_advances inStep
    rwa [Int.toNat_of_nonneg (by omega)] at block

theorem iteration_cases (inStep : toInt s.offset1 = s.offset2)
    (call : iteration file1 s = .ok s') :
    (∃ offset1 offset2 : Nat, toInt offset1 = offset2 ∧
      s' = { s with offset1 := offset1, offset2 := offset2 }) ∨
    ∃ numRead, s.offset2 + numRead ≤ INT_MAX ∧
      copyData file1 numRead { s with offset1 := s.offset2 } = some s' := by
  unfold iteration at call
  rw [inStep] at call
  dsimp only at call
  split at call
  · cases call
  split at call
  · cases call
  rename_i known
  split at call
  · split at call
    · cases call
    split at call
    · cases call
    split at call
    · cases call
    split at call
    · cases call
    rename_i copied
    obtain rfl := Except.ok.inj call
    rw [Int.toNat_natCast] at copied
    have range := (toInt_range (lseek (seekHole file1 s.offset2))).2
    refine Or.inr ⟨_, ?_, copied⟩
    rwa [add_sub_cancel]
  · split at call
    · cases call
    rename_i start
    obtain rfl := Except.ok.inj call
    cases data : seekData file1 s.offset2 with
    | none =>
      rw [data] at known
      exact absurd (toInt_small (by decide) (by decide)) known
    | some offset =>
      rw [data] at start
      have same := Int.toNat_of_nonneg (Int.not_lt.mp start)
      exact Or.inl ⟨offset, _, same.symm, rfl⟩

theorem iteration_success (call : iteration file1 s = .error (.success file2)) :
    file2 = s.file2 := by
  unfold iteration at call
  dsimp only at call
  split at call
  · cases call
  split at call
  · cases call
    rfl
  · split at call
    · split at call
      · cases call
      split at call
      · cases call
      split at call
      · cases call
      split at call <;> cases call
    · split at call <;> cases call

structure Bounded (s : State) : Prop where
  inStep : toInt s.offset1 = s.offset2
  small : s.file2.length ≤ INT_MAX
  closed : Closed s.file2

theorem bounded_start : Bounded ⟨0, 0, []⟩ :=
  ⟨toInt_small (by decide) (by decide), by decide, nofun⟩

theorem iteration_bounded (bounded : Bounded s) (call : iteration file1 s = .ok s') :
    Bounded s' := by
  obtain ⟨inStep, small, closed⟩ := bounded
  rcases iteration_cases inStep call with ⟨offset1, offset2, same, rfl⟩ | ⟨numRead, last, copied⟩
  · exact ⟨same, small, closed⟩
  · obtain ⟨together, _, bound, length, stays⟩ :=
      copyData_advances (s := { s with offset1 := s.offset2 }) rfl copied
    dsimp only at bound length stays
    have end_small : s'.offset1 ≤ INT_MAX := bound.trans last
    have same : toInt s'.offset1 = s'.offset1 :=
      toInt_of_nonneg (Int.natCast_nonneg _) end_small
    refine ⟨same.trans (congrArg _ together), ?_, stays closed⟩
    rw [together] at end_small
    exact (Nat.cast_le.mpr length).trans (by rw [Nat.cast_max]; exact max_le small end_small)

theorem copied_bounded (copied : Copied file1) : file1.length ≤ INT_MAX ∧ Closed file1 := by
  obtain ⟨fuel, file2, ended, copy⟩ := copied
  obtain ⟨s, ⟨_, small, closed⟩, last_round⟩ :=
    loop_invariant (fun _ _ => iteration_bounded) bounded_start ended
  rw [← iteration_success last_round] at small closed
  have length : file2.length = file1.length := by
    have := congrArg List.length copy.bytes
    rwa [List.length_map, List.length_map] at this
  refine ⟨length ▸ small, fun cell last => ?_⟩
  rw [List.getLast?_eq_getElem?, Option.mem_def, ← length] at last
  obtain ⟨cell2, last2⟩ : ∃ cell2, file2[file2.length - 1]? = some cell2 := by
    have inside := (List.getElem?_eq_some_iff.mp last).1
    exact ⟨_, List.getElem?_eq_getElem (by omega)⟩
  obtain ⟨b, rfl⟩ := Option.ne_none_iff_exists'.mp
    (closed cell2 (List.getLast?_eq_getElem?.trans last2))
  obtain ⟨c, here⟩ := copy.inside _ b last2
  rw [last] at here
  cases here
  exact Option.some_ne_none c

/-! ### What is copied -/

/-- Both descriptors stand where the copy has got to. -/
structure Ready (file1 : List (Option UInt8)) (s : State) : Prop where
  inStep : s.offset1 = s.offset2
  agrees : Agrees s.file2 file1 s.offset1

theorem copy_ready (ready : Ready file1 s) (inside : s.offset1 + n ≤ file1.length)
    (data : Data file1 s.offset1 (s.offset1 + n)) :
    (s.copy file1 n).offset1 = s.offset1 + n ∧ Ready file1 (s.copy file1 n) := by
  have length : (readAt (0 : UInt8) file1 s.offset1 n).length = n := by
    rw [readAt_length]
    omega
  have moved : (s.copy file1 n).offset1 = s.offset1 + n := congrArg _ length
  refine ⟨moved, congrArg (· + _) ready.inStep, ?_⟩
  rw [moved]
  have copied := ready.agrees.copy (0 : UInt8) inside data
  unfold State.copy
  rwa [← ready.inStep]

theorem copyData_ready (numRead : Int) (ready : Ready file1 s) (positive : 0 ≤ numRead)
    (inside : s.offset1 + numRead.toNat ≤ file1.length)
    (data : Data file1 s.offset1 (s.offset1 + numRead.toNat)) :
    ∃ s', copyData file1 numRead s = some s' ∧ s'.offset1 = s.offset1 + numRead.toNat ∧
      Ready file1 s' := by
  fun_induction copyData file1 numRead s with
  | case1 numRead s more ih =>
    have count : numRead.toNat = BUF_SIZE + (numRead - BUF_SIZE).toNat := by omega
    obtain ⟨moved, next⟩ := copy_ready (n := BUF_SIZE) ready (by omega)
      fun i low high => data i low (by omega)
    obtain ⟨s', copied, last, kept⟩ := ih next (by omega) (by omega) fun i low high =>
      data i (by omega) (by omega)
    exact ⟨s', copied, by omega, kept⟩
  | case2 => omega
  | case3 numRead s last _ =>
    obtain ⟨moved, next⟩ := copy_ready ready inside data
    exact ⟨_, rfl, moved, next⟩

/-- While there is data ahead each round moves forward; then the rest of the file is a hole. -/
theorem iteration_ready (small : file1.length ≤ INT_MAX) (closed : Closed file1)
    (ready : Ready file1 s) :
    (∃ ending, iteration file1 s = .error ending ∧ ending = .success file1) ∨
    ∃ s', iteration file1 s = .ok s' ∧ Ready file1 s' ∧
      file1.length - s'.offset1 < file1.length - s.offset1 := by
  have int {k : Nat} (inside : k ≤ file1.length) : toInt k = k :=
    toInt_of_nonneg (Int.natCast_nonneg _) ((Nat.cast_le.mpr inside).trans small)
  have valid {k : Nat} : (k : Int) ≠ -1 := by omega
  unfold iteration
  rw [int ready.agrees.inside]
  dsimp only
  rw [if_neg valid]
  cases data : seekData file1 s.offset1 with
  | none =>
    refine Or.inl ⟨_, if_pos (toInt_small (by decide) (by decide)), ?_⟩
    have whole := ready.agrees.skip ready.agrees.inside (le_refl _) (seekData_none data)
    rw [whole.complete closed]
  | some d =>
    obtain ⟨forward, hole, a, here⟩ := seekData_some data
    have inside := (List.getElem?_eq_some_iff.mp here).1
    have same : toInt (lseek (some d)) = d := int inside.le
    refine Or.inr ?_
    rw [same, if_neg valid]
    by_cases at_data : s.offset1 = d
    · obtain ⟨e, next, more⟩ := seekHole_data (at_data ▸ here)
      obtain ⟨_, last, full⟩ := seekHole_some next
      have hole_same : toInt (lseek (some e)) = e := int last
      have count : ((e : Int) - s.offset1).toNat = e - s.offset1 := by omega
      obtain ⟨s', copied, moved, kept⟩ := copyData_ready ((e : Int) - s.offset1) ready
        (by omega) (by omega) fun i low high => full i low (by omega)
      refine ⟨s', ?_, kept, by omega⟩
      rw [if_pos (congrArg _ at_data), next, hole_same, if_neg valid, if_neg (by omega),
        if_neg ?_, Int.toNat_natCast, copied]
      have size : (e : Int) ≤ INT_MAX := (Nat.cast_le.mpr last).trans small
      unfold INT_MIN
      omega
    · refine ⟨{ s with offset1 := d, offset2 := d }, ?_, ⟨rfl, ?_⟩, ?_⟩
      · rw [if_neg (by omega), if_neg (by omega)]
        rfl
      · exact ready.agrees.skip forward inside.le hole
      · dsimp only
        omega

theorem copy_self : Copy file1 file1 := ⟨rfl, fun _ b here => ⟨b, here⟩⟩

theorem bounded_copied (small : file1.length ≤ INT_MAX) (closed : Closed file1) :
    Copied file1 := by
  obtain ⟨fuel, _, ended, rfl⟩ :=
    loop_ends (fun _ ready => iteration_ready small closed ready)
      (⟨rfl, agrees_nil⟩ : Ready file1 ⟨0, 0, []⟩)
  exact ⟨fuel, file1, ended, copy_self⟩

/-- `cp_hole` copies the files that fit into `int` offsets and do not end with a hole. -/
theorem copied_iff (extents : List (Extent UInt8)) : Copied (cells extents) ↔
    (cells extents).length ≤ INT_MAX ∧ ∀ cell ∈ (cells extents).getLast?, cell ≠ none :=
  ⟨copied_bounded, fun condition => bounded_copied condition.1 condition.2⟩

/-- A byte and a hole behind it: the copy has only the byte. -/
theorem trailing_hole_lost : ¬ ∀ extents : List (Extent UInt8), Copied (cells extents) := by
  intro all
  have closed := (copied_bounded (all [.data [1], .hole 1])).2
  exact closed none rfl rfl

end Tlpi.CpHole
