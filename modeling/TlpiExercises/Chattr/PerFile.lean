import Mathlib.Data.List.Basic
import TlpiExercises.Chattr.Model

/-!
# Which files imp_chattr changes

A round of the loop changes the flags of its own file alone. Where a file's flags have been got, or are
not set, it is the specified change; else the flags that are set come from whatever was in
`currentFlags`.
-/

namespace Tlpi.Chattr

variable {Inode : Type*}

/-! ### The mode -/

theorem letterFlag_known {a : Attribute} (known : a.Known) : letterFlag a.letter = some a.flag := by
  cases a
  case noCopyOnWrite => cases known
  case extents => cases known
  case caseFold => cases known
  case noCompress => cases known
  case projectHierarchy => cases known
  case directAccess => cases known
  all_goals rfl

theorem letterFlag_unknown {a : Attribute} (unknown : ¬ a.Known) : letterFlag a.letter = none :=
  Option.not_isSome_iff_eq_none.mp unknown

theorem requestedFlags_known (flags : Flags) {attributes : List Attribute}
    (known : ∀ a ∈ attributes, a.Known) :
    requestedFlags flags (attributes.map Attribute.letter) =
      some (attributes.foldl (fun flags a => flags ||| a.flag) flags) := by
  induction attributes generalizing flags with
  | nil => rfl
  | cons a rest ih =>
    rw [List.map_cons, requestedFlags, letterFlag_known (known a List.mem_cons_self)]
    exact ih (flags ||| a.flag) fun b member => known b (List.mem_cons_of_mem a member)

theorem requestedFlags_unknown (flags : Flags) {attributes : List Attribute}
    (unknown : ¬ ∀ a ∈ attributes, a.Known) :
    requestedFlags flags (attributes.map Attribute.letter) = none := by
  induction attributes generalizing flags with
  | nil => exact absurd (fun a member => absurd member List.not_mem_nil) unknown
  | cons a rest ih =>
    rw [List.map_cons, requestedFlags]
    by_cases known : a.Known
    · rw [letterFlag_known known]
      exact ih (flags ||| a.flag) fun others => unknown (List.forall_mem_cons.mpr ⟨known, others⟩)
    · rw [letterFlag_unknown known]

theorem changedFlags_char (op : Operator) (old requested : Flags) :
    changedFlags old requested op.char = some (op.apply old requested) := by
  cases op <;> rfl

theorem apply_twice (op : Operator) (old requested : Flags) :
    op.apply (op.apply old requested) requested = op.apply old requested := by
  cases op with
  | add => exact (BitVec.or_assoc ..).trans (congrArg (old ||| ·) (BitVec.or_self ..))
  | remove => exact (BitVec.and_assoc ..).trans (congrArg (old &&& ·) (BitVec.and_self ..))
  | set => rfl

/-- The top bit is no attribute's. -/
theorem requested_top (mode : Mode) : mode.requested.getLsbD 31 = false := by
  have each : ∀ (attributes : List Attribute) (flags : Flags), flags.getLsbD 31 = false →
      (attributes.foldl (fun flags a => flags ||| a.flag) flags).getLsbD 31 = false := by
    intro attributes
    induction attributes with
    | nil => exact fun flags clear => clear
    | cons a rest ih =>
      intro flags clear
      refine ih (flags ||| a.flag) ?_
      have own : a.flag.getLsbD 31 = false := by cases a <;> rfl
      rw [BitVec.getLsbD_or, clear, own]
      rfl
  exact each mode.attributes 0 rfl

theorem apply_top {op : Operator} (keeps : op ≠ .set) (old : Flags) {requested : Flags}
    (clear : requested.getLsbD 31 = false) : (op.apply old requested).getLsbD 31 = old.getLsbD 31 := by
  cases op with
  | add => simp only [Operator.apply, BitVec.getLsbD_or, clear, Bool.or_false]
  | remove =>
    simp only [Operator.apply, BitVec.getLsbD_and, BitVec.getLsbD_not, clear]
    simp
  | set => exact absurd rfl keeps

/-! ### The loop over the files -/

def File.writes (file : File Inode) : Bool := !file.openFails && !file.setFails

theorem writes_iff (file : File Inode) : file.writes ↔ file.succeeds ∨ file.leaks := by
  cases file with
  | mk inode openFails getFails setFails =>
    cases openFails <;> cases getFails <;> cases setFails <;>
      simp [File.writes, File.succeeds, File.leaks]

theorem got_of_succeeds {file : File Inode} (clean : file.succeeds) : file.getFails = false := by
  unfold File.succeeds at clean
  grind

theorem not_got_of_leaks {file : File Inode} (leaks : file.leaks) : file.getFails = true := by
  unfold File.leaks at leaks
  grind

/-- `errFnd` is set if a call has failed. -/
def Noted (s : Run Inode) : Prop := s.errFnd = true ↔ s.failed ≠ []

theorem noted_failure (s : Run Inode) (call : Call) :
    Noted { s with errFnd := true, failed := s.failed ++ [call] } :=
  iff_of_true rfl (List.append_ne_nil_of_right_ne_nil s.failed (List.cons_ne_nil call []))

theorem failure_iff {t : Run Inode} (noted : Noted t) :
    (if t.errFnd then EXIT_FAILURE else EXIT_SUCCESS) = EXIT_FAILURE ↔ t.failed ≠ [] := by
  refine Iff.trans ?_ noted
  cases t.errFnd <;> decide

variable [DecidableEq Inode]

/-- What a round leaves of the flags of an inode. -/
def roundAt (op : Operator) (requested : Flags) (i : Inode) (junk : Flags) (file : File Inode)
    (old : Flags) : Flags :=
  if file.inode = i ∧ file.writes then op.apply (if file.getFails then junk else old) requested else old

def roundsAt (op : Operator) (requested : Flags) (i : Inode) (junk : Nat → Flags) :
    Nat → List (File Inode) → Flags → Flags
  | _, [], old => old
  | n, file :: rest, old =>
    roundsAt op requested i junk (n + 1) rest (roundAt op requested i (junk n) file old)

theorem update_at (op : Operator) (requested flags : Flags) (file : File Inode) (s : Run Inode)
    (writes : file.writes) {junk : Flags}
    (got : ∀ i, file.inode = i → flags = if file.getFails then junk else s.files i) (i : Inode) :
    Function.update s.files file.inode (op.apply flags requested) i =
      roundAt op requested i junk file (s.files i) := by
  unfold roundAt
  by_cases same : file.inode = i
  · rw [if_pos ⟨same, writes⟩, ← got i same, ← same]
    exact Function.update_self ..
  · rw [if_neg fun both => same both.1]
    exact Function.update_of_ne (Ne.symm same) ..

theorem changeFile_ok (op : Operator) (requested junk : Flags) (file : File Inode) {s : Run Inode}
    (noted : Noted s) :
    ∃ t, changeFile op.char requested junk file s = .ok t ∧ Noted t ∧
      ∀ i, t.files i = roundAt op requested i junk file (s.files i) := by
  cases file with
  | mk inode openFails getFails setFails =>
    unfold changeFile
    cases openFails with
    | true =>
      refine ⟨_, rfl, noted_failure s .open, fun i => ?_⟩
      exact (if_neg fun both => Bool.false_ne_true both.2).symm
    | false =>
      dsimp only
      rw [if_neg Bool.false_ne_true]
      cases getFails with
      | true =>
        rw [if_pos rfl]
        dsimp only
        rw [changedFlags_char]
        cases setFails with
        | true =>
          refine ⟨_, rfl, noted_failure { s with failed := s.failed ++ [.getFlags] } .setFlags, fun i => ?_⟩
          exact (if_neg fun both => Bool.false_ne_true both.2).symm
        | false =>
          refine ⟨_, rfl, noted_failure s .getFlags, fun i => ?_⟩
          exact update_at op requested junk ⟨inode, false, true, false⟩ s rfl (fun _ _ => rfl) i
      | false =>
        rw [if_neg Bool.false_ne_true]
        dsimp only
        rw [changedFlags_char]
        cases setFails with
        | true =>
          refine ⟨_, rfl, noted_failure s .setFlags, fun i => ?_⟩
          exact (if_neg fun both => Bool.false_ne_true both.2).symm
        | false =>
          refine ⟨_, rfl, noted, fun i => ?_⟩
          exact update_at op requested (s.files inode) ⟨inode, false, false, false⟩ s rfl
            (fun _ same => congrArg s.files same) i

theorem changeFiles_ok (op : Operator) (requested : Flags) (junk : Nat → Flags) (n : Nat)
    (files : List (File Inode)) {s : Run Inode} (noted : Noted s) :
    ∃ t, changeFiles op.char requested junk n files s = .ok t ∧ Noted t ∧
      ∀ i, t.files i = roundsAt op requested i junk n files (s.files i) := by
  induction files generalizing n s with
  | nil => exact ⟨s, rfl, noted, fun _ => rfl⟩
  | cons file rest ih =>
    obtain ⟨t, round, noted, own⟩ := changeFile_ok op requested (junk n) file noted
    obtain ⟨u, later, noted, others⟩ := ih (n + 1) noted
    refine ⟨u, ?_, noted, fun i => ?_⟩
    · rw [changeFiles, round]
      exact later
    · rw [others i, own i]
      rfl

/-! ### What the rounds leave of a file -/

section

variable {op : Operator} {requested : Flags} {i : Inode} {junk : Nat → Flags}

theorem ite_exists_mem_cons {α β : Type*} {P : α → Prop} {a : α} {rest : List α} {u v : β} [Decidable (P a)]
    [Decidable (∃ x ∈ rest, P x)] [Decidable (∃ x ∈ a :: rest, P x)] :
    (if ∃ x ∈ a :: rest, P x then u else v) = if ∃ x ∈ rest, P x then u else if P a then u else v := by
  by_cases later : ∃ x ∈ rest, P x
  · rw [if_pos later, if_pos ((List.exists_mem_cons_iff P a rest).mpr (Or.inr later))]
  · rw [if_neg later]
    refine if_congr ?_ rfl rfl
    rw [List.exists_mem_cons_iff]
    exact or_iff_left later

theorem roundAt_sound {file : File Inode} (sound : file.inode = i → ¬ file.leaks) (read old : Flags) :
    roundAt op requested i read file old =
      if file.inode = i ∧ file.succeeds then op.apply old requested else old := by
  unfold roundAt
  by_cases here : file.inode = i ∧ file.succeeds
  · rw [if_pos here, if_pos ⟨here.1, (writes_iff file).mpr (Or.inl here.2)⟩, got_of_succeeds here.2,
      if_neg Bool.false_ne_true]
  · rw [if_neg here]
    exact if_neg fun ⟨at_i, writes⟩ => here ⟨at_i, ((writes_iff file).mp writes).resolve_right (sound at_i)⟩

theorem roundsAt_sound {files : List (File Inode)}
    (sound : ∀ file ∈ files, file.inode = i → ¬ file.leaks) (n : Nat) (old : Flags) :
    roundsAt op requested i junk n files old =
      if ∃ file ∈ files, file.inode = i ∧ file.succeeds then op.apply old requested else old := by
  induction files generalizing n old with
  | nil => exact (if_neg fun ⟨_, member, _⟩ => List.not_mem_nil member).symm
  | cons file rest ih =>
    obtain ⟨own, others⟩ := List.forall_mem_cons.mp sound
    have again : op.apply (roundAt op requested i (junk n) file old) requested = op.apply old requested := by
      rw [roundAt_sound own]
      split
      · exact apply_twice ..
      · rfl
    rw [roundsAt, ih others, again, roundAt_sound own, ite_exists_mem_cons]

/-- With `=` it does not matter whether the flags have been got. -/
theorem roundsAt_set (files : List (File Inode)) (n : Nat) (old : Flags) :
    roundsAt .set requested i junk n files old =
      if ∃ file ∈ files, file.inode = i ∧ file.writes then requested else old := by
  induction files generalizing n old with
  | nil => exact (if_neg fun ⟨_, member, _⟩ => List.not_mem_nil member).symm
  | cons file rest ih =>
    rw [roundsAt, ih, ite_exists_mem_cons]
    rfl

/-- With `+` and `-` a bit that is not asked for is the one of `currentFlags`. -/
theorem roundAt_top (keeps : op ≠ .set) (clear : requested.getLsbD 31 = false) (file : File Inode)
    (other old : Flags) :
    (roundAt op requested i other file old).getLsbD 31 =
      if file.inode = i ∧ file.leaks then other.getLsbD 31 else old.getLsbD 31 := by
  unfold roundAt
  by_cases here : file.inode = i ∧ file.leaks
  · rw [if_pos here, if_pos ⟨here.1, (writes_iff file).mpr (Or.inr here.2)⟩, not_got_of_leaks here.2,
      if_pos rfl]
    exact apply_top keeps other clear
  · rw [if_neg here]
    split
    next writes =>
      have clean : file.succeeds :=
        ((writes_iff file).mp writes.2).resolve_right fun leaks => here ⟨writes.1, leaks⟩
      rw [got_of_succeeds clean, if_neg Bool.false_ne_true]
      exact apply_top keeps old clear
    next => rfl

theorem roundsAt_top (keeps : op ≠ .set) (clear : requested.getLsbD 31 = false) {other : Flags}
    (files : List (File Inode)) (n : Nat) (old : Flags) :
    (roundsAt op requested i (fun _ => other) n files old).getLsbD 31 =
      if ∃ file ∈ files, file.inode = i ∧ file.leaks then other.getLsbD 31 else old.getLsbD 31 := by
  induction files generalizing n old with
  | nil => exact (if_neg fun ⟨_, member, _⟩ => List.not_mem_nil member).symm
  | cons file rest ih => rw [roundsAt, ih, roundAt_top keeps clear, ite_exists_mem_cons]

end

/-! ### The program -/

variable {mode : Mode} {files : List (File Inode)} {fs : Inode → Flags}

theorem main_usage (bad : ¬ ((∀ a ∈ mode.attributes, a.Known) ∧ files ≠ [])) (junk : Nat → Flags) :
    main mode.argument files junk fs = usageErr { files := fs, errFnd := false, failed := [] } := by
  unfold main
  cases files with
  | nil => rfl
  | cons file rest =>
    have unknown : ¬ ∀ a ∈ mode.attributes, a.Known := fun known => bad ⟨known, List.cons_ne_nil file rest⟩
    dsimp only [List.isEmpty_cons]
    rw [if_neg Bool.false_ne_true]
    split
    · rfl
    · rw [Mode.argument, List.tail_cons, requestedFlags_unknown 0 unknown]

theorem main_known (fs : Inode → Flags) (known : ∀ a ∈ mode.attributes, a.Known) (some_file : files ≠ [])
    (junk : Nat → Flags) :
    ∃ t : Run Inode, Noted t ∧
      (∀ i, t.files i = roundsAt mode.operator mode.requested i junk 2 files (fs i)) ∧
      main mode.argument files junk fs =
        { t with status := if t.errFnd then EXIT_FAILURE else EXIT_SUCCESS } := by
  have noted : Noted { files := fs, errFnd := false, failed := [] } :=
    iff_of_false Bool.false_ne_true (fun some => some rfl)
  obtain ⟨t, ran, noted, each⟩ := changeFiles_ok mode.operator mode.requested junk 2 files noted
  refine ⟨t, noted, each, ?_⟩
  have long : mode.argument.length ≠ 1 := by
    rw [Mode.argument, List.length_cons, List.length_map]
    have letters := List.length_pos_iff.mpr mode.some_letter
    omega
  unfold main
  dsimp only
  rw [if_neg (mt List.isEmpty_iff.mp some_file), if_neg long, Mode.argument, List.tail_cons,
    requestedFlags_known 0 known, List.headD_cons]
  dsimp only
  rw [show mode.attributes.foldl (fun flags a => flags ||| a.flag) 0 = mode.requested from rfl, ran]

/-- What is in `currentFlags` where the flags of a file could not be got is written into the file, unless
they cannot be set either. With `=` the flags that were to be left alone are replaced. -/
theorem main_conforms_iff (mode : Mode) (files : List (File Inode)) (fs : Inode → Flags) :
    (∀ junk, Conforms mode files fs (main mode.argument files junk fs)) ↔
      (∀ a ∈ mode.attributes, a.Known) ∧ files ≠ [] ∧
      ∀ file ∈ files, file.leaks → mode.operator = .set ∧
        (fs file.inode = mode.requested ∨
          ∃ other ∈ files, other.inode = file.inode ∧ other.succeeds) := by
  constructor
  · intro conforms
    have good : (∀ a ∈ mode.attributes, a.Known) ∧ files ≠ [] := by
      by_contra bad
      have failure := (conforms fun _ => 0).failure
      rw [main_usage bad] at failure
      exact failure.mp rfl rfl
    refine ⟨good.1, good.2, fun file member leaks => ?_⟩
    by_cases set : mode.operator = .set
    · refine ⟨set, ?_⟩
      obtain ⟨t, _, each, ran⟩ := main_known fs good.1 good.2 fun _ => 0
      have changed := (conforms fun _ => 0).changed file.inode
      have written : ∃ other ∈ files, other.inode = file.inode ∧ other.writes :=
        ⟨file, member, rfl, (writes_iff file).mpr (Or.inr leaks)⟩
      rw [ran] at changed
      dsimp only at changed
      rw [each, set, roundsAt_set, if_pos written] at changed
      split at changed
      next done => exact Or.inr done
      next => exact Or.inl changed.symm
    · exfalso
      obtain ⟨t, _, each, ran⟩ := main_known fs good.1 good.2 fun _ => ~~~fs file.inode
      have changed := (conforms fun _ => ~~~fs file.inode).changed file.inode
      have leaked : ∃ other ∈ files, other.inode = file.inode ∧ other.leaks := ⟨file, member, rfl, leaks⟩
      have kept : ((if ∃ other ∈ files, other.inode = file.inode ∧ other.succeeds then
          mode.operator.apply (fs file.inode) mode.requested else fs file.inode).getLsbD 31) =
            (fs file.inode).getLsbD 31 := by
        split
        · exact apply_top set (fs file.inode) (requested_top mode)
        · rfl
      rw [ran] at changed
      dsimp only at changed
      rw [← changed, each, roundsAt_top set (requested_top mode), if_pos leaked, BitVec.getLsbD_not] at kept
      revert kept
      cases (fs file.inode).getLsbD 31 <;> decide
  · rintro ⟨known, some_file, harmless⟩ junk
    obtain ⟨t, noted, each, ran⟩ := main_known fs known some_file junk
    rw [ran]
    refine ⟨fun i => ?_, failure_iff noted⟩
    dsimp only
    rw [each i]
    by_cases leaked : ∃ file ∈ files, file.inode = i ∧ file.leaks
    · obtain ⟨file, member, rfl, leaks⟩ := leaked
      obtain ⟨set, same⟩ := harmless file member leaks
      have written : ∃ other ∈ files, other.inode = file.inode ∧ other.writes :=
        ⟨file, member, rfl, (writes_iff file).mpr (Or.inr leaks)⟩
      rw [set, roundsAt_set, if_pos written]
      split
      next => rfl
      next none_done => exact (same.resolve_right none_done).symm
    · refine roundsAt_sound (fun file member at_i leaks => ?_) 2 (fs i)
      exact leaked ⟨file, member, at_i, leaks⟩

/-- The second file, whose flags cannot be got, gets those of the first one. -/
theorem flags_of_other :
    ¬ ∀ (mode : Mode) (files : List (File Nat)) (junk : Nat → Flags) (fs : Nat → Flags),
      Conforms mode files fs (main mode.argument files junk fs) := by
  intro all
  have conforms := all ⟨.add, [.noDump], List.cons_ne_nil _ _⟩
    [⟨1, false, false, false⟩, ⟨2, false, true, false⟩] (fun _ => FS_NODUMP_FL ||| FS_APPEND_FL)
    (fun i => if i = 1 then FS_APPEND_FL else 0)
  exact absurd (conforms.changed 2) (by decide)

end Tlpi.Chattr
