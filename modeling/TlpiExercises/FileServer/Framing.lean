import TlpiExercises.FileServer.Server

/-!
# What the messages say of the file

The last block is laid over the block before it. A client cannot tell it from a longer one that
ends with what was there.
-/

namespace Tlpi.FileServer

/-- The reads of a regular file, each filling the field until the last one. -/
def blocks (file : List UInt8) : List (Option Chunk) :=
  if h : file = [] then []
  else
    some ⟨file.take DATA_SIZE, by simp [h, DATA_SIZE], List.length_take_le _ _⟩ ::
      blocks (file.drop DATA_SIZE)
termination_by file.length
decreasing_by
  have pos := List.length_pos_iff.mpr h
  rw [List.length_drop]
  unfold DATA_SIZE
  omega

/-- The messages for a readable file, when every send succeeds. -/
def responses (data : Data) (file : List UInt8) : List ResponseMsg :=
  serveRequest data ⟨true, true, blocks file, fun _ => true⟩

/-- The files are equal up to a last block, and the second goes on behind the first with the bytes
that the field holds there. The other bytes of the field are the same. -/
inductive Overlaid : List UInt8 → List UInt8 → List UInt8 → List UInt8 → Prop where
  | last {old₁ old₂ file₁ file₂ : List UInt8} : file₁ ≠ [] → file₁.length < file₂.length →
      file₂.length ≤ DATA_SIZE →
      file₂ = file₁ ++ (old₁.drop file₁.length).take (file₂.length - file₁.length) →
      old₁.drop file₂.length = old₂.drop file₂.length → Overlaid old₁ old₂ file₁ file₂
  | block {old₁ old₂ block file₁ file₂ : List UInt8} : block.length = DATA_SIZE →
      Overlaid block block file₁ file₂ → Overlaid old₁ old₂ (block ++ file₁) (block ++ file₂)

theorem transmit_sent (data : Data) (n m : Nat) (reads : List (Option Chunk)) :
    transmit (fun _ => true) data n reads = transmit (fun _ => true) data m reads := by
  induction reads generalizing data n m with
  | nil => rfl
  | cons result rest ih =>
    cases result with
    | none => rfl
    | some chunk =>
      simp only [transmit, if_true]
      rw [ih]

theorem responses_nil (data : Data) : responses data [] = [⟨RESP_MT_END, data⟩] := by
  simp [responses, serveRequest, blocks, transmit, send]

theorem responses_block (data : Data) {file : List UInt8} (some_byte : file ≠ []) :
    responses data file =
      ⟨RESP_MT_DATA, data.store (file.take DATA_SIZE) (List.length_take_le _ _)⟩ ::
        responses (data.store (file.take DATA_SIZE) (List.length_take_le _ _))
          (file.drop DATA_SIZE) := by
  unfold responses serveRequest
  rw [blocks, dif_neg some_byte]
  simp only [not_true_eq_false, if_false, transmit, if_true]
  rw [transmit_sent _ 1 0]

theorem store_whole (data : Data) {bytes : List UInt8} (whole : bytes.length = DATA_SIZE) :
    data.store bytes (Nat.le_of_eq whole) = ⟨bytes, whole⟩ := by
  apply Subtype.ext
  show bytes ++ data.1.drop bytes.length = bytes
  rw [List.drop_of_length_le (Nat.le_of_eq (data.2.trans whole.symm)), List.append_nil]

theorem store_block (data : Data) {file : List UInt8} (more : file.drop DATA_SIZE ≠ []) :
    (file.take DATA_SIZE).length = DATA_SIZE ∧
      (data.store (file.take DATA_SIZE) (List.length_take_le _ _)).1 = file.take DATA_SIZE := by
  have whole : (file.take DATA_SIZE).length = DATA_SIZE := by
    have pos := List.length_pos_iff.mpr more
    rw [List.length_drop] at pos
    rw [List.length_take]
    omega
  exact ⟨whole, congrArg Subtype.val (store_whole data whole)⟩

theorem overlaid_responses {old₁ old₂ file₁ file₂ : List UInt8} (overlaid : Overlaid old₁ old₂ file₁ file₂) :
    file₁ ≠ [] ∧ file₁.length < file₂.length ∧
      ∀ (h₁ : old₁.length = DATA_SIZE) (h₂ : old₂.length = DATA_SIZE),
        responses ⟨old₁, h₁⟩ file₁ = responses ⟨old₂, h₂⟩ file₂ := by
  induction overlaid with
  | @last old₁ old₂ file₁ file₂ some_byte shorter fits continued rest =>
    refine ⟨some_byte, shorter, fun h₁ h₂ => ?_⟩
    have some_byte₂ : file₂ ≠ [] := List.ne_nil_of_length_pos (by omega)
    have overlay : file₁ ++ old₁.drop file₁.length = file₂ ++ old₂.drop file₂.length := by
      have split := List.take_append_drop (file₂.length - file₁.length) (old₁.drop file₁.length)
      rw [List.drop_drop, Nat.add_sub_cancel' (Nat.le_of_lt shorter), rest] at split
      calc file₁ ++ old₁.drop file₁.length
          = file₁ ++ (old₁.drop file₁.length).take (file₂.length - file₁.length) ++
              old₂.drop file₂.length := by rw [List.append_assoc, split]
        _ = file₂ ++ old₂.drop file₂.length := by rw [← continued]
    have same : Data.store ⟨old₁, h₁⟩ (file₁.take DATA_SIZE) (List.length_take_le _ _) =
        Data.store ⟨old₂, h₂⟩ (file₂.take DATA_SIZE) (List.length_take_le _ _) := by
      apply Subtype.ext
      show file₁.take DATA_SIZE ++ old₁.drop (file₁.take DATA_SIZE).length =
        file₂.take DATA_SIZE ++ old₂.drop (file₂.take DATA_SIZE).length
      rw [List.take_of_length_le (by omega), List.take_of_length_le fits, overlay]
    rw [responses_block _ some_byte, responses_block _ some_byte₂, same,
      List.drop_of_length_le (by omega), List.drop_of_length_le fits]
  | @block old₁ old₂ block file₁ file₂ whole _ ih =>
    obtain ⟨some_byte, shorter, same⟩ := ih
    refine ⟨by simp [some_byte], by simpa using shorter, fun h₁ h₂ => ?_⟩
    have some_byte₂ : file₂ ≠ [] := List.ne_nil_of_length_pos (by omega)
    have first := responses_block ⟨old₁, h₁⟩ (List.append_ne_nil_of_right_ne_nil block some_byte)
    have second := responses_block ⟨old₂, h₂⟩ (List.append_ne_nil_of_right_ne_nil block some_byte₂)
    simp only [List.take_left' whole, List.drop_left' whole, store_whole _ whole] at first second
    rw [first, second, same whole whole]

theorem overlaid_of_over {old₁ old₂ file₁ file₂ : List UInt8} (some_byte : file₁ ≠ [])
    (shorter : file₁.length < file₂.length) (fits : file₂.length ≤ DATA_SIZE)
    (overlay : file₁ ++ old₁.drop file₁.length = file₂ ++ old₂.drop file₂.length) :
    Overlaid old₁ old₂ file₁ file₂ := by
  apply Overlaid.last some_byte shorter fits
  · have taken := congrArg (List.take file₂.length) overlay
    rw [List.take_left, List.take_append, List.take_of_length_le (Nat.le_of_lt shorter)] at taken
    exact taken.symm
  · have dropped := congrArg (List.drop file₂.length) overlay
    rw [List.drop_left, List.drop_append, List.drop_of_length_le (Nat.le_of_lt shorter), List.nil_append,
      List.drop_drop, Nat.add_sub_cancel' (Nat.le_of_lt shorter)] at dropped
    exact dropped

/-- The first blocks differ, and nothing comes behind them. -/
theorem overlaid_last {d₁ d₂ : Data} {file₁ file₂ : List UInt8} (some₁ : file₁ ≠ []) (some₂ : file₂ ≠ [])
    (field : d₁.store (file₁.take DATA_SIZE) (List.length_take_le _ _) =
      d₂.store (file₂.take DATA_SIZE) (List.length_take_le _ _))
    (last : file₁.drop DATA_SIZE = file₂.drop DATA_SIZE) (differ : file₁ ≠ file₂) :
    Overlaid d₁.1 d₂.1 file₁ file₂ ∨ Overlaid d₂.1 d₁.1 file₂ file₁ := by
  have final : file₁.drop DATA_SIZE = [] := by
    by_contra more
    have taken : file₁.take DATA_SIZE = file₂.take DATA_SIZE :=
      calc file₁.take DATA_SIZE
          = (d₁.store (file₁.take DATA_SIZE) (List.length_take_le _ _)).1 := (store_block d₁ more).2.symm
        _ = (d₂.store (file₂.take DATA_SIZE) (List.length_take_le _ _)).1 := congrArg Subtype.val field
        _ = file₂.take DATA_SIZE := (store_block d₂ (last ▸ more)).2
    apply differ
    rw [← List.take_append_drop DATA_SIZE file₁, taken, last, List.take_append_drop]
  have short₁ := List.drop_eq_nil_iff.mp final
  have short₂ := List.drop_eq_nil_iff.mp (last.symm.trans final)
  have overlay : file₁ ++ d₁.1.drop file₁.length = file₂ ++ d₂.1.drop file₂.length := by
    have bytes : file₁.take DATA_SIZE ++ d₁.1.drop (file₁.take DATA_SIZE).length =
        file₂.take DATA_SIZE ++ d₂.1.drop (file₂.take DATA_SIZE).length :=
      congrArg Subtype.val field
    rwa [List.take_of_length_le short₁, List.take_of_length_le short₂] at bytes
  rcases Nat.lt_trichotomy file₁.length file₂.length with shorter | equal | longer
  · exact Or.inl (overlaid_of_over some₁ shorter short₂ overlay)
  · exact absurd (List.append_inj_left overlay equal) differ
  · exact Or.inr (overlaid_of_over some₂ longer short₁ overlay.symm)

/-- The first blocks are the same, and whole. -/
theorem overlaid_block {d₁ d₂ : Data} {file₁ file₂ : List UInt8}
    (field : d₁.store (file₁.take DATA_SIZE) (List.length_take_le _ _) =
      d₂.store (file₂.take DATA_SIZE) (List.length_take_le _ _))
    (tails : Overlaid (d₁.store (file₁.take DATA_SIZE) (List.length_take_le _ _)).1
        (d₁.store (file₁.take DATA_SIZE) (List.length_take_le _ _)).1 (file₁.drop DATA_SIZE)
        (file₂.drop DATA_SIZE) ∨
      Overlaid (d₁.store (file₁.take DATA_SIZE) (List.length_take_le _ _)).1
        (d₁.store (file₁.take DATA_SIZE) (List.length_take_le _ _)).1 (file₂.drop DATA_SIZE)
        (file₁.drop DATA_SIZE)) :
    Overlaid d₁.1 d₂.1 file₁ file₂ ∨ Overlaid d₂.1 d₁.1 file₂ file₁ := by
  have more : file₁.drop DATA_SIZE ≠ [] ∧ file₂.drop DATA_SIZE ≠ [] := by
    rcases tails with tails | tails
    · obtain ⟨some₁, longer, _⟩ := overlaid_responses tails
      exact ⟨some₁, List.ne_nil_of_length_pos (by omega)⟩
    · obtain ⟨some₂, longer, _⟩ := overlaid_responses tails
      exact ⟨List.ne_nil_of_length_pos (by omega), some₂⟩
  obtain ⟨whole, block₁⟩ := store_block d₁ more.1
  have block₂ := (store_block d₂ more.2).2
  rw [← field, block₁] at block₂
  rw [block₁] at tails
  rw [← List.take_append_drop DATA_SIZE file₁, ← List.take_append_drop DATA_SIZE file₂, ← block₂]
  exact tails.imp (Overlaid.block whole) (Overlaid.block whole)

theorem responses_overlaid {d₁ d₂ : Data} {file₁ file₂ : List UInt8}
    (same : responses d₁ file₁ = responses d₂ file₂) (differ : file₁ ≠ file₂) :
    Overlaid d₁.1 d₂.1 file₁ file₂ ∨ Overlaid d₂.1 d₁.1 file₂ file₁ := by
  induction length : file₁.length using Nat.strongRecOn generalizing d₁ d₂ file₁ file₂ with
  | ind n ih =>
    by_cases some_byte₁ : file₁ = []
    · by_cases some_byte₂ : file₂ = []
      · exact absurd (some_byte₁.trans some_byte₂.symm) differ
      · rw [some_byte₁, responses_nil, responses_block _ some_byte₂] at same
        cases congrArg ResponseMsg.mtype (List.cons.inj same).1
    · by_cases some_byte₂ : file₂ = []
      · rw [some_byte₂, responses_nil, responses_block _ some_byte₁] at same
        cases congrArg ResponseMsg.mtype (List.cons.inj same).1
      · rw [responses_block _ some_byte₁, responses_block _ some_byte₂] at same
        obtain ⟨first, rest⟩ := List.cons.inj same
        have field : d₁.store (file₁.take DATA_SIZE) (List.length_take_le _ _) =
            d₂.store (file₂.take DATA_SIZE) (List.length_take_le _ _) :=
          congrArg ResponseMsg.data first
        rw [← field] at rest
        by_cases last : file₁.drop DATA_SIZE = file₂.drop DATA_SIZE
        · exact overlaid_last some_byte₁ some_byte₂ field last differ
        · have shorter : (file₁.drop DATA_SIZE).length < n := by
            have pos := List.length_pos_iff.mpr some_byte₁
            rw [List.length_drop, ← length]
            unfold DATA_SIZE
            omega
          exact overlaid_block field (ih _ shorter rest last rfl)

/-- The messages for two files determine them exactly when neither file is the other one, continued
by the bytes that are in the field already. -/
theorem responses_determine_iff (d₁ d₂ : Data) (file₁ file₂ : List UInt8) :
    (responses d₁ file₁ = responses d₂ file₂ → file₁ = file₂) ↔
      ¬ Overlaid d₁.1 d₂.1 file₁ file₂ ∧ ¬ Overlaid d₂.1 d₁.1 file₂ file₁ := by
  constructor
  · intro determined
    constructor
    · intro overlaid
      obtain ⟨_, shorter, same⟩ := overlaid_responses overlaid
      rw [determined (same d₁.2 d₂.2)] at shorter
      exact Nat.lt_irrefl _ shorter
    · intro overlaid
      obtain ⟨_, shorter, same⟩ := overlaid_responses overlaid
      rw [determined (same d₂.2 d₁.2).symm] at shorter
      exact Nat.lt_irrefl _ shorter
  · rintro ⟨left, right⟩ same
    by_contra differ
    exact (responses_overlaid same differ).elim left right

def block : List UInt8 := List.replicate DATA_SIZE 120

/-- 4097 bytes and 4098 bytes, all the same. -/
theorem length_not_determined :
    ¬ ∀ (d₁ d₂ : Data) (file₁ file₂ : List UInt8),
      responses d₁ file₁ = responses d₂ file₂ → file₁ = file₂ := by
  intro all
  have whole : block.length = DATA_SIZE := List.length_replicate
  have stale (k : Nat) : block.drop k = List.replicate (DATA_SIZE - k) 120 := List.drop_replicate
  have overlaid : Overlaid block block (block ++ [120]) (block ++ [120, 120]) := by
    apply Overlaid.block whole
    apply Overlaid.last (by decide) (by decide) (by decide)
    · rw [stale, List.take_replicate]
      rfl
    · rfl
  obtain ⟨_, _, same⟩ := overlaid_responses overlaid
  have files := all ⟨block, whole⟩ ⟨block, whole⟩ _ _ (same whole whole)
  exact absurd (List.append_cancel_left files) (by decide)

end Tlpi.FileServer
