import TlpiExercises.Library.Fields
import TlpiExercises.ListPid.Model

/-!
# The field and the value of a line

What `getField` and `getValue` return, and for which lines they stay inside the line and inside their
buffers. Both are called for lines as they come from the file.
-/

namespace Tlpi.ListPid

open Fields

/-- What stands between the first tab and the next one, or the end. -/
def valuePart (line : CStr) : List UInt8 := before TAB (after TAB line.bytes).tail

/-- What is asked of both functions for a line. -/
structure Parses (line : CStr) : Prop where
  fieldInside : ∃ field, getField line = .ok field
  valueInside : ∃ value, getValue line = .ok value
  parts : ∀ field value : CStr, COLON ∉ field.bytes → TAB ∉ field.bytes → TAB ∉ value.bytes →
    field.length < STATIC_SIZE → value.length < STATIC_SIZE →
    line.bytes = field.bytes ++ COLON :: TAB :: value.bytes →
    getField line = .ok field ∧ getValue line = .ok value

/-! ### The copies -/

theorem getCharIndex_eq (line : List UInt8) (target : UInt8) :
    getCharIndex line target = (before target line).length := by
  induction line with
  | nil => rfl
  | cons c line ih =>
    by_cases here : c = target
    · rw [getCharIndex, if_pos here, here, before_sep]
      rfl
    · rw [getCharIndex, if_neg here, before_cons here, ih, List.length_cons]

theorem before_eq_take (line : List UInt8) (target : UInt8) :
    line.take (getCharIndex line target) = before target line := by
  have whole : (before target line ++ after target line).take (before target line).length =
      before target line := List.take_left
  rwa [before_append_after, ← getCharIndex_eq] at whole

theorem after_eq_drop (line : List UInt8) (target : UInt8) :
    line.drop (getCharIndex line target + 1) = (after target line).tail := by
  have whole : (before target line ++ after target line).drop (before target line).length =
      after target line := List.drop_left
  rw [before_append_after, ← getCharIndex_eq] at whole
  rw [← whole, List.tail_drop]

theorem copyField_eq (field rest : List UInt8) :
    copyField field rest =
      if (field ++ rest).length < STATIC_SIZE then .ok (.ofBytes (field ++ rest))
      else .error .outOfBounds := by
  induction rest generalizing field with
  | nil => rw [copyField, terminate, List.append_nil]
  | cons c rest ih =>
    rw [copyField, putChar]
    by_cases room : field.length < STATIC_SIZE
    · rw [if_pos room, ok_bind, ih, List.append_assoc, List.singleton_append]
    · have full : ¬ (field ++ c :: rest).length < STATIC_SIZE := by
        rw [List.length_append]
        omega
      rw [if_neg room, if_neg full, error_bind]

theorem copyValue_eq (value rest : List UInt8) :
    copyValue value rest = copyField value (before TAB rest) := by
  induction rest generalizing value with
  | nil => rfl
  | cons c rest ih =>
    by_cases tab : c = TAB
    · rw [copyValue, if_pos tab, tab, before_sep, copyField]
    · rw [copyValue, if_neg tab, before_cons tab, copyField]
      simp only [ih]

theorem getField_eq (line : CStr) :
    getField line =
      if (before COLON line.bytes).length < STATIC_SIZE then .ok (.ofBytes (before COLON line.bytes))
      else .error .outOfBounds := by
  rw [getField, before_eq_take, copyField_eq, List.nil_append]

/-- The search reports the length of the line exactly when there is no tab. -/
theorem startIndex_inside (line : CStr) :
    getCharIndex line.bytes TAB + 1 ≤ line.length ↔ TAB ∈ line.bytes := by
  have parts : before TAB line.bytes ++ after TAB line.bytes = line.bytes := before_append_after _
  rw [getCharIndex_eq, CStr.length]
  constructor
  · intro inside
    cases rest : after TAB line.bytes with
    | nil =>
      rw [rest, List.append_nil] at parts
      rw [parts] at inside
      omega
    | cons c rest' =>
      rw [rest, after_head rest] at parts
      rw [← parts]
      exact List.mem_append_right _ List.mem_cons_self
  · intro member
    have shorter : before TAB line.bytes ≠ line.bytes := by
      intro same
      exact before_free line.bytes (same ▸ member)
    have length := congrArg List.length parts
    rw [List.length_append] at length
    have rest : (after TAB line.bytes).length ≠ 0 := by
      intro none
      rw [List.length_eq_zero_iff.mp none, List.append_nil] at parts
      exact shorter parts
    omega

theorem getValue_eq (line : CStr) :
    getValue line =
      if TAB ∈ line.bytes ∧ (valuePart line).length < STATIC_SIZE then .ok (.ofBytes (valuePart line))
      else .error .outOfBounds := by
  rw [getValue]
  by_cases tab : TAB ∈ line.bytes
  · rw [if_pos ((startIndex_inside line).mpr tab), after_eq_drop, copyValue_eq, copyField_eq,
      List.nil_append]
    simp only [tab, true_and, valuePart]
  · rw [if_neg ((startIndex_inside line).not.mpr tab), if_neg (fun both => tab both.1)]

/-! ### Both functions -/

/-- A line with both delimiters is taken apart. -/
theorem parts_of_line {line field value : CStr} (noColon : COLON ∉ field.bytes)
    (noTab : TAB ∉ field.bytes) (single : TAB ∉ value.bytes) (shortField : field.length < STATIC_SIZE)
    (shortValue : value.length < STATIC_SIZE)
    (split : line.bytes = field.bytes ++ COLON :: TAB :: value.bytes) :
    getField line = .ok field ∧ getValue line = .ok value := by
  have fieldBytes : before COLON line.bytes = field.bytes := by
    rw [split]
    exact before_append noColon _
  have front : TAB ∉ field.bytes ++ [COLON] := by
    rw [List.mem_append, List.mem_singleton, not_or]
    exact ⟨noTab, by decide⟩
  have tabbed : line.bytes = (field.bytes ++ [COLON]) ++ TAB :: value.bytes := by
    rw [split, List.append_assoc, List.singleton_append]
  have valueBytes : valuePart line = value.bytes := by
    rw [valuePart, tabbed, after_append front, List.tail_cons, before_eq_self single]
  have tab : TAB ∈ line.bytes := by
    rw [tabbed]
    exact List.mem_append_right _ List.mem_cons_self
  constructor
  · rw [getField_eq, fieldBytes, if_pos (show field.bytes.length < STATIC_SIZE from shortField),
      CStr.ofBytes_bytes]
  · rw [getValue_eq, valueBytes, if_pos ⟨tab, shortValue⟩, CStr.ofBytes_bytes]

theorem getField_ok_iff (line : CStr) :
    (∃ field, getField line = .ok field) ↔ (before COLON line.bytes).length < STATIC_SIZE := by
  rw [getField_eq]
  split
  · rename_i short
    exact iff_of_true ⟨_, rfl⟩ short
  · rename_i long
    refine iff_of_false ?_ long
    rintro ⟨field, call⟩
    cases call

theorem getValue_ok_iff (line : CStr) :
    (∃ value, getValue line = .ok value) ↔
      TAB ∈ line.bytes ∧ (valuePart line).length < STATIC_SIZE := by
  rw [getValue_eq]
  split
  · rename_i short
    exact iff_of_true ⟨_, rfl⟩ short
  · rename_i long
    refine iff_of_false ?_ long
    rintro ⟨value, call⟩
    cases call

/-- The functions do what is asked of them for the lines with a tab whose field and value fit. -/
theorem parses_iff (line : CStr) :
    Parses line ↔ (before COLON line.bytes).length < STATIC_SIZE ∧ TAB ∈ line.bytes ∧
      (valuePart line).length < STATIC_SIZE := by
  constructor
  · intro parses
    exact ⟨(getField_ok_iff line).mp parses.fieldInside, (getValue_ok_iff line).mp parses.valueInside⟩
  · rintro ⟨field, value⟩
    exact ⟨(getField_ok_iff line).mpr field, (getValue_ok_iff line).mpr value,
      fun _ _ => parts_of_line⟩

/-- The line `Uid:`, cut off before its tab. -/
theorem getValue_cut_off : ¬ ∀ line : CStr, Parses line := by
  intro all
  have tabbed := (getValue_ok_iff _).mp (all (.ofBytes [85, 105, 100, 58])).valueInside
  exact absurd tabbed.1 (by decide)

end Tlpi.ListPid
