import TlpiExercises.C.Fault
import TlpiExercises.Setenv.Unset

/-!
# Where setenv_clone and unsetenv_clone write

The block of `setenv_clone` has one byte for `=` and the NUL together.
-/

namespace Tlpi.Setenv

open Loop

variable {name value : CStr} {environ : Cells} {block copy source : List Byte} {offset : Int}

/-- What a copy that stays inside of its block needs. -/
theorem strcpyAt_ok (call : strcpyAt block offset source = .ok copy) :
    0 ≤ offset ∧ offset + source.length + 1 ≤ block.length ∧ copy.length = block.length := by
  unfold strcpyAt at call
  by_cases negative : offset < 0
  · rw [if_pos negative] at call
    cases call
  rw [if_neg negative] at call
  cases written : Buffer.write block offset.toNat (source ++ [0]) with
  | none =>
    rw [written] at call
    cases call
  | some _ =>
    rw [written] at call
    cases call
    have room := Buffer.write_room written
    rw [List.length_append, List.length_singleton] at room
    exact ⟨by omega, by omega, Buffer.write_length written⟩

theorem mallocFor_ok {nameLength valueLength : Int} {junk : Nat → Byte}
    (call : mallocFor nameLength valueLength junk = .ok block)
    (size : 0 ≤ nameLength + valueLength + 1) :
    (block.length : Int) = nameLength + valueLength + 1 := by
  unfold mallocFor at call
  by_cases large : nameLength + valueLength + 1 < INT_MIN ∨ INT_MAX < nameLength + valueLength + 1
  · rw [if_pos large] at call
    cases call
  rw [if_neg large] at call
  split at call
  · cases call
  · cases call
    rw [List.length_map, List.length_range, INT_MAX] at *
    omega

theorem mallocFor_negative {nameLength valueLength : Int} (junk : Nat → Byte)
    (size : nameLength + valueLength + 1 < 0) :
    ∃ undefined, mallocFor nameLength valueLength junk = .error undefined := by
  unfold mallocFor
  by_cases large : nameLength + valueLength + 1 < INT_MIN ∨ INT_MAX < nameLength + valueLength + 1
  · exact ⟨_, if_pos large⟩
  rw [if_neg large]
  refine ⟨_, if_pos ?_⟩
  unfold INT_MIN at large
  unfold PTRDIFF_MAX
  omega

/-- The NUL behind the value never has room. -/
theorem setenvClone_overruns {overwrite : Int} {junk : Nat → Byte}
    (added : ¬ ((getenv environ name).isSome ∧ overwrite = 0)) (result : List CStr) :
    setenvClone environ name value overwrite junk ≠ .ok result := by
  intro call
  unfold setenvClone at call
  rw [if_neg added] at call
  obtain ⟨buf, allocated, call⟩ := bind_ok call
  obtain ⟨first, written, call⟩ := bind_ok call
  obtain ⟨second, marked, call⟩ := bind_ok call
  obtain ⟨third, ended, _⟩ := bind_ok call
  obtain ⟨_, _, one⟩ := strcpyAt_ok written
  obtain ⟨_, _, two⟩ := strcpyAt_ok marked
  obtain ⟨_, room, _⟩ := strcpyAt_ok ended
  have length : toInt value.length ≤ value.bytes.length := toInt_le value.length
  by_cases size : 0 ≤ toInt name.length + toInt value.length + 1
  · have block := mallocFor_ok allocated size
    omega
  · obtain ⟨undefined, fails⟩ := mallocFor_negative junk (Int.not_le.mp size)
    rw [fails] at allocated
    cases allocated

/-- Every copy that the two calls make has room where it goes. -/
def Inside (name value : CStr) (overwrite : Int) (list : List CStr) (tail : Cells)
    (junk : Nat → Byte) : Prop :=
  (∃ result, setenvClone (memory list tail) name value overwrite junk = .ok result) ∧
    ∃ fuel cells, unsetenvClone name fuel (some (memory list tail)) = some (.ok cells)

theorem unset_ends_iff {list : List CStr} (tail : Cells)
    (named : ∀ entry ∈ list, equals ∈ entry.bytes) :
    (∃ fuel cells, unsetenvClone name fuel (some (memory list tail)) = some (.ok cells)) ↔
      Countable name list := by
  rw [← unsets_countable tail named]
  constructor
  · rintro ⟨fuel, cells, call⟩
    rcases unset_cases name list tail named with ⟨countable, _⟩ | ⟨_, more, undefined, fails⟩
    · exact (unsets_countable tail named).mpr countable
    obtain ⟨ending, ended, result⟩ := Option.map_eq_some_iff.mp call
    obtain rfl := loop_unique ended fails
    cases result
  · rintro ⟨fuel, cells, call, _⟩
    exact ⟨fuel, some cells, call⟩

/-- `setenv_clone` stays inside only where it leaves the entry as it is. -/
theorem inside_iff (name value : CStr) (overwrite : Int) (list : List CStr) (tail : Cells)
    (junk : Nat → Byte) (named : ∀ entry ∈ list, equals ∈ entry.bytes) :
    Inside name value overwrite list tail junk ↔
      ((getenv (memory list tail) name).isSome ∧ overwrite = 0) ∧
      (∀ entry ∈ list, (nameOf entry.bytes).length < BUF_SIZE) ∧
      ((list.length : Int) ≤ INT_MAX ∨
        (list.length = INT_MAX + 1 ∧ ∃ entry ∈ list, nameOf entry.bytes = name.bytes)) := by
  have inside : Inside name value overwrite list tail junk ↔
      ((getenv (memory list tail) name).isSome ∧ overwrite = 0) ∧ Countable name list := by
    unfold Inside
    rw [unset_ends_iff tail named]
    refine and_congr_left fun _ => ⟨?_, fun kept => ⟨_, if_pos kept⟩⟩
    rintro ⟨result, call⟩
    by_contra added
    exact setenvClone_overruns added result call
  exact inside.trans (and_congr_right fun _ => countable_iff)

/-- `a=1` is there already. -/
theorem inside_kept : Inside ⟨[97], by decide⟩ ⟨[50], by decide⟩ 0 [⟨[97, 61, 49], by decide⟩] []
    (fun _ => 0) :=
  (inside_iff _ _ _ _ _ _ (by decide)).mpr ⟨by decide, by decide, Or.inl (by decide)⟩

/-- `a` with the value `2` in an empty environment: three bytes are allocated, and four written. -/
theorem one_byte_short : ¬ ∀ (name value : CStr) (overwrite : Int) (list : List CStr) (tail : Cells)
    (junk : Nat → Byte), (∀ entry ∈ list, equals ∈ entry.bytes) →
      Inside name value overwrite list tail junk := by
  intro all
  obtain ⟨⟨result, call⟩, _⟩ := all ⟨[97], by decide⟩ ⟨[50], by decide⟩ 0 [] [] (fun _ => 0)
    (fun _ member => by cases member)
  exact setenvClone_overruns (by decide) result call

end Tlpi.Setenv
