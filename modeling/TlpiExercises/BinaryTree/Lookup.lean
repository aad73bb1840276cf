import TlpiExercises.BinaryTree.Operations

/-!
# bt_lookup

`bt_find_node` answers NULL for an absent key, and `bt_lookup` dereferences that answer before
it looks at it. The trees here are those of any calls, also calls whose allocations failed.
-/

namespace Tlpi.BinaryTree

open LinkTree

variable {V : Type}

/-- The trees that returning calls of `bt_add` and `bt_delete` build. -/
inductive Reachable : BTree V → Prop where
  | initial : Reachable btInitialize
  | add {tree tree' : BTree V} {m : Mallocs} {key : CStr} {value : V} {status : Status}
      (before : Reachable tree) (call : btAdd m tree key value = .ok (status, tree')) :
      Reachable tree'
  | delete {tree tree' : BTree V} {key : CStr} {status : Status}
      (before : Reachable tree) (call : btDelete tree key = .ok (status, tree')) :
      Reachable tree'

theorem reachable_sound {tree : BTree V} (reachable : Reachable tree) : Sound tree.root := by
  induction reachable with
  | initial => exact sound_null
  | add _ call ih => exact btAdd_sound ih call
  | delete _ call ih => exact btDelete_sound ih call

/-- What a caller expects: the bound value, or -1 and an untouched `*value`. -/
structure LookupCorrect (tree : BTree V) (key : CStr) : Prop where
  present : ∀ v, (key, v) ∈ tree.root.entries → ∀ old, btLookup tree key old = .ok (.success, v)
  absent : key ∉ tree.root.keys → ∀ old,
    ∃ errno, btLookup tree key old = .ok (.failure errno, old)

theorem btLookup_empty (key : CStr) (old : V) {tree : BTree V} (empty : tree.root = .null) :
    btLookup tree key old = .ok (.failure none, old) := by
  simp [btLookup, empty]

theorem btLookup_present {tree : BTree V} {key : CStr} {v : V} (sound : Sound tree.root)
    (bound : (key, v) ∈ tree.root.entries) (old : V) :
    btLookup tree key old = .ok (.success, v) := by
  have member := mem_keys.mpr ⟨v, bound⟩
  have nonempty : tree.root ≠ .null := by
    intro empty
    rw [empty] at member
    simp at member
  have notNull : ¬ tree.root.isNull = true := by simpa [isNull_iff] using nonempty
  rcases btFindNode_cases key sound.ordered nonempty with
    ⟨slot, l, r, w, call, path, found⟩ | ⟨absent, _⟩ | ⟨absent, _, _⟩
  · have stored : (key, w) ∈ tree.root.entries := by
      obtain ⟨before, after, all, _, _, _⟩ := context sound.ordered path found
      rw [all]
      simp [entries]
    have same : w = v := sound.ordered.functional stored bound
    simp only [btLookup, if_neg notNull, call, ok_bind, fromPointer_some, found, same]
    rfl
  · exact absurd member absent
  · exact absurd member absent

/-- An absent key in a non-empty tree makes `bt_lookup` follow a NULL pointer. -/
theorem btLookup_absent {tree : BTree V} {key : CStr} (sound : Sound tree.root)
    (nonempty : tree.root ≠ .null) (absent : key ∉ tree.root.keys) (old : V) :
    btLookup tree key old = .error .nullDereference := by
  have notNull : ¬ tree.root.isNull = true := by simpa [isNull_iff] using nonempty
  rcases btFindNode_cases key sound.ordered nonempty with
    ⟨slot, l, r, w, _, path, found⟩ | ⟨_, call⟩ | ⟨_, _, call⟩
  · exact absurd (found_mem_keys sound.ordered path found) absent
  · simp only [btLookup, if_neg notNull, call]
    rfl
  · simp only [btLookup, if_neg notNull, call]
    rfl

/-- `bt_lookup` does what is expected of it exactly on the empty tree and for keys in the tree. -/
theorem lookupCorrect_iff {tree : BTree V} (reachable : Reachable tree) (key : CStr) :
    LookupCorrect tree key ↔ tree.root = .null ∨ key ∈ tree.root.keys := by
  have sound := reachable_sound reachable
  constructor
  · intro correct
    by_contra neither
    obtain ⟨nonempty, absent⟩ := not_or.mp neither
    obtain ⟨v⟩ : Nonempty V := by
      cases root : tree.root with
      | null => exact absurd root nonempty
      | node _ _ _ value => exact ⟨value⟩
    obtain ⟨errno, call⟩ := correct.absent absent v
    rw [btLookup_absent sound nonempty absent v] at call
    cases call
  · rintro (empty | present)
    · refine ⟨fun v bound => ?_, fun _ old => ⟨none, btLookup_empty key old empty⟩⟩
      rw [empty] at bound
      simp at bound
    · exact ⟨fun v bound old => btLookup_present sound bound old,
        fun absent => absurd present absent⟩

def sampleTree : BTree Nat := ⟨.node .null .null (some (.ofBytes [97])) 7⟩

theorem sampleTree_reachable : Reachable sampleTree :=
  have call : btAdd .succeed btInitialize (.ofBytes [97]) 7 = .ok (.success, sampleTree) := rfl
  .add .initial call

theorem lookupCorrect_iff_sample :
    LookupCorrect sampleTree (.ofBytes [97]) ↔
      sampleTree.root = .null ∨ CStr.ofBytes [97] ∈ sampleTree.root.keys :=
  lookupCorrect_iff sampleTree_reachable (.ofBytes [97])

theorem lookup_absent_fails :
    ¬ ∀ tree : BTree Nat, Reachable tree → ∀ key, LookupCorrect tree key := by
  intro all
  have correct := all sampleTree sampleTree_reachable (.ofBytes [98])
  obtain ⟨errno, call⟩ := correct.absent (by decide) 0
  have fault : btLookup sampleTree (.ofBytes [98]) 0 = .error .nullDereference := rfl
  rw [fault] at call
  cases call

end Tlpi.BinaryTree
