import TlpiExercises.BinaryTree.FiniteMap
import TlpiExercises.BinaryTree.Lookup
import TlpiExercises.NameValue.Server

/-!
# A tree of buffers

Each of the two trees binds keys to strings: a node points to the buffer that holds the string.
-/

namespace Tlpi.NameValue

open Tlpi.BinaryTree LinkTree

structure Holds (heap : Heap) (tree : BTree Pointer) (bound : CStr → Option CStr) : Prop where
  wellFormed : WellFormed tree
  short : ∀ key ∈ tree.root.keys, key.length < MAX_KEY
  stored : ∀ key p, (key, p) ∈ tree.root.entries →
    ∃ text, bound key = some text ∧ heap[p]? = some (some text)
  present : ∀ key text, bound key = some text → key ∈ tree.root.keys

theorem holds_empty (heap : Heap) : Holds heap btInitialize (fun _ => none) where
  wellFormed := wellFormed_initial
  short := by simp [btInitialize]
  stored := by simp [btInitialize]
  present := by simp

section Holds

variable {heap : Heap} {tree : BTree Pointer} {bound : CStr → Option CStr}

theorem Holds.entry (holds : Holds heap tree bound) {key text : CStr}
    (h : bound key = some text) :
    ∃ p, (key, p) ∈ tree.root.entries ∧ heap[p]? = some (some text) := by
  obtain ⟨p, entry⟩ := mem_keys.mp (holds.present key text h)
  obtain ⟨text', same, content⟩ := holds.stored key p entry
  rw [h] at same
  obtain rfl := Option.some.inj same
  exact ⟨p, entry, content⟩

theorem Holds.absent (holds : Holds heap tree bound) {key : CStr} (h : bound key = none) :
    key ∉ tree.root.keys := by
  intro member
  obtain ⟨p, entry⟩ := mem_keys.mp member
  obtain ⟨text, same, _⟩ := holds.stored key p entry
  rw [h] at same
  cases same

theorem Holds.mem_keys_iff (holds : Holds heap tree bound) (key : CStr) :
    key ∈ tree.root.keys ↔ ∃ text, bound key = some text := by
  constructor
  · intro member
    obtain ⟨p, entry⟩ := mem_keys.mp member
    obtain ⟨text, same, _⟩ := holds.stored key p entry
    exact ⟨text, same⟩
  · rintro ⟨text, h⟩
    exact holds.present key text h

theorem Holds.binds_iff (holds : Holds heap tree bound) (key text : CStr) :
    (∃ p, (key, p) ∈ tree.root.entries ∧ heap[p]? = some (some text)) ↔ bound key = some text := by
  constructor
  · rintro ⟨p, entry, content⟩
    obtain ⟨text', same, content'⟩ := holds.stored key p entry
    rw [content] at content'
    rw [same, Option.some.inj (Option.some.inj content')]
  · exact holds.entry

theorem Holds.empty (holds : Holds heap tree bound) (none_bound : ∀ key, bound key = none) :
    tree.root = .null := by
  cases root : tree.root with
  | null => rfl
  | node left right nodeKey p =>
    have complete := holds.wellFormed.complete
    rw [root] at complete
    obtain ⟨key, rfl⟩ := Option.isSome_iff_exists.mp complete.1
    apply absurd _ (holds.absent (none_bound key))
    rw [root]
    simp

theorem Holds.frame {heap' : Heap} (holds : Holds heap tree bound)
    (same : ∀ key p, (key, p) ∈ tree.root.entries → heap'[p]? = heap[p]?) :
    Holds heap' tree bound where
  wellFormed := holds.wellFormed
  short := holds.short
  stored := by
    intro key p entry
    rw [same key p entry]
    exact holds.stored key p entry
  present := holds.present

theorem Holds.inHeap (holds : Holds heap tree bound) {key : CStr} {p : Pointer}
    (entry : (key, p) ∈ tree.root.entries) : p < heap.length := by
  obtain ⟨text, _, content⟩ := holds.stored key p entry
  exact (List.getElem?_eq_some_iff.mp content).1

theorem Holds.allocate (holds : Holds heap tree bound) (buffer : Option CStr) :
    Holds (heap ++ [buffer]) tree bound := by
  apply holds.frame
  intro key p entry
  exact List.getElem?_append_left (holds.inHeap entry)

/-! ### Tree calls -/

theorem comparesInside_short {V : Type} (key : CharArray MAX_KEY) {node : BTNode V}
    (short : ∀ nodeKey ∈ node.keys, nodeKey.length < MAX_KEY) : comparesInside key node = true := by
  induction node with
  | null => rfl
  | node left right nodeKey value ihl ihr =>
    cases nodeKey with
    | none => rfl
    | some nodeKey =>
      simp only [keys_node_some, List.mem_append, List.mem_cons] at short
      have here := CharArray.not_isPrefixOf key (short nodeKey (Or.inr (Or.inl rfl)))
      have goLeft := ihl (fun k member => short k (Or.inl member))
      have goRight := ihr (fun k member => short k (Or.inr (Or.inr member)))
      rw [comparesInside, here, goLeft, goRight]
      simp

theorem Holds.withKey {α : Type} (holds : Holds heap tree bound) (key : CharArray MAX_KEY)
    (call : CStr → Except Fault α) : withKey tree key call = call key.text := by
  rw [NameValue.withKey, if_pos (comparesInside_short key holds.short)]

theorem Holds.lookup_bound (holds : Holds heap tree bound) {key : CharArray MAX_KEY} {text : CStr}
    (h : bound key.text = some text) (old : Pointer) :
    ∃ p, NameValue.withKey tree key (btLookup tree · old) = .ok (.success, p) ∧
      (key.text, p) ∈ tree.root.entries ∧ heap.string p = .ok text := by
  obtain ⟨p, entry, content⟩ := holds.entry h
  refine ⟨p, ?_, entry, by rw [Heap.string, content]⟩
  rw [holds.withKey]
  exact btLookup_present holds.wellFormed.sound entry old

theorem Holds.lookup_empty (holds : Holds heap tree bound) (none_bound : ∀ key, bound key = none)
    (key : CharArray MAX_KEY) (old : Pointer) :
    NameValue.withKey tree key (btLookup tree · old) = .ok (.failure none, old) := by
  rw [holds.withKey]
  exact btLookup_empty key.text old (holds.empty none_bound)

theorem Holds.addKey_bound (holds : Holds heap tree bound) {key : CharArray MAX_KEY} {text : CStr}
    (h : bound key.text = some text) (m : Mallocs) (p : Pointer) :
    addKey m tree key p = .ok (.failure (some .EINVAL), tree) := by
  have member := holds.present _ _ h
  have sound := holds.wellFormed.sound
  have call : btAdd m tree key.text p = .ok (.failure (some .EINVAL), tree) := by
    rcases btAdd_cases m key.text p sound.ordered with
      ⟨_, call⟩ | ⟨slot, path, free, _⟩ | ⟨absent, _, _⟩
    · exact call
    · exact absurd ((mem_keys_of_onPath sound.ordered path free).mp member) (by simp)
    · exact absurd member absent
  rw [addKey, holds.withKey, call]
  rfl

theorem Holds.addKey_absent (holds : Holds heap tree bound) {key : CharArray MAX_KEY}
    {p : Pointer} {text : CStr} (h : bound key.text = none) (terminated : key.terminated = true)
    (content : heap[p]? = some (some text)) :
    ∃ tree', addKey .succeed tree key p = .ok (.success, tree') ∧
      Holds heap tree' (Function.update bound key.text (some text)) ∧
      ∀ e, e ∈ tree'.root.entries ↔ e = (key.text, p) ∨ e ∈ tree.root.entries := by
  have length := CharArray.text_length terminated
  have absent := holds.absent h
  have limit : MAX_KEY ≤ BT_KEY_MAX + 1 := by decide
  have fits : key.text.length ≤ BT_KEY_MAX := Nat.le_of_lt_succ (length.trans_le limit)
  obtain ⟨root, call, complete, entries⟩ :=
    btAdd_absent p holds.wellFormed.sound holds.wellFormed.complete absent fits
  have keys (k : CStr) : k ∈ root.keys ↔ k = key.text ∨ k ∈ tree.root.keys := by
    simp [mem_keys, entries, exists_or]
  refine ⟨⟨root⟩, ?_, ?_, entries⟩
  · rw [addKey, holds.withKey, call]
    simp [terminated]
  · constructor
    case wellFormed => exact ⟨btAdd_sound holds.wellFormed.sound call, complete⟩
    case short =>
      intro k member
      rcases (keys k).mp member with rfl | old
      · exact length
      · exact holds.short k old
    case stored =>
      intro k q entry
      rcases (entries (k, q)).mp entry with new | old
      · obtain ⟨rfl, rfl⟩ := Prod.mk.inj new
        exact ⟨text, Function.update_self _ _ _, content⟩
      · have different : k ≠ key.text := by
          intro same
          exact absent (mem_keys.mpr ⟨q, same ▸ old⟩)
        rw [Function.update_of_ne different]
        exact holds.stored k q old
    case present =>
      intro k text' bound'
      rw [keys]
      by_cases same : k = key.text
      · exact Or.inl same
      · rw [Function.update_of_ne same] at bound'
        exact Or.inr (holds.present k text' bound')

theorem Holds.delete_bound (holds : Holds heap tree bound) {key : CharArray MAX_KEY} {text : CStr}
    (h : bound key.text = some text) :
    ∃ tree', NameValue.withKey tree key (btDelete tree ·) = .ok (.success, tree') ∧
      Holds heap tree' (Function.update bound key.text none) := by
  have member := holds.present _ _ h
  rw [holds.withKey]
  rcases btDelete_cases key.text holds.wellFormed.sound with
    ⟨_, root, call, sound, complete, entries⟩ | ⟨absent, _⟩ | ⟨incomplete, _⟩
  · have keys (k : CStr) : k ∈ root.keys ↔ k ∈ tree.root.keys ∧ k ≠ key.text := by
      simp [mem_keys, entries]
    refine ⟨⟨root⟩, call, ?_⟩
    constructor
    case wellFormed => exact ⟨sound, complete holds.wellFormed.complete⟩
    case short =>
      intro k old
      exact holds.short k ((keys k).mp old).1
    case stored =>
      intro k q entry
      obtain ⟨old, different⟩ := (entries (k, q)).mp entry
      rw [Function.update_of_ne different]
      exact holds.stored k q old
    case present =>
      intro k text' bound'
      have different : k ≠ key.text := by
        rintro rfl
        rw [Function.update_self] at bound'
        cases bound'
      rw [Function.update_of_ne different] at bound'
      exact (keys k).mpr ⟨holds.present k text' bound', different⟩
  · exact absurd member absent
  · exact absurd holds.wellFormed.complete incomplete

theorem Holds.overwrite (holds : Holds heap tree bound) {key : CStr} {p : Pointer}
    (entry : (key, p) ∈ tree.root.entries)
    (alone : ∀ k, (k, p) ∈ tree.root.entries → k = key) (text : CStr) :
    Holds (heap.set p (some text)) tree (Function.update bound key (some text)) where
  wellFormed := holds.wellFormed
  short := holds.short
  stored := by
    intro k q stored
    by_cases same : k = key
    · subst same
      obtain rfl := holds.wellFormed.sound.ordered.functional stored entry
      exact ⟨text, Function.update_self _ _ _, List.getElem?_set_self (holds.inHeap stored)⟩
    · have different : p ≠ q := by
        rintro rfl
        exact same (alone k stored)
      rw [Function.update_of_ne same, List.getElem?_set_ne different]
      exact holds.stored k q stored
  present := by
    intro k text' bound'
    by_cases same : k = key
    · rw [same]
      exact mem_keys.mpr ⟨p, entry⟩
    · rw [Function.update_of_ne same] at bound'
      exact holds.present k text' bound'

end Holds

end Tlpi.NameValue
