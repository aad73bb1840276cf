import TlpiExercises.BinaryTree.Operations

/-!
# The tree as a finite map

`bt_add` and `bt_delete` on a tree whose allocations have all succeeded: the tree stays a strict
search tree under `strcmp` and its entries change like the entries of a finite map.
-/

namespace Tlpi.BinaryTree

open LinkTree

variable {V : Type}

/-- Keys left of a node compare below its key, keys right of it above. -/
def StrictSearchTree : BTNode V → Prop
  | .null => True
  | .node left right key _ => ∃ k, key = some k ∧ StrictSearchTree left ∧ StrictSearchTree right ∧
      (∀ x ∈ left.keys, strcmp x k < 0) ∧ (∀ x ∈ right.keys, 0 < strcmp x k)

theorem strictSearchTree_iff (root : BTNode V) :
    StrictSearchTree root ↔ root.Ordered ∧ root.Complete := by
  induction root with
  | null => simp [StrictSearchTree, Ordered, Complete]
  | node left right key value ihl ihr =>
    cases key with
    | none => simp [StrictSearchTree, Complete]
    | some k =>
      simp only [StrictSearchTree, Option.some.injEq, exists_eq_left', ihl, ihr, Ordered, Complete,
        Option.isSome_some, true_and, ← CStr.lt_iff, ← CStr.gt_iff]
      tauto

inductive Op (V : Type) where
  | add (key : CStr) (value : V)
  | delete (key : CStr)

def Op.key : Op V → CStr
  | .add key _ => key
  | .delete key => key

def Op.call (tree : BTree V) : Op V → Except Fault (Status × BTree V)
  | .add key value => btAdd .succeed tree key value
  | .delete key => btDelete tree key

def runFrom (tree : BTree V) : List (Op V) → Except Fault (BTree V)
  | [] => .ok tree
  | op :: ops => do
    let (_, next) ← op.call tree
    runFrom next ops

/-- The tree after a sequence of calls that starts with `bt_initialize`. -/
def run (ops : List (Op V)) : Except Fault (BTree V) := runFrom btInitialize ops

structure WellFormed (tree : BTree V) : Prop where
  sound : Sound tree.root
  complete : tree.root.Complete

theorem wellFormed_initial : WellFormed (btInitialize : BTree V) := ⟨sound_null, trivial⟩

theorem wellFormed_call {tree : BTree V} {op : Op V} (wf : WellFormed tree)
    (fits : op.key.length ≤ BT_KEY_MAX) :
    ∃ status tree', op.call tree = .ok (status, tree') ∧ WellFormed tree' := by
  cases op with
  | add key value =>
    by_cases present : key ∈ tree.root.keys
    · exact ⟨_, _, btAdd_present .succeed value wf.sound.ordered present, wf⟩
    · obtain ⟨root, call, complete, _⟩ := btAdd_absent value wf.sound wf.complete present fits
      exact ⟨_, _, call, btAdd_sound wf.sound call, complete⟩
  | delete key =>
    rcases btDelete_cases key wf.sound with
      ⟨_, root, call, sound, complete, _⟩ | ⟨_, errno, call⟩ | ⟨incomplete, _⟩
    · exact ⟨_, _, call, sound, complete wf.complete⟩
    · exact ⟨_, _, call, wf⟩
    · exact absurd wf.complete incomplete

theorem wellFormed_run {ops : List (Op V)} {tree : BTree V} (wf : WellFormed tree)
    (fits : ∀ op ∈ ops, op.key.length ≤ BT_KEY_MAX) :
    ∃ tree', runFrom tree ops = .ok tree' ∧ WellFormed tree' := by
  induction ops generalizing tree with
  | nil => exact ⟨tree, rfl, wf⟩
  | cons op ops ih =>
    obtain ⟨status, next, call, wf'⟩ := wellFormed_call wf (fits op List.mem_cons_self)
    obtain ⟨last, rest, wf''⟩ := ih wf' (fun o ho => fits o (List.mem_cons_of_mem _ ho))
    exact ⟨last, by simp only [runFrom, call, ok_bind, rest], wf''⟩

/-- After any calls the tree is a strict search tree with one value for each key, and the next
call acts on its entries as on a finite map. -/
theorem run_finite_map (ops : List (Op V)) (fits : ∀ op ∈ ops, op.key.length ≤ BT_KEY_MAX) :
    ∃ tree : BTree V, run ops = .ok tree ∧ StrictSearchTree tree.root ∧
      (∀ key v w, (key, v) ∈ tree.root.entries → (key, w) ∈ tree.root.entries → v = w) ∧
      ∀ key : CStr, key.length ≤ BT_KEY_MAX →
        (key ∉ tree.root.keys → ∀ value, ∃ tree' : BTree V,
          btAdd .succeed tree key value = .ok (⟨0, none⟩, tree') ∧
          ∀ e, e ∈ tree'.root.entries ↔ e = (key, value) ∨ e ∈ tree.root.entries) ∧
        (key ∈ tree.root.keys → ∀ value,
          btAdd .succeed tree key value = .ok (⟨-1, some .EINVAL⟩, tree)) ∧
        (key ∈ tree.root.keys → ∃ tree' : BTree V,
          btDelete tree key = .ok (⟨0, none⟩, tree') ∧
          ∀ e, e ∈ tree'.root.entries ↔ e ∈ tree.root.entries ∧ e.1 ≠ key) ∧
        (key ∉ tree.root.keys → ∃ errno, btDelete tree key = .ok (⟨-1, errno⟩, tree)) := by
  obtain ⟨tree, result, sound, complete⟩ := wellFormed_run wellFormed_initial fits
  have ordered := sound.ordered
  refine ⟨tree, result, (strictSearchTree_iff _).mpr ⟨ordered, complete⟩,
    fun key v w => ordered.functional, fun key short => ⟨?_, ?_, ?_, ?_⟩⟩
  · intro absent value
    obtain ⟨root, call, _, entries⟩ := btAdd_absent value sound complete absent short
    exact ⟨⟨root⟩, call, entries⟩
  · intro present value
    rcases btAdd_cases .succeed key value ordered with
      ⟨_, call⟩ | ⟨slot, path, free, _⟩ | ⟨absent, _, _⟩
    · exact call
    · exact absurd ((mem_keys_of_onPath ordered path free).mp present) (by simp)
    · exact absurd present absent
  · intro present
    rcases btDelete_cases key sound with
      ⟨_, root, call, _, _, entries⟩ | ⟨absent, _⟩ | ⟨incomplete, _⟩
    · exact ⟨⟨root⟩, call, entries⟩
    · exact absurd present absent
    · exact absurd complete incomplete
  · intro absent
    rcases btDelete_cases key sound with ⟨present, _⟩ | ⟨_, errno, call⟩ | ⟨incomplete, _⟩
    · exact absurd present absent
    · exact ⟨errno, call⟩
    · exact absurd complete incomplete

/-- Three keys and a delete with two children. -/
theorem run_finite_map_sample : ∃ tree : BTree Nat,
    run [.add (.ofBytes [98]) 1, .add (.ofBytes [97]) 2, .add (.ofBytes [99]) 3,
      .delete (.ofBytes [98])] = .ok tree ∧ StrictSearchTree tree.root := by
  have fits : ∀ op ∈ ([.add (.ofBytes [98]) 1, .add (.ofBytes [97]) 2,
      .add (.ofBytes [99]) 3, .delete (.ofBytes [98])] : List (Op Nat)),
      op.key.length ≤ BT_KEY_MAX := by
    simp [Op.key, CStr.length, CStr.ofBytes, BT_KEY_MAX]
  obtain ⟨tree, result, strict, _⟩ := run_finite_map _ fits
  exact ⟨tree, result, strict⟩

end Tlpi.BinaryTree
