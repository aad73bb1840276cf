import TlpiExercises.BinaryTree.Layout

/-!
# bt_add without memory

`bt_create_node` writes the new cell into the parent's link before it asks for the key buffer, and
does not look at its first `malloc` at all. The trees are those that calls build whose allocations
succeed.
-/

namespace Tlpi.BinaryTree

open LinkTree

variable {V : Type}

/-- A call on the tree that `bt_add` has left. -/
inductive LaterCall (V : Type) where
  | add (m : Mallocs) (key : CStr) (value : V)
  | lookup (key : CStr) (old : V)
  | delete (key : CStr)
  | print (grants : Nat → Bool) (spaceCount : Int)

/-- The call returns. -/
def LaterCall.Safe (tree : BTree V) : LaterCall V → Prop
  | .add m key value => ∃ r, btAdd m tree key value = .ok r
  | .lookup key old => ∃ r, btLookup tree key old = .ok r
  | .delete key => ∃ r, btDelete tree key = .ok r
  | .print grants spaceCount => ∃ r, btPrint grants tree spaceCount = .ok r

/-- An add whose allocation fails returns -1 and leaves the tree as it was, and what was safe on it
still is. -/
def FailureHandled (m : Mallocs) (tree : BTree V) (key : CStr) (value : V) : Prop :=
  m ≠ .succeed → ∃ errno tree', btAdd m tree key value = .ok (.failure errno, tree') ∧
    tree' = tree ∧ ∀ call : LaterCall V, call.Safe tree → call.Safe tree'

/-! ### The trees of successful calls -/

theorem wellFormed_returned {tree tree' : BTree V} {op : Op V} {status : Status}
    (wf : WellFormed tree) (h : op.call tree = .ok (status, tree')) : WellFormed tree' := by
  cases op with
  | add key value =>
    rcases btAdd_cases .succeed key value wf.sound.ordered with
      ⟨_, call⟩ | ⟨slot, path, free, call⟩ | ⟨_, incomplete, _⟩
    · cases h.symm.trans call
      exact wf
    · cases created : btCreateNode .succeed key value with
      | error fault =>
        rw [created] at call
        cases h.symm.trans call
      | ok result =>
        rw [created] at call
        refine ⟨btAdd_sound wf.sound h, ?_⟩
        rcases btCreateNode_ok created with ⟨_, _, cell⟩ | ⟨_, refused, _⟩
        · cases h.symm.trans call
          rw [cell]
          exact complete_assign wf.complete ⟨rfl, trivial, trivial⟩
        · cases refused
    · exact absurd wf.complete incomplete
  | delete key =>
    rcases btDelete_cases key wf.sound with
      ⟨_, root, call, sound, complete, _⟩ | ⟨_, errno, call⟩ | ⟨incomplete, _⟩
    · cases h.symm.trans call
      exact ⟨sound, complete wf.complete⟩
    · cases h.symm.trans call
      exact wf
    · exact absurd wf.complete incomplete

theorem wellFormed_runFrom {ops : List (Op V)} {tree tree' : BTree V} (wf : WellFormed tree)
    (h : runFrom tree ops = .ok tree') : WellFormed tree' := by
  induction ops generalizing tree with
  | nil =>
    cases h
    exact wf
  | cons op ops ih =>
    obtain ⟨⟨status, next⟩, call, rest⟩ := bind_ok h
    exact ih (wellFormed_returned wf call) rest

/-! ### What a failing add leaves -/

/-- The search ends at a null link, and the new cell is written there. -/
theorem btAdd_new {tree : BTree V} {key : CStr} (wf : WellFormed tree) (absent : key ∉ tree.root.keys)
    (m : Mallocs) (value : V) :
    ∃ slot, tree.root.OnPath key slot ∧ tree.root.deref slot = some .null ∧
      btAdd m tree key value =
        (btCreateNode m key value).map (fun r => (r.1, ⟨tree.root.assign slot r.2⟩)) := by
  rcases btAdd_cases m key value wf.sound.ordered with
    ⟨present, _⟩ | found | ⟨_, incomplete, _⟩
  · exact absurd present absent
  · exact found
  · exact absurd wf.complete incomplete

theorem btAdd_no_cell {m : Mallocs} {tree : BTree V} {key : CStr} {value : V}
    (wf : WellFormed tree) (absent : key ∉ tree.root.keys) (refused : m.node = false) :
    btAdd m tree key value = .error .nullDereference := by
  obtain ⟨slot, _, _, call⟩ := btAdd_new wf absent m value
  rw [call, btCreateNode, refused]
  rfl

/-- A cell without a key stays in the tree. -/
theorem btAdd_no_key {m : Mallocs} {tree : BTree V} {key : CStr} (wf : WellFormed tree)
    (absent : key ∉ tree.root.keys) (granted : m.node = true) (refused : m.key = false) (value : V) :
    ∃ slot, tree.root.OnPath key slot ∧ tree.root.deref slot = some .null ∧
      btAdd m tree key value =
        .ok (.failure (some .ENOMEM), ⟨tree.root.assign slot (.node .null .null none value)⟩) := by
  obtain ⟨slot, path, free, call⟩ := btAdd_new wf absent m value
  refine ⟨slot, path, free, ?_⟩
  rw [call, btCreateNode, granted, refused]
  rfl

/-- An add handles every outcome of its allocations only where none fails. -/
theorem failureHandled_iff {ops : List (Op V)} {tree : BTree V} (built : run ops = .ok tree)
    {key : CStr} (absent : key ∉ tree.root.keys) (m : Mallocs) (value : V) :
    FailureHandled m tree key value ↔ m = .succeed := by
  have wf := wellFormed_runFrom wellFormed_initial built
  constructor
  · intro handled
    by_contra fails
    obtain ⟨errno, tree', call, same, _⟩ := handled fails
    cases node : m.node with
    | false =>
      rw [btAdd_no_cell wf absent node] at call
      cases call
    | true =>
      have refused : m.key = false := by
        cases keyed : m.key with
        | false => rfl
        | true =>
          obtain ⟨a, b⟩ := m
          obtain rfl : a = true := node
          obtain rfl : b = true := keyed
          exact absurd rfl fails
      obtain ⟨slot, _, free, left⟩ := btAdd_no_key wf absent node refused value
      rw [left, same] at call
      have root : tree.root.assign slot (.node .null .null none value) = tree.root :=
        congrArg BTree.root (Prod.mk.inj (Except.ok.inj call)).2
      have after := deref_assign (u := .node .null .null none value) free
      rw [root, free] at after
      cases after
  · exact fun succeeds fails => absurd succeeds fails

/-- A third key, with memory, without a node for it, and without memory for the key itself. -/
theorem failureHandled_iff_sample : ∃ tree : BTree Nat,
    run [.add (.ofBytes [98]) 2, .add (.ofBytes [99]) 3] = .ok tree ∧
      FailureHandled .succeed tree (.ofBytes [97]) 1 ∧ ¬ FailureHandled ⟨false, true⟩ tree (.ofBytes [97]) 1 ∧
      ¬ FailureHandled ⟨true, false⟩ tree (.ofBytes [97]) 1 := by
  obtain ⟨tree, built, absent⟩ : ∃ tree : BTree Nat,
      run [.add (.ofBytes [98]) 2, .add (.ofBytes [99]) 3] = .ok tree ∧ .ofBytes [97] ∉ tree.root.keys :=
    ⟨_, rfl, by decide⟩
  have handled := fun m => failureHandled_iff built absent m 1
  exact ⟨tree, built, (handled _).mpr rfl, (handled _).not.mpr (by decide), (handled _).not.mpr (by decide)⟩

/-- The first add of a key to an empty tree, without memory for the key. -/
theorem failureHandled_fails :
    ¬ ∀ (ops : List (Op Nat)) (tree : BTree Nat), run ops = .ok tree → ∀ key,
      key ∉ tree.root.keys → ∀ (m : Mallocs) (value : Nat), FailureHandled m tree key value := by
  intro all
  have handled := all [] btInitialize rfl (.ofBytes [97]) (by decide) ⟨true, false⟩ 1
  obtain ⟨errno, tree', call, same, _⟩ := handled (by decide)
  cases call
  cases same

/-! ### The damage -/

section Unkeyed

variable {node l r : BTNode V} {key : CStr} {slot : Slot} {v : V}

theorem ne_null {x : Option CStr} (cell : node.deref slot = some (.node l r x v)) : node ≠ .null := by
  rintro rfl
  cases slot with
  | nil => cases cell
  | cons d slot => cases cell

/-- A walk along the path comes to the cell without a key. -/
theorem unkeyed_induction {motive : BTNode V → Prop} (path : node.OnPath key slot)
    (cell : node.deref slot = some (.node l r none v)) (here : motive (.node l r none v))
    (down : ∀ {left right : BTNode V} {x : CStr} {w : V} {d : Dir},
      (LinkTree.node left right (some x) w).OnPath key [d] →
      ¬ ((LinkTree.node left right (some x) w).child d).isNull = true →
      motive ((LinkTree.node left right (some x) w).child d) → motive (.node left right (some x) w)) :
    motive node := by
  induction slot generalizing node with
  | nil =>
    obtain rfl : node = .node l r none v := by simpa using cell
    exact here
  | cons d slot ih =>
    cases node with
    | null => cases cell
    | node left right x nodeValue =>
      cases x with
      | none => cases d <;> exact False.elim path
      | some x =>
        obtain ⟨toward, path⟩ := onPath_cons.mp path
        rw [deref_cons] at cell
        exact down toward (isNull_iff.not.mpr (ne_null cell)) (ih path cell)

theorem btAddRec_unkeyed (m : Mallocs) (value : V) (path : node.OnPath key slot)
    (cell : node.deref slot = some (.node l r none v)) :
    btAddRec m node key value = .error .nullDereference := by
  refine unkeyed_induction (motive := fun node => btAddRec m node key value = .error .nullDereference)
    path cell rfl fun toward full below => ?_
  rw [btAddRec_toward m value toward, if_neg full, below]
  rfl

theorem btFindNode_unkeyed (path : node.OnPath key slot)
    (cell : node.deref slot = some (.node l r none v)) :
    btFindNode node key = .error .nullDereference := by
  refine unkeyed_induction (motive := fun node => btFindNode node key = .error .nullDereference)
    path cell rfl fun toward full below => ?_
  rw [btFindNode_toward toward, if_neg full, below]
  rfl

end Unkeyed

theorem printable_complete {node : BTNode V} {col : Nat} (printable : Printable node col) :
    node.Complete := by
  induction node generalizing col with
  | null => trivial
  | node left right nodeKey value ihl ihr =>
    obtain ⟨key, rfl, _, printableRight, _, printableLeft⟩ := printable
    exact ⟨rfl, ihl printableLeft, ihr printableRight⟩

/-- After an add without memory for the key, every later call that comes to the new cell follows its
NULL key. -/
theorem btAdd_damage {ops : List (Op V)} {tree : BTree V} (built : run ops = .ok tree)
    {key : CStr} (absent : key ∉ tree.root.keys) {m : Mallocs} (granted : m.node = true)
    (refused : m.key = false) (value : V) :
    ∃ tree', btAdd m tree key value = .ok (.failure (some .ENOMEM), tree') ∧
      (∀ m' w, btAdd m' tree' key w = .error .nullDereference) ∧
      (∀ old, btLookup tree' key old = .error .nullDereference) ∧
      btDelete tree' key = .error .nullDereference ∧ ¬ DrawsTree tree'.root := by
  have wf := wellFormed_runFrom wellFormed_initial built
  obtain ⟨slot, path, free, call⟩ := btAdd_no_key wf absent granted refused value
  have cell := deref_assign (u := .node .null .null none value) free
  have onPath := onPath_fill (u := .node .null .null none value) free trivial path
  refine ⟨_, call, ?_⟩
  generalize tree.root.assign slot (.node .null .null none value) = root at cell onPath
  have full : ¬ root.isNull = true := isNull_iff.not.mpr (ne_null cell)
  have search := btFindNode_unkeyed onPath cell
  refine ⟨fun m' w => ?_, fun old => ?_, ?_, fun draws => ?_⟩
  · rw [btAdd, if_neg full, btAddRec_unkeyed m' w onPath cell]
    rfl
  · simp only [btLookup, if_neg full, search]
    rfl
  · simp only [btDelete, if_neg full, search]
    rfl
  · exact complete_iff.mp (printable_complete (printable_of_draws draws)) _ _ _ _ cell

end Tlpi.BinaryTree
