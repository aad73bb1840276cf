import TlpiExercises.BinaryTree.Model

/-!
# What one call of the binary tree library does

`Sound` is the invariant of the trees that `bt_add` and `bt_delete` build, whatever `malloc`
returns. `btAdd_cases`, `btFindNode_cases` and `btDelete_found` say all that a call can do to a
sound tree; the later modules use nothing else about the code.
-/

namespace Tlpi.BinaryTree

open LinkTree

variable {V : Type}

structure Sound (root : BTNode V) : Prop where
  ordered : root.Ordered
  fits : ∀ key ∈ root.keys, key.length ≤ BT_KEY_MAX

theorem sound_null : Sound (.null : BTNode V) := ⟨trivial, by simp⟩

/-! ### bt_create_node -/

theorem btCreateNode_succeed {key : CStr} (value : V) (fits : key.length ≤ BT_KEY_MAX) :
    btCreateNode .succeed key value = .ok (.success, .node .null .null (some key) value) := by
  simp [btCreateNode, Mallocs.succeed, strcpy_fits (Nat.lt_succ_of_le fits)]

theorem btCreateNode_ok {m : Mallocs} {key : CStr} {value : V} {status : Status}
    {created : BTNode V} (h : btCreateNode m key value = .ok (status, created)) :
    (status = .success ∧ key.length ≤ BT_KEY_MAX ∧ created = .node .null .null (some key) value) ∨
    (status = .failure (some .ENOMEM) ∧ m.key = false ∧
      created = .node .null .null none value) := by
  unfold btCreateNode at h
  split at h
  · split at h
    · obtain ⟨copy, copied, result⟩ := bind_ok h
      obtain ⟨rfl, fits⟩ := strcpy_ok copied
      cases result
      exact Or.inl ⟨rfl, Nat.le_of_lt_succ fits, rfl⟩
    · rename_i refused
      cases h
      exact Or.inr ⟨rfl, by simpa using refused, rfl⟩
  · cases h

/-! ### bt_add -/

theorem btAddRec_eq {left right : BTNode V} {x : CStr} {nodeValue : V} (m : Mallocs) {key : CStr}
    (value : V) (same : strcmp key x = 0) :
    btAddRec m (.node left right (some x) nodeValue) key value =
      .ok (.failure (some .EINVAL), .node left right (some x) nodeValue) := by
  rw [btAddRec, fromPointer_some, ok_bind, if_pos same]
  rfl

theorem btAddRec_toward {left right : BTNode V} {x : CStr} {nodeValue : V} (m : Mallocs)
    {key : CStr} (value : V) {d : Dir}
    (toward : (LinkTree.node left right (some x) nodeValue).OnPath key [d]) :
    btAddRec m (.node left right (some x) nodeValue) key value =
      (if ((LinkTree.node left right (some x) nodeValue).child d).isNull then
          btCreateNode m key value
        else btAddRec m ((LinkTree.node left right (some x) nodeValue).child d) key value).map
        (fun r => (r.1, (LinkTree.node left right (some x) nodeValue).assign [d] r.2)) := by
  rw [btAddRec, fromPointer_some, ok_bind]
  cases d with
  | left =>
    have less : strcmp key x < 0 := toward.1
    rw [if_neg (by omega), if_pos less]
    show _ = (if left.isNull then btCreateNode m key value else btAddRec m left key value).map
      (fun r => (r.1, LinkTree.node (left.assign [] r.2) right (some x) nodeValue))
    simp only [assign_root]
    by_cases empty : left.isNull = true
    · simp only [if_pos empty]
      cases btCreateNode m key value <;> rfl
    · simp only [if_neg empty]
      cases btAddRec m left key value <;> rfl
  | right =>
    have greater : 0 < strcmp key x := CStr.gt_iff.mp toward.1
    rw [if_neg (by omega), if_neg (by omega)]
    show _ = (if right.isNull then btCreateNode m key value else btAddRec m right key value).map
      (fun r => (r.1, LinkTree.node left (right.assign [] r.2) (some x) nodeValue))
    simp only [assign_root]
    by_cases empty : right.isNull = true
    · simp only [if_pos empty]
      cases btCreateNode m key value <;> rfl
    · simp only [if_neg empty]
      cases btAddRec m right key value <;> rfl

/-- A call of `bt_add_rec` finds the key, or links a new cell at the end of its search path, or
follows a pointer to a key that was never stored. -/
theorem btAddRec_cases (m : Mallocs) (key : CStr) (value : V) {node : BTNode V}
    (ordered : node.Ordered) (nonempty : node ≠ .null) :
    (key ∈ node.keys ∧ btAddRec m node key value = .ok (.failure (some .EINVAL), node)) ∨
    (∃ slot, node.OnPath key slot ∧ node.deref slot = some .null ∧
      btAddRec m node key value =
        (btCreateNode m key value).map (fun r => (r.1, node.assign slot r.2))) ∨
    (key ∉ node.keys ∧ ¬ node.Complete ∧
      btAddRec m node key value = .error .nullDereference) := by
  refine search_induction key ?unset ?here ?stop ?down ordered nonempty
  case unset =>
    intro nodeValue
    exact Or.inr (Or.inr ⟨by simp, by simp [Complete], rfl⟩)
  case here =>
    intro left right nodeValue
    exact Or.inl ⟨by simp, btAddRec_eq m value (strcmp_eq_zero.mpr rfl)⟩
  case stop =>
    intro left right x nodeValue d toward empty _
    refine Or.inr (Or.inl ⟨[d], toward, ?_, ?_⟩)
    · rw [deref_cons, empty, deref_root]
    · rw [btAddRec_toward m value toward, if_pos (isNull_iff.mpr empty)]
  case down =>
    intro left right x nodeValue d toward nonempty side ih
    rw [btAddRec_toward m value toward, if_neg (isNull_iff.not.mpr nonempty), side]
    rcases ih with ⟨found, call⟩ | ⟨slot, path, free, call⟩ | ⟨absent, incomplete, call⟩
    · refine Or.inl ⟨found, ?_⟩
      rw [call, Except.map, assign_child]
    · refine Or.inr (Or.inl ⟨d :: slot, onPath_cons.mpr ⟨toward, path⟩, ?_, ?_⟩)
      · rw [deref_cons, free]
      · rw [call]
        cases btCreateNode m key value with
        | error fault => rfl
        | ok r => simp only [Except.map, assign_cons _ d slot]
    · refine Or.inr (Or.inr ⟨absent, fun complete => incomplete (complete_child complete d), ?_⟩)
      rw [call, Except.map]

theorem btAdd_cases (m : Mallocs) (key : CStr) (value : V) {tree : BTree V}
    (ordered : tree.root.Ordered) :
    (key ∈ tree.root.keys ∧ btAdd m tree key value = .ok (.failure (some .EINVAL), tree)) ∨
    (∃ slot, tree.root.OnPath key slot ∧ tree.root.deref slot = some .null ∧
      btAdd m tree key value =
        (btCreateNode m key value).map (fun r => (r.1, ⟨tree.root.assign slot r.2⟩))) ∨
    (key ∉ tree.root.keys ∧ ¬ tree.root.Complete ∧
      btAdd m tree key value = .error .nullDereference) := by
  by_cases empty : tree.root = .null
  · refine Or.inr (Or.inl ⟨[], by simp, by simp [empty], ?_⟩)
    simp only [btAdd, empty, isNull_null, if_true, assign_root]
    cases btCreateNode m key value <;> rfl
  · have notNull : ¬ tree.root.isNull = true := by simpa [isNull_iff] using empty
    simp only [btAdd, if_neg notNull]
    rcases btAddRec_cases m key value ordered empty with
      ⟨found, call⟩ | ⟨slot, path, free, call⟩ | ⟨absent, incomplete, call⟩
    · exact Or.inl ⟨found, by rw [call]; rfl⟩
    · refine Or.inr (Or.inl ⟨slot, path, free, ?_⟩)
      rw [call]
      cases btCreateNode m key value <;> rfl
    · exact Or.inr (Or.inr ⟨absent, incomplete, by rw [call]; rfl⟩)

theorem btAddRec_ends (m : Mallocs) (value : V) {node : BTNode V} {key : CStr} {slot : Slot}
    (nonempty : node ≠ .null) (path : node.OnPath key slot)
    (free : node.deref slot = some .null) :
    btAddRec m node key value =
      (btCreateNode m key value).map (fun r => (r.1, node.assign slot r.2)) := by
  induction slot generalizing node with
  | nil => exact absurd (by simpa using free) nonempty
  | cons d slot ih =>
    cases node with
    | null => exact absurd rfl nonempty
    | node left right x nodeValue =>
      cases x with
      | none => cases d <;> exact False.elim path
      | some x =>
        obtain ⟨toward, path⟩ := onPath_cons.mp path
        rw [deref_cons] at free
        rw [btAddRec_toward m value toward]
        by_cases empty : (LinkTree.node left right (some x) nodeValue).child d = .null
        · rw [empty] at path free
          obtain rfl : slot = [] := null_slot_unique path trivial free (deref_root _)
          rw [if_pos (isNull_iff.mpr empty)]
        · rw [if_neg (isNull_iff.not.mpr empty), ih empty path free]
          cases btCreateNode m key value with
          | error fault => rfl
          | ok r => rw [Except.map, Except.map, Except.map, assign_cons _ d slot]

theorem btAdd_ends (m : Mallocs) (value : V) {tree : BTree V} {key : CStr} {slot : Slot}
    (path : tree.root.OnPath key slot) (free : tree.root.deref slot = some .null) :
    btAdd m tree key value =
      (btCreateNode m key value).map (fun r => (r.1, ⟨tree.root.assign slot r.2⟩)) := by
  by_cases empty : tree.root = .null
  · rw [empty] at path free
    obtain rfl : slot = [] := null_slot_unique path trivial free (deref_root _)
    simp only [btAdd, empty, isNull_null, if_true, assign_root]
    cases btCreateNode m key value <;> rfl
  · have notNull : ¬ tree.root.isNull = true := by simpa [isNull_iff] using empty
    simp only [btAdd, if_neg notNull, btAddRec_ends m value empty path free]
    cases btCreateNode m key value <;> rfl

theorem btAdd_present (m : Mallocs) {tree : BTree V} {key : CStr} (value : V)
    (ordered : tree.root.Ordered) (present : key ∈ tree.root.keys) :
    btAdd m tree key value = .ok (.failure (some .EINVAL), tree) := by
  rcases btAdd_cases m key value ordered with ⟨_, call⟩ | ⟨slot, path, free, _⟩ | ⟨absent, _, _⟩
  · exact call
  · have absent := (mem_keys_of_onPath ordered path free).not.mpr (by simp)
    exact absurd present absent
  · exact absurd present absent

theorem btAdd_absent {tree : BTree V} {key : CStr} (value : V) (sound : Sound tree.root)
    (complete : tree.root.Complete) (absent : key ∉ tree.root.keys)
    (fits : key.length ≤ BT_KEY_MAX) :
    ∃ root : BTNode V, btAdd .succeed tree key value = .ok (.success, ⟨root⟩) ∧ root.Complete ∧
      ∀ e, e ∈ root.entries ↔ e = (key, value) ∨ e ∈ tree.root.entries := by
  rcases btAdd_cases .succeed key value sound.ordered with
    ⟨found, _⟩ | ⟨slot, path, free, call⟩ | ⟨_, incomplete, _⟩
  · exact absurd found absent
  · rw [btCreateNode_succeed value fits] at call
    refine ⟨_, call, complete_assign complete (by simp [Complete]), fun e => ?_⟩
    rw [mem_entries_link sound.ordered path free rfl]
    simp [entries]
  · exact absurd complete incomplete

theorem btAdd_sound {m : Mallocs} {tree tree' : BTree V} {key : CStr} {value : V}
    {status : Status} (sound : Sound tree.root)
    (h : btAdd m tree key value = .ok (status, tree')) : Sound tree'.root := by
  rcases btAdd_cases m key value sound.ordered with
    ⟨_, call⟩ | ⟨slot, path, free, call⟩ | ⟨_, _, call⟩
  · rw [call] at h
    cases h
    exact sound
  · rw [call] at h
    cases created : btCreateNode m key value with
    | error fault =>
      rw [created] at h
      cases h
    | ok result =>
      rw [created] at h
      cases h
      rcases btCreateNode_ok created with ⟨_, fits, cell⟩ | ⟨_, _, cell⟩
      · rw [cell]
        refine ⟨ordered_link_cell sound.ordered path free rfl fun k same => (Option.some.inj same).symm, ?_⟩
        intro x member
        rcases (mem_keys_link sound.ordered path free rfl x).mp member with new | old
        · exact (List.mem_singleton.mp new).symm ▸ fits
        · exact sound.fits x old
      · rw [cell]
        refine ⟨ordered_link_cell sound.ordered path free rfl (fun k same => ?_), ?_⟩
        · cases same
        intro x member
        rcases (mem_keys_link sound.ordered path free rfl x).mp member with new | old
        · exact absurd new List.not_mem_nil
        · exact sound.fits x old
  · rw [call] at h
    cases h

/-! ### bt_find_node -/

theorem btFindNode_toward {left right : BTNode V} {x key : CStr} {nodeValue : V} {d : Dir}
    (toward : (LinkTree.node left right (some x) nodeValue).OnPath key [d]) :
    btFindNode (.node left right (some x) nodeValue) key =
      if ((LinkTree.node left right (some x) nodeValue).child d).isNull then .ok none
      else (btFindNode ((LinkTree.node left right (some x) nodeValue).child d) key).map
        (Option.map (d :: ·)) := by
  rw [btFindNode, fromPointer_some, ok_bind]
  cases d with
  | left =>
    have less : strcmp key x < 0 := toward.1
    rw [if_pos less, child]
    split
    · rfl
    · cases btFindNode left key <;> rfl
  | right =>
    have greater : 0 < strcmp key x := CStr.gt_iff.mp toward.1
    rw [if_neg (by omega), if_pos greater, child]
    split
    · rfl
    · cases btFindNode right key <;> rfl

theorem btFindNode_here {left right : BTNode V} {x key : CStr} {nodeValue : V}
    (same : strcmp key x = 0) :
    btFindNode (.node left right (some x) nodeValue) key = .ok (some []) := by
  rw [btFindNode, fromPointer_some, ok_bind, if_neg (by omega), if_neg (by omega)]
  rfl

/-- The search ends at the cell of the key, at a null link, or at a key that was never stored. -/
theorem btFindNode_cases (key : CStr) {node : BTNode V} (ordered : node.Ordered)
    (nonempty : node ≠ .null) :
    (∃ slot l r v, btFindNode node key = .ok (some slot) ∧ node.OnPath key slot ∧
      node.deref slot = some (.node l r (some key) v)) ∨
    (key ∉ node.keys ∧ btFindNode node key = .ok none) ∨
    (key ∉ node.keys ∧ ¬ node.Complete ∧ btFindNode node key = .error .nullDereference) := by
  refine search_induction key ?unset ?here ?stop ?down ordered nonempty
  case unset =>
    intro nodeValue
    exact Or.inr (Or.inr ⟨by simp, by simp [Complete], rfl⟩)
  case here =>
    intro left right nodeValue
    exact Or.inl ⟨[], left, right, nodeValue, btFindNode_here (strcmp_eq_zero.mpr rfl), by simp,
      by simp⟩
  case stop =>
    intro left right x nodeValue d toward empty absent
    refine Or.inr (Or.inl ⟨absent, ?_⟩)
    rw [btFindNode_toward toward, if_pos (isNull_iff.mpr empty)]
  case down =>
    intro left right x nodeValue d toward nonempty side ih
    rw [btFindNode_toward toward, if_neg (isNull_iff.not.mpr nonempty), side]
    rcases ih with ⟨slot, l, r, v, call, path, target⟩ | ⟨absent, call⟩ |
      ⟨absent, incomplete, call⟩
    · refine Or.inl ⟨d :: slot, l, r, v, by rw [call]; rfl, onPath_cons.mpr ⟨toward, path⟩, ?_⟩
      rw [deref_cons, target]
    · exact Or.inr (Or.inl ⟨absent, by rw [call]; rfl⟩)
    · refine Or.inr (Or.inr ⟨absent, fun complete => incomplete (complete_child complete d), ?_⟩)
      rw [call, Except.map]

theorem found_mem_keys {node l r : BTNode V} {key : CStr} {v : V} {slot : Slot}
    (ordered : node.Ordered) (path : node.OnPath key slot)
    (target : node.deref slot = some (.node l r (some key) v)) : key ∈ node.keys :=
  (mem_keys_of_onPath ordered path target).mpr (by simp)

/-! ### bt_delete -/

/-- `leftmost` leads to the first cell in order; replacing it replaces the front of the entries. -/
theorem leftmost_spec {node : BTNode V} (nonempty : node ≠ .null) :
    ∃ r key v, ∃ rest : List (CStr × V),
      node.deref (leftmost node) = some (.node .null r key v) ∧
      node.entries = (LinkTree.node .null r key v).entries ++ rest ∧
      (∀ u : BTNode V, (node.assign (leftmost node) u).entries = u.entries ++ rest) ∧
      (node.Tidy → (node.assign (leftmost node) r).Tidy) := by
  induction node with
  | null => exact absurd rfl nonempty
  | node left right nodeKey nodeValue ihl _ =>
    by_cases empty : left = .null
    · subst empty
      have here : leftmost (.node .null right nodeKey nodeValue) = [] := by simp [leftmost]
      rw [here]
      refine ⟨right, nodeKey, nodeValue, [], by simp, by simp, by simp, ?_⟩
      cases nodeKey with
      | none => exact fun tidy => by simp [tidy.2, Tidy]
      | some x => exact fun tidy => by simpa using tidy.2
    · have down : leftmost (.node left right nodeKey nodeValue) = .left :: leftmost left := by
        simp [leftmost, isNull_iff, empty]
      rw [down]
      obtain ⟨r, key, v, rest, target, same, replaced, tidy⟩ := ihl empty
      cases nodeKey with
      | none =>
        refine ⟨r, key, v, rest ++ right.entries, target, ?_, fun u => ?_,
          fun t => absurd t.1 empty⟩
        · simp only [entries, same, List.append_assoc]
        · simp only [assign, entries, replaced u, List.append_assoc]
      | some x =>
        refine ⟨r, key, v, rest ++ (x, nodeValue) :: right.entries, target, ?_, fun u => ?_,
          fun t => ⟨tidy t.1, t.2⟩⟩
        · simp only [entries, same, List.append_assoc]
        · simp only [assign, entries, replaced u, List.append_assoc]

theorem btDeleteBoth_cases {root l r : BTNode V} {key : CStr} {v : V} {target : Slot}
    (sound : Sound root) (path : root.OnPath key target)
    (found : root.deref target = some (.node l r (some key) v)) (hr : r ≠ .null) :
    (∃ u : BTNode V, btDeleteBoth root target l r = .ok (root.assign target u) ∧ u.Tidy ∧
      u.entries = l.entries ++ r.entries ∧ (root.Complete → u.Complete)) ∨
    (¬ root.Complete ∧ btDeleteBoth root target l r = .error .nullDereference) := by
  obtain ⟨child, successor, value, rest, next, same, replaced, tidy⟩ := leftmost_spec hr
  have slot : root.deref (target ++ .right :: leftmost r) =
      some (.node .null child successor value) := by
    rw [deref_append, found]
    exact next
  cases successor with
  | none =>
    refine Or.inr ⟨fun complete => ?_, by simp [btDeleteBoth, slot]⟩
    exact absurd (complete_deref complete slot).1 (by simp)
  | some x =>
    have stored : x ∈ root.keys := by
      obtain ⟨before, after, all, _, _, _⟩ := context sound.ordered path found
      refine mem_keys.mpr ⟨value, ?_⟩
      rw [all]
      simp [entries, same]
    have fits : strcpy (BT_KEY_MAX + 1) x = .ok x :=
      strcpy_fits (Nat.lt_succ_of_le (sound.fits x stored))
    have ordered : (LinkTree.node l r (some key) v).Ordered := ordered_deref sound.ordered path found
    have shape := ((ordered_iff _).mp ordered).1
    refine Or.inl ⟨.node l (r.assign (leftmost r) child) (some x) value, ?_, ?_, ?_, ?_⟩
    · have freed : (root.assign target (.node l r (some x) value)).deref target =
          some (.node l r (some x) value) := deref_assign found
      simp only [btDeleteBoth, slot, fromPointer_some, ok_bind, fits, btFreeNode]
      rw [assign_assign, assign_append freed, assign_assign]
      rfl
    · exact ⟨shape.1, tidy shape.2⟩
    · simp [entries, same, replaced child]
    · intro complete
      have both := complete_deref complete found
      exact ⟨rfl, both.2.1, complete_assign both.2.2 (complete_deref both.2.2 next).2.2⟩

theorem btDelete_found {tree : BTree V} {l r : BTNode V} {key : CStr} {v : V} {target : Slot}
    (sound : Sound tree.root) (call : btFindNode tree.root key = .ok (some target))
    (path : tree.root.OnPath key target)
    (found : tree.root.deref target = some (.node l r (some key) v)) :
    (∃ u : BTNode V, btDelete tree key = .ok (.success, ⟨tree.root.assign target u⟩) ∧ u.Tidy ∧
      u.entries = l.entries ++ r.entries ∧ (tree.root.Complete → u.Complete)) ∨
    (¬ tree.root.Complete ∧ btDelete tree key = .error .nullDereference) := by
  have nonempty : ¬ tree.root.isNull = true := by
    rw [isNull_iff]
    intro empty
    rw [empty] at call
    cases call
  have ordered : (LinkTree.node l r (some key) v).Ordered := ordered_deref sound.ordered path found
  have shape := ((ordered_iff _).mp ordered).1
  have children := fun complete => (complete_deref (s := .node l r (some key) v) complete found).2
  simp only [btDelete, if_neg nonempty, call, ok_bind, found, fromPointer_some]
  by_cases hl : l = .null
  · by_cases hr : r = .null
    · subst hl hr
      exact Or.inl ⟨.null, rfl, trivial, rfl, fun _ => trivial⟩
    · subst hl
      refine Or.inl ⟨r, ?_, shape.2, by simp, fun c => (children c).2⟩
      have notNull : r.isNull = false := isNull_eq_false.mpr hr
      simp only [isNull_null, notNull, btFreeNode, assign_assign]
      rfl
  · have leftNotNull : l.isNull = false := isNull_eq_false.mpr hl
    by_cases hr : r = .null
    · subst hr
      refine Or.inl ⟨l, ?_, shape.1, by simp, fun c => (children c).1⟩
      simp only [isNull_null, leftNotNull, btFreeNode, assign_assign]
      rfl
    · have notNull : r.isNull = false := isNull_eq_false.mpr hr
      simp only [leftNotNull, notNull]
      rcases btDeleteBoth_cases sound path found hr with ⟨u, both, facts⟩ | ⟨incomplete, both⟩
      · exact Or.inl ⟨u, by rw [both]; rfl, facts⟩
      · exact Or.inr ⟨incomplete, by rw [both]; rfl⟩

/-- A call of `bt_delete` takes the key's entry out, or does not find the key, or follows a
pointer to a key that was never stored. -/
theorem btDelete_cases (key : CStr) {tree : BTree V} (sound : Sound tree.root) :
    (key ∈ tree.root.keys ∧ ∃ root : BTNode V, btDelete tree key = .ok (.success, ⟨root⟩) ∧
      Sound root ∧ (tree.root.Complete → root.Complete) ∧
      ∀ e, e ∈ root.entries ↔ e ∈ tree.root.entries ∧ e.1 ≠ key) ∨
    (key ∉ tree.root.keys ∧ ∃ errno, btDelete tree key = .ok (.failure errno, tree)) ∨
    (¬ tree.root.Complete ∧ btDelete tree key = .error .nullDereference) := by
  by_cases empty : tree.root = .null
  · exact Or.inr (Or.inl ⟨by simp [empty], none, by simp [btDelete, empty]⟩)
  · have nonempty : ¬ tree.root.isNull = true := by simpa [isNull_iff] using empty
    rcases btFindNode_cases key sound.ordered empty with
      ⟨target, l, r, v, call, path, found⟩ | ⟨absent, call⟩ | ⟨_, incomplete, call⟩
    · rcases btDelete_found sound call path found with
        ⟨u, deleted, tidy, removed, complete⟩ | ⟨incomplete, fault⟩
      · have remaining := mem_entries_unlink sound.ordered path found removed
        refine Or.inl ⟨found_mem_keys sound.ordered path found, _, deleted, ⟨?_, ?_⟩, ?_, remaining⟩
        · exact ordered_unlink sound.ordered path found tidy removed
        · intro x hx
          obtain ⟨w, he⟩ := mem_keys.mp hx
          exact sound.fits x (mem_keys.mpr ⟨w, ((remaining _).mp he).1⟩)
        · exact fun c => complete_assign c (complete c)
      · exact Or.inr (Or.inr ⟨incomplete, fault⟩)
    · refine Or.inr (Or.inl ⟨absent, some .EINVAL, ?_⟩)
      simp only [btDelete, if_neg nonempty, call]
      rfl
    · refine Or.inr (Or.inr ⟨incomplete, ?_⟩)
      simp only [btDelete, if_neg nonempty, call]
      rfl

theorem btDelete_absent {tree : BTree V} {key : CStr} (ordered : tree.root.Ordered)
    (complete : tree.root.Complete) (absent : key ∉ tree.root.keys) :
    btDelete tree key = .ok (.failure (if tree.root.isNull then none else some .EINVAL), tree) := by
  by_cases empty : tree.root = .null
  · simp [btDelete, empty]
  · have nonempty : ¬ tree.root.isNull = true := by simpa [isNull_iff] using empty
    rcases btFindNode_cases key ordered empty with
      ⟨target, l, r, v, _, path, found⟩ | ⟨_, call⟩ | ⟨_, incomplete, _⟩
    · exact absurd (found_mem_keys ordered path found) absent
    · simp only [btDelete, if_neg nonempty, call]
      rfl
    · exact absurd complete incomplete

theorem btDelete_sound {tree tree' : BTree V} {key : CStr} {status : Status}
    (sound : Sound tree.root) (h : btDelete tree key = .ok (status, tree')) :
    Sound tree'.root := by
  rcases btDelete_cases key sound with ⟨_, root, call, sound', _⟩ | ⟨_, errno, call⟩ | ⟨_, call⟩
  · rw [call] at h
    cases h
    exact sound'
  · rw [call] at h
    cases h
    exact sound
  · rw [call] at h
    cases h

end Tlpi.BinaryTree
