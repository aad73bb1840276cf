import TlpiExercises.ThreadSafeTree.Model

/-!
# Which mutexes a call leaves locked

`bt_add_rec_ts` and `bt_find_node_ts` enter with exactly the lock of the link they came through
and pass it down hand over hand. The exits differ: an absent key is left unlocked by both, a
duplicate key stays locked by `bt_add_rec_ts`, and `bt_delete_ts` never unlocks its target.
-/

namespace Tlpi.ThreadSafeTree

open LinkTree

variable {V : Type}

def mutexes : BTNodeTs V → List (Option Mutex)
  | .null => []
  | .node left right _ payload => payload.mtx :: (mutexes left ++ mutexes right)

/-- A finished search tree whose nodes and root have each a mutex of their own. -/
structure WellLocked (tree : BTreeTs V) : Prop where
  ordered : tree.root.Ordered
  complete : tree.root.Complete
  allocated : none ∉ mutexes tree.root
  distinct : (some tree.mtx :: mutexes tree.root).Nodup

/-- The call returns and its caller, who held nothing before, holds nothing now. -/
def ReturnsUnlocked {β : Type} (call : List Mutex → Except CallError (β × List Mutex)) : Prop :=
  ∃ result, call [] = .ok (result, [])

/-- The mutexes of the nodes on the search path of the key. -/
def way (key : CStr) : BTNodeTs V → List (Option Mutex)
  | .null => []
  | .node _ _ none payload => [payload.mtx]
  | .node left right (some x) payload =>
    payload.mtx :: if key < x then way key left else if x < key then way key right else []

/-- No node on the search path of the key is still locked. -/
def Clear (held : List Mutex) (key : CStr) (node : BTNodeTs V) : Prop :=
  ∀ a ∈ held, some a ∉ way key node

theorem clear_nothing (key : CStr) (node : BTNodeTs V) : Clear [] key node :=
  fun _ none => absurd none List.not_mem_nil

/-! ### The primitive steps -/

@[simp] theorem dereference_some {α : Type} (value : α) : dereference (some value) = .ok value := rfl

theorem lock_ok {mtx : Mutex} {held held' : List Mutex} (h : lock mtx held = .ok held') :
    mtx ∉ held ∧ held' = mtx :: held := by
  unfold lock at h
  split at h
  · cases h
  · rename_i free
    exact ⟨free, (Except.ok.inj h).symm⟩

theorem lock_free {mtx : Mutex} {held : List Mutex} (free : mtx ∉ held) :
    lock mtx held = .ok (mtx :: held) := if_neg free

theorem lock_taken {mtx : Mutex} {held : List Mutex} (taken : mtx ∈ held) :
    lock mtx held = .error (.relock mtx) := if_pos taken

@[simp] theorem unlock_first (mtx : Mutex) (held : List Mutex) :
    unlock mtx (mtx :: held) = .ok held := by simp [unlock]

theorem unlock_second {a b : Mutex} (different : a ≠ b) (held : List Mutex) :
    unlock b (a :: b :: held) = .ok (a :: held) := by
  simp [unlock, different]

/-- Below a link with mutex `mtx` every cell is finished and has a mutex of its own. -/
structure Lockable (mtx : Mutex) (node : BTNodeTs V) : Prop where
  complete : node.Complete
  allocated : none ∉ mutexes node
  distinct : (some mtx :: mutexes node).Nodup

theorem WellLocked.lockable {tree : BTreeTs V} (wl : WellLocked tree) :
    Lockable tree.mtx tree.root := ⟨wl.complete, wl.allocated, wl.distinct⟩

theorem Lockable.own {left right : BTNodeTs V} {key : Option CStr} {payload : Payload V}
    {mtx : Mutex} (lockable : Lockable mtx (.node left right key payload)) :
    ∃ a, payload.mtx = some a ∧ a ≠ mtx ∧
      ∀ d, Lockable a ((LinkTree.node left right key payload).child d) := by
  obtain ⟨complete, allocated, distinct⟩ := lockable
  obtain ⟨outside, inside⟩ := List.nodup_cons.mp distinct
  cases own : payload.mtx with
  | none => exact absurd (by simp [mutexes, own]) allocated
  | some a =>
    have below (d : LinkTree.Dir) :
        (some a :: mutexes ((LinkTree.node left right key payload).child d)).Sublist
          (mutexes (.node left right key payload)) := by
      rw [mutexes, own]
      cases d with
      | left => exact (List.sublist_append_left _ _).cons_cons _
      | right => exact (List.sublist_append_right _ _).cons_cons _
    refine ⟨a, rfl, ?_, fun d => ⟨complete_child complete d, ?_, inside.sublist (below d)⟩⟩
    · rintro rfl
      exact outside ((below .left).subset List.mem_cons_self)
    · intro unset
      exact allocated ((below d).subset (List.mem_cons_of_mem _ unset))

theorem mem_mutexes_child {left right : BTNodeTs V} {key : Option CStr} {payload : Payload V}
    {d : Dir} {a : Option Mutex}
    (inside : a ∈ mutexes ((LinkTree.node left right key payload).child d)) :
    a ∈ mutexes (.node left right key payload) := by
  rw [mutexes]
  cases d with
  | left => exact List.mem_cons_of_mem _ (List.mem_append_left _ inside)
  | right => exact List.mem_cons_of_mem _ (List.mem_append_right _ inside)

/-! ### bt_create_node_ts -/

/-- When creation returns: the cell is there, and a copied key fits its buffer. -/
def Mallocs.Returns (m : Mallocs) (key : CStr) : Prop :=
  m.node = true ∧ (m.mtx = true → m.key = true → key.length ≤ BT_KEY_MAX)

theorem btCreateNodeTs_returns (m : Mallocs) (fresh : Mutex) (key : CStr) (value : V) :
    (∃ result, btCreateNodeTs m fresh key value = .ok result) ↔ m.Returns key := by
  obtain ⟨node, mtx, keyAllocated⟩ := m
  unfold btCreateNodeTs Mallocs.Returns
  cases node
  · simp
  cases mtx
  · simp
  cases keyAllocated
  · simp
  by_cases fits : key.length ≤ BT_KEY_MAX
  · simp [strcpy_fits (Nat.lt_succ_of_le fits), fits]
  · simp [strcpy_overflow (Nat.not_le.mp fits), fits]

/-! ### The descent -/

section Descent

variable {left right : BTNodeTs V} {x key : CStr} {payload : Payload V} {a mtx : Mutex}
  {held : List Mutex}

theorem way_here (left right : BTNodeTs V) (x : CStr) (payload : Payload V) :
    way x (.node left right (some x) payload) = [payload.mtx] := by
  rw [way, if_neg (lt_irrefl x), if_neg (lt_irrefl x)]

theorem way_toward {d : Dir}
    (toward : (LinkTree.node left right (some x) payload).OnPath key [d]) :
    way key (.node left right (some x) payload) =
      payload.mtx :: way key ((LinkTree.node left right (some x) payload).child d) := by
  rw [way]
  cases d with
  | left =>
    have less : key < x := toward.1
    rw [if_pos less]
    rfl
  | right =>
    have greater : x < key := toward.1
    rw [if_neg (not_lt.mpr greater.le), if_pos greater]
    rfl

theorem clear_here (own : payload.mtx = some a) :
    Clear held x (.node left right (some x) payload) ↔ a ∉ held := by
  simp only [Clear, way_here, own, List.mem_singleton, Option.some.injEq]
  constructor
  · intro clear member
    exact clear a member rfl
  · rintro free _ member rfl
    exact free member

theorem clear_toward (own : payload.mtx = some a) {d : Dir}
    (toward : (LinkTree.node left right (some x) payload).OnPath key [d]) :
    Clear held key (.node left right (some x) payload) ↔
      a ∉ held ∧ Clear held key ((LinkTree.node left right (some x) payload).child d) := by
  simp only [Clear, way_toward toward, own, List.mem_cons, Option.some.injEq, not_or]
  constructor
  · intro clear
    exact ⟨fun member => (clear a member).1 rfl, fun b member => (clear b member).2⟩
  · rintro ⟨free, clear⟩ b member
    refine ⟨?_, clear b member⟩
    rintro rfl
    exact free member

theorem lock_below (different : a ≠ mtx) (free : a ∉ held) :
    lock a (mtx :: held) = .ok (a :: mtx :: held) :=
  lock_free (by simp [different, free])

theorem btAddRecTs_locked (m : Mallocs) (fresh : Mutex) (key : CStr) (value : V)
    (nodeKey : Option CStr) (own : payload.mtx = some a) (taken : a ∈ held) :
    btAddRecTs m fresh (.node left right nodeKey payload) mtx key value (mtx :: held) =
      .error (.relock a) := by
  rw [btAddRecTs, own]
  simp only [dereference_some, ok_bind, lock_taken (List.mem_cons_of_mem mtx taken), error_bind]

theorem btAddRecTs_here (m : Mallocs) (fresh : Mutex) (value : V) (own : payload.mtx = some a)
    (different : a ≠ mtx) (free : a ∉ held) (same : strcmp key x = 0) :
    btAddRecTs m fresh (.node left right (some x) payload) mtx key value (mtx :: held) =
      .ok ((.failure (some .EINVAL), .node left right (some x) payload), a :: held) := by
  rw [btAddRecTs, own]
  simp only [dereference_some, ok_bind, lock_below different free, unlock_second different, same,
    if_true]
  rfl

theorem btAddRecTs_toward (m : Mallocs) (fresh : Mutex) (value : V) (own : payload.mtx = some a)
    (different : a ≠ mtx) (free : a ∉ held) {d : Dir}
    (toward : (LinkTree.node left right (some x) payload).OnPath key [d]) :
    btAddRecTs m fresh (.node left right (some x) payload) mtx key value (mtx :: held) =
      (if ((LinkTree.node left right (some x) payload).child d).isNull then
          (btCreateNodeTs m fresh key value).map (fun r => (r, held))
        else btAddRecTs m fresh ((LinkTree.node left right (some x) payload).child d) a key value
          (a :: held)).map
        (fun r => ((r.1.1, (LinkTree.node left right (some x) payload).assign [d] r.1.2), r.2)) := by
  rw [btAddRecTs, own]
  simp only [dereference_some, ok_bind, lock_below different free, unlock_second different]
  cases d with
  | left =>
    have less : strcmp key x < 0 := toward.1
    rw [if_neg (by omega), if_pos less]
    show _ = (if left.isNull then (btCreateNodeTs m fresh key value).map (fun r => (r, held))
        else btAddRecTs m fresh left a key value (a :: held)).map
      (fun r => ((r.1.1, LinkTree.node (left.assign [] r.1.2) right (some x) payload), r.2))
    simp only [assign_root]
    by_cases empty : left.isNull = true
    · simp only [if_pos empty]
      cases btCreateNodeTs m fresh key value with
      | error e => rfl
      | ok r => simp only [ok_bind, unlock_first]; rfl
    · simp only [if_neg empty]
      cases btAddRecTs m fresh left a key value (a :: held) <;> rfl
  | right =>
    have greater : 0 < strcmp key x := CStr.gt_iff.mp toward.1
    rw [if_neg (by omega), if_neg (by omega)]
    show _ = (if right.isNull then (btCreateNodeTs m fresh key value).map (fun r => (r, held))
        else btAddRecTs m fresh right a key value (a :: held)).map
      (fun r => ((r.1.1, LinkTree.node left (right.assign [] r.1.2) (some x) payload), r.2))
    simp only [assign_root]
    by_cases empty : right.isNull = true
    · simp only [if_pos empty]
      cases btCreateNodeTs m fresh key value with
      | error e => rfl
      | ok r => simp only [ok_bind, unlock_first]; rfl
    · simp only [if_neg empty]
      cases btAddRecTs m fresh right a key value (a :: held) <;> rfl

theorem btFindNodeTs_locked (out : Bool) (key : CStr) (nodeKey : Option CStr)
    (own : payload.mtx = some a) (taken : a ∈ held) :
    btFindNodeTs out (.node left right nodeKey payload) mtx key (mtx :: held) =
      .error (.relock a) := by
  rw [btFindNodeTs, own]
  simp only [dereference_some, ok_bind, lock_taken (List.mem_cons_of_mem mtx taken), error_bind]

theorem btFindNodeTs_here (out : Bool) (own : payload.mtx = some a) (different : a ≠ mtx)
    (free : a ∉ held) (same : strcmp key x = 0) :
    btFindNodeTs out (.node left right (some x) payload) mtx key (mtx :: held) =
      .ok (if out then some ⟨[], mtx⟩ else none, a :: held) := by
  rw [btFindNodeTs, own]
  simp only [dereference_some, ok_bind, lock_below different free, unlock_second different]
  rw [if_neg (by omega), if_neg (by omega)]
  cases out <;> rfl

theorem btFindNodeTs_toward (out : Bool) (own : payload.mtx = some a) (different : a ≠ mtx)
    (free : a ∉ held) {d : Dir}
    (toward : (LinkTree.node left right (some x) payload).OnPath key [d]) :
    btFindNodeTs out (.node left right (some x) payload) mtx key (mtx :: held) =
      if ((LinkTree.node left right (some x) payload).child d).isNull then .ok (none, held)
      else (btFindNodeTs out ((LinkTree.node left right (some x) payload).child d) a key
        (a :: held)).map (fun r => (r.1.map (fun f => { f with node := d :: f.node }), r.2)) := by
  rw [btFindNodeTs, own]
  simp only [dereference_some, ok_bind, lock_below different free, unlock_second different]
  cases d with
  | left =>
    have less : strcmp key x < 0 := toward.1
    rw [if_pos less, child]
    by_cases empty : left.isNull = true
    · simp only [if_pos empty, unlock_first]
      rfl
    · simp only [if_neg empty]
      cases btFindNodeTs out left a key (a :: held) <;> rfl
  | right =>
    have greater : 0 < strcmp key x := CStr.gt_iff.mp toward.1
    rw [if_neg (by omega), if_pos greater, child]
    by_cases empty : right.isNull = true
    · simp only [if_pos empty, unlock_first]
      rfl
    · simp only [if_neg empty]
      cases btFindNodeTs out right a key (a :: held) <;> rfl

end Descent

/-- Hand over hand along the search path: a node is still locked, or the search goes on with the lock of
that node alone. -/
@[elab_as_elim]
theorem lock_induction (key : CStr) (held : List Mutex) {motive : BTNodeTs V → Mutex → Prop}
    (locked : ∀ left right x payload mtx a, payload.mtx = some a → a ∈ held →
      ¬ Clear held key (.node left right (some x) payload) →
      motive (.node left right (some x) payload) mtx)
    (here : ∀ left right payload mtx a, payload.mtx = some a → a ≠ mtx → a ∉ held →
      Clear held key (.node left right (some key) payload) →
      motive (.node left right (some key) payload) mtx)
    (stop : ∀ left right x payload d mtx a, payload.mtx = some a → a ≠ mtx → a ∉ held →
      (LinkTree.node left right (some x) payload).OnPath key [d] →
      (LinkTree.node left right (some x) payload).child d = .null →
      key ∉ (LinkTree.node left right (some x) payload).keys →
      Clear held key (.node left right (some x) payload) →
      motive (.node left right (some x) payload) mtx)
    (down : ∀ left right x payload d mtx a, payload.mtx = some a → a ≠ mtx → a ∉ held →
      (LinkTree.node left right (some x) payload).OnPath key [d] →
      (LinkTree.node left right (some x) payload).child d ≠ .null →
      (key ∈ (LinkTree.node left right (some x) payload).keys ↔
        key ∈ ((LinkTree.node left right (some x) payload).child d).keys) →
      (Clear held key (.node left right (some x) payload) ↔
        Clear held key ((LinkTree.node left right (some x) payload).child d)) →
      motive ((LinkTree.node left right (some x) payload).child d) a →
      motive (.node left right (some x) payload) mtx)
    {node : BTNodeTs V} (mtx : Mutex) (ordered : node.Ordered) (lockable : Lockable mtx node)
    (nonempty : node ≠ .null) : motive node mtx := by
  revert mtx
  refine search_induction key ?unset ?here ?stop ?down ordered nonempty
  case unset =>
    intro payload mtx lockable
    exact absurd lockable.complete.1 (by simp)
  case here =>
    intro left right payload mtx lockable
    obtain ⟨a, own, different, _⟩ := lockable.own
    by_cases taken : a ∈ held
    · exact locked _ _ _ _ _ a own taken ((clear_here own).not.mpr (not_not.mpr taken))
    · exact here _ _ _ _ a own different taken ((clear_here own).mpr taken)
  case stop =>
    intro left right x payload d toward empty absent mtx lockable
    obtain ⟨a, own, different, _⟩ := lockable.own
    have clear : Clear held key (.node left right (some x) payload) ↔ _ := clear_toward own toward
    by_cases taken : a ∈ held
    · exact locked _ _ _ _ _ a own taken (clear.not.mpr fun both => both.1 taken)
    · refine stop _ _ _ _ d _ a own different taken toward empty absent (clear.mpr ⟨taken, ?_⟩)
      rw [empty]
      exact fun _ _ => List.not_mem_nil
  case down =>
    intro left right x payload d toward nonempty side ih mtx lockable
    obtain ⟨a, own, different, below⟩ := lockable.own
    have clear : Clear held key (.node left right (some x) payload) ↔ _ := clear_toward own toward
    by_cases taken : a ∈ held
    · exact locked _ _ _ _ _ a own taken (clear.not.mpr fun both => both.1 taken)
    · exact down _ _ _ _ d _ a own different taken toward nonempty side
        (clear.trans (and_iff_right taken)) (ih a (below d))

/-- From below a locked link on: the call stops at a node that is still locked. Otherwise a
present key stays locked, and an absent one is created with every lock of the call released. -/
theorem btAddRecTs_cases (m : Mallocs) (fresh : Mutex) (key : CStr) (value : V)
    (held : List Mutex) {node : BTNodeTs V} (mtx : Mutex) (ordered : node.Ordered)
    (lockable : Lockable mtx node) (nonempty : node ≠ .null) :
    (¬ Clear held key node ∧ ∃ e, btAddRecTs m fresh node mtx key value (mtx :: held) = .error e) ∨
    (Clear held key node ∧ key ∈ node.keys ∧ ∃ a, some a ∈ mutexes node ∧
      btAddRecTs m fresh node mtx key value (mtx :: held) =
        .ok ((.failure (some .EINVAL), node), a :: held)) ∨
    (Clear held key node ∧ key ∉ node.keys ∧ ∃ slot, node.OnPath key slot ∧
      node.deref slot = some .null ∧ btAddRecTs m fresh node mtx key value (mtx :: held) =
        (btCreateNodeTs m fresh key value).map (fun r => ((r.1, node.assign slot r.2), held))) := by
  refine lock_induction key held ?locked ?here ?stop ?down mtx ordered lockable nonempty
  case locked =>
    intro left right x payload mtx a own taken blocked
    exact Or.inl ⟨blocked, _, btAddRecTs_locked m fresh key value _ own taken⟩
  case here =>
    intro left right payload mtx a own different free clear
    exact Or.inr (Or.inl ⟨clear, by simp, a, by simp [mutexes, own],
      btAddRecTs_here m fresh value own different free (strcmp_eq_zero.mpr rfl)⟩)
  case stop =>
    intro left right x payload d mtx a own different free toward empty absent clear
    refine Or.inr (Or.inr ⟨clear, absent, [d], toward, ?_, ?_⟩)
    · rw [deref_cons, empty, deref_root]
    · rw [btAddRecTs_toward m fresh value own different free toward, if_pos (isNull_iff.mpr empty)]
      cases btCreateNodeTs m fresh key value <;> rfl
  case down =>
    intro left right x payload d mtx a own different free toward nonempty side further ih
    rw [further, side, btAddRecTs_toward m fresh value own different free toward,
      if_neg (isNull_iff.not.mpr nonempty)]
    rcases ih with
      ⟨blocked, e, call⟩ | ⟨clear, present, b, inside, call⟩ | ⟨clear, absent, slot, path, free, call⟩
    · exact Or.inl ⟨blocked, e, by rw [call]; rfl⟩
    · refine Or.inr (Or.inl ⟨clear, present, b, mem_mutexes_child inside, ?_⟩)
      simp only [call, Except.map, assign_child]
    · refine Or.inr (Or.inr ⟨clear, absent, d :: slot, onPath_cons.mpr ⟨toward, path⟩, ?_, ?_⟩)
      · rw [deref_cons, free]
      · rw [call]
        cases btCreateNodeTs m fresh key value with
        | error e => rfl
        | ok r => simp only [Except.map, assign_cons _ d slot]

/-- `bt_find_node_ts` stops at a node that is still locked. Otherwise it returns with the node of a
present key locked, and with no lock of its own when the key is absent. -/
theorem btFindNodeTs_cases (out : Bool) (key : CStr) (held : List Mutex) {node : BTNodeTs V}
    (mtx : Mutex) (ordered : node.Ordered) (lockable : Lockable mtx node) (nonempty : node ≠ .null) :
    (¬ Clear held key node ∧ ∃ e, btFindNodeTs out node mtx key (mtx :: held) = .error e) ∨
    (Clear held key node ∧ key ∈ node.keys ∧ ∃ target l r payload a, payload.mtx = some a ∧
      node.deref target.node = some (.node l r (some key) payload) ∧
      btFindNodeTs out node mtx key (mtx :: held) =
        .ok (if out then some target else none, a :: held)) ∨
    (Clear held key node ∧ key ∉ node.keys ∧
      btFindNodeTs out node mtx key (mtx :: held) = .ok (none, held)) := by
  refine lock_induction key held ?locked ?here ?stop ?down mtx ordered lockable nonempty
  case locked =>
    intro left right x payload mtx a own taken blocked
    exact Or.inl ⟨blocked, _, btFindNodeTs_locked out key _ own taken⟩
  case here =>
    intro left right payload mtx a own different free clear
    exact Or.inr (Or.inl ⟨clear, by simp, ⟨[], mtx⟩, left, right, payload, a, own, by simp,
      btFindNodeTs_here out own different free (strcmp_eq_zero.mpr rfl)⟩)
  case stop =>
    intro left right x payload d mtx a own different free toward empty absent clear
    refine Or.inr (Or.inr ⟨clear, absent, ?_⟩)
    rw [btFindNodeTs_toward out own different free toward, if_pos (isNull_iff.mpr empty)]
  case down =>
    intro left right x payload d mtx a own different free toward nonempty side further ih
    rw [further, side, btFindNodeTs_toward out own different free toward,
      if_neg (isNull_iff.not.mpr nonempty)]
    rcases ih with
      ⟨blocked, e, call⟩ | ⟨clear, present, target, l, r, p, b, owned, found, call⟩ | ⟨clear, absent, call⟩
    · exact Or.inl ⟨blocked, e, by rw [call]; rfl⟩
    · refine Or.inr (Or.inl ⟨clear, present,
        { target with node := d :: target.node }, l, r, p, b, owned, ?_, ?_⟩)
      · rw [deref_cons, found]
      · rw [call]
        cases out <;> rfl
    · refine Or.inr (Or.inr ⟨clear, absent, ?_⟩)
      rw [call]
      rfl

/-! ### One call -/

section Calls

variable {tree : BTreeTs V} {held : List Mutex}

theorem btAddTs_cases (m : Mallocs) (fresh : Mutex) (key : CStr) (value : V) (wl : WellLocked tree)
    (free : tree.mtx ∉ held) :
    (¬ Clear held key tree.root ∧ ∃ e, btAddTs m fresh tree key value held = .error e) ∨
    (Clear held key tree.root ∧ key ∈ tree.root.keys ∧ ∃ a, some a ∈ mutexes tree.root ∧
      btAddTs m fresh tree key value held = .ok ((.failure (some .EINVAL), tree), a :: held)) ∨
    (Clear held key tree.root ∧ key ∉ tree.root.keys ∧ ∃ slot, tree.root.OnPath key slot ∧
      tree.root.deref slot = some .null ∧ btAddTs m fresh tree key value held =
        (btCreateNodeTs m fresh key value).map
          (fun r => ((r.1, { tree with root := tree.root.assign slot r.2 }), held))) := by
  unfold btAddTs
  simp only [lock_free free, ok_bind]
  by_cases empty : tree.root = .null
  · refine Or.inr (Or.inr ⟨?_, by simp [empty], [], by simp, by simp [empty], ?_⟩)
    · rw [empty]
      exact fun _ _ => List.not_mem_nil
    · simp only [empty, isNull_null, if_true, assign_root]
      cases btCreateNodeTs m fresh key value with
      | error e => rfl
      | ok r => simp only [ok_bind, unlock_first]; rfl
  · have notNull : ¬ tree.root.isNull = true := by simpa [isNull_iff] using empty
    simp only [if_neg notNull]
    rcases btAddRecTs_cases m fresh key value held tree.mtx wl.ordered wl.lockable empty with
      ⟨locked, e, call⟩ | ⟨clear, present, a, inside, call⟩ | ⟨clear, absent, slot, path, null, call⟩
    · exact Or.inl ⟨locked, e, by rw [call]; rfl⟩
    · exact Or.inr (Or.inl ⟨clear, present, a, inside, by rw [call]; rfl⟩)
    · refine Or.inr (Or.inr ⟨clear, absent, slot, path, null, ?_⟩)
      rw [call]
      cases btCreateNodeTs m fresh key value <;> rfl

theorem btLookupTs_empty (out : Bool) (key : CStr) (value : V) (free : tree.mtx ∉ held)
    (empty : tree.root = .null) :
    btLookupTs out tree key value held = .ok ((.failure none, value), held) := by
  simp [btLookupTs, lock_free free, empty]

/-- The node of a key that is not there, or of a `malloc` that fails, is unlocked through NULL. -/
theorem btLookupTs_cases (out : Bool) (key : CStr) (value : V) (wl : WellLocked tree)
    (free : tree.mtx ∉ held) (nonempty : tree.root ≠ .null) :
    (¬ (Clear held key tree.root ∧ key ∈ tree.root.keys ∧ out = true) ∧
      ∃ e, btLookupTs out tree key value held = .error e) ∨
    ((Clear held key tree.root ∧ key ∈ tree.root.keys ∧ out = true) ∧
      ∃ payload, (key, payload) ∈ tree.root.entries ∧
        btLookupTs out tree key value held = .ok ((.success, payload.value), held)) := by
  unfold btLookupTs
  have notNull : ¬ tree.root.isNull = true := by simpa [isNull_iff] using nonempty
  simp only [lock_free free, ok_bind, if_neg notNull]
  rcases btFindNodeTs_cases out key held tree.mtx wl.ordered wl.lockable nonempty with
    ⟨locked, e, call⟩ | ⟨clear, present, target, l, r, payload, a, own, found, call⟩ |
    ⟨clear, absent, call⟩
  · exact Or.inl ⟨fun all => locked all.1, e, by rw [call]; rfl⟩
  · cases out with
    | false => exact Or.inl ⟨by simp, _, by rw [call]; rfl⟩
    | true =>
      refine Or.inr ⟨⟨clear, present, rfl⟩, payload, ?_, ?_⟩
      · exact (entries_deref found).subset (by simp [entries])
      · simp [call, payloadAt, found, own]
  · exact Or.inl ⟨fun all => absent all.2.1, _, by rw [call]; rfl⟩

/-- A target that `bt_delete_ts` finds stays in the tree and locked, if the call returns. -/
theorem btDeleteTs_found {out : Bool} {key : CStr} {status : Status} {after : BTreeTs V}
    {held' : List Mutex} (wl : WellLocked tree) (free : tree.mtx ∉ held)
    (present : key ∈ tree.root.keys)
    (returned : btDeleteTs out tree key held = .ok ((status, after), held')) :
    after = tree ∧ ∃ a, held' = a :: held := by
  have empty : tree.root ≠ .null := by
    intro empty
    simp [empty] at present
  have notNull : ¬ tree.root.isNull = true := by simpa [isNull_iff] using empty
  simp only [btDeleteTs, lock_free free, ok_bind, if_neg notNull] at returned
  rcases btFindNodeTs_cases out key held tree.mtx wl.ordered wl.lockable empty with
    ⟨_, e, call⟩ | ⟨_, _, target, l, r, payload, a, own, found, call⟩ | ⟨_, absent, _⟩
  · rw [call] at returned
    cases returned
  · simp only [call, ok_bind] at returned
    cases out with
    | false =>
      cases returned
      exact ⟨rfl, a, rfl⟩
    | true =>
      simp only [if_true, found, dereference_some, ok_bind] at returned
      obtain ⟨leftMtx, leftThere, returned⟩ := bind_ok returned
      obtain ⟨held₁, lockedLeft, returned⟩ := bind_ok returned
      obtain ⟨rightMtx, rightThere, returned⟩ := bind_ok returned
      obtain ⟨held₂, lockedRight, returned⟩ := bind_ok returned
      obtain ⟨_, rfl⟩ := lock_ok lockedLeft
      obtain ⟨outside, rfl⟩ := lock_ok lockedRight
      -- Both children exist, so the switch takes the empty two-child case.
      have leftNode : l.isNull = false := by
        cases l with
        | null => cases leftThere
        | node => rfl
      have rightNode : r.isNull = false := by
        cases r with
        | null => cases rightThere
        | node => rfl
      have different : rightMtx ≠ leftMtx := fun same => outside (by simp [same])
      simp only [btUnlinkTs, leftNode, rightNode, pure_eq_ok, ok_bind, unlock_second different,
        unlock_first] at returned
      cases returned
      exact ⟨rfl, a, rfl⟩
  · exact absurd present absent

theorem btDeleteTs_absent (out : Bool) {key : CStr} (wl : WellLocked tree) (free : tree.mtx ∉ held)
    (absent : key ∉ tree.root.keys) :
    (¬ Clear held key tree.root ∧ ∃ e, btDeleteTs out tree key held = .error e) ∨
    (Clear held key tree.root ∧ btDeleteTs out tree key held =
      .ok ((.failure (if tree.root.isNull then none else some .EINVAL), tree), held)) := by
  unfold btDeleteTs
  simp only [lock_free free, ok_bind]
  by_cases empty : tree.root = .null
  · refine Or.inr ⟨?_, by simp [empty]⟩
    rw [empty]
    exact fun _ _ => List.not_mem_nil
  · have notNull : ¬ tree.root.isNull = true := by simpa [isNull_iff] using empty
    simp only [if_neg notNull]
    rcases btFindNodeTs_cases out key held tree.mtx wl.ordered wl.lockable empty with
      ⟨locked, e, call⟩ | ⟨_, present, _⟩ | ⟨clear, _, call⟩
    · exact Or.inl ⟨locked, e, by rw [call]; rfl⟩
    · exact absurd present absent
    · exact Or.inr ⟨clear, by rw [call]; rfl⟩

end Calls

/-! ### Calls whose caller holds nothing -/

theorem btAddTs_unlocked_iff (m : Mallocs) (fresh : Mutex) {tree : BTreeTs V}
    (wl : WellLocked tree) (key : CStr) (value : V) :
    ReturnsUnlocked (btAddTs m fresh tree key value) ↔
      key ∉ tree.root.keys ∧ m.Returns key := by
  rw [← btCreateNodeTs_returns m fresh key value]
  unfold ReturnsUnlocked
  rcases btAddTs_cases m fresh key value wl List.not_mem_nil with
    ⟨locked, _⟩ | ⟨_, present, a, _, call⟩ | ⟨_, absent, slot, _, _, call⟩
  · exact absurd (clear_nothing key tree.root) locked
  · simp [call, present]
  · rw [call]
    cases btCreateNodeTs m fresh key value with
    | error e => simp [Except.map]
    | ok r => simp [Except.map, absent]

theorem btLookupTs_unlocked_iff (out : Bool) {tree : BTreeTs V} (wl : WellLocked tree)
    (key : CStr) (value : V) :
    ReturnsUnlocked (btLookupTs out tree key value) ↔
      tree.root = .null ∨ (key ∈ tree.root.keys ∧ out = true) := by
  unfold ReturnsUnlocked
  by_cases empty : tree.root = .null
  · simp [btLookupTs_empty out key value List.not_mem_nil empty, empty]
  · simp only [empty, false_or]
    rcases btLookupTs_cases out key value wl List.not_mem_nil empty with
      ⟨missed, e, call⟩ | ⟨⟨_, found⟩, payload, _, call⟩
    · have missed : ¬ (key ∈ tree.root.keys ∧ out = true) :=
        fun found => missed ⟨clear_nothing key tree.root, found⟩
      simp only [call, missed, iff_false]
      rintro ⟨result, returned⟩
      cases returned
    · exact iff_of_true ⟨_, call⟩ found

/-- Whatever its children, the target of `bt_delete_ts` stays locked or the call does not
return. -/
theorem btDeleteTs_present {out : Bool} {tree : BTreeTs V} (wl : WellLocked tree) {key : CStr}
    (present : key ∈ tree.root.keys) : ¬ ReturnsUnlocked (btDeleteTs out tree key) := by
  rintro ⟨⟨status, after⟩, returned⟩
  obtain ⟨_, a, kept⟩ := btDeleteTs_found wl List.not_mem_nil present returned
  cases kept

theorem btDeleteTs_unlocked_iff (out : Bool) {tree : BTreeTs V} (wl : WellLocked tree)
    (key : CStr) : ReturnsUnlocked (btDeleteTs out tree key) ↔ key ∉ tree.root.keys := by
  refine ⟨fun returns present => btDeleteTs_present wl present returns, fun absent => ?_⟩
  rcases btDeleteTs_absent out wl List.not_mem_nil absent with ⟨locked, _⟩ | ⟨_, call⟩
  · exact absurd (clear_nothing key tree.root) locked
  · exact ⟨_, call⟩

/-- Each operation releases all its mutexes exactly on these calls. -/
theorem calls_unlocked_iff (m : Mallocs) (out : Bool) (fresh : Mutex) {tree : BTreeTs V}
    (wl : WellLocked tree) (key : CStr) (value : V) :
    (ReturnsUnlocked (btAddTs m fresh tree key value) ↔ key ∉ tree.root.keys ∧ m.Returns key) ∧
    (ReturnsUnlocked (btLookupTs out tree key value) ↔
      tree.root = .null ∨ (key ∈ tree.root.keys ∧ out = true)) ∧
    (ReturnsUnlocked (btDeleteTs out tree key) ↔ key ∉ tree.root.keys) :=
  ⟨btAddTs_unlocked_iff m fresh wl key value, btLookupTs_unlocked_iff out wl key value,
    btDeleteTs_unlocked_iff out wl key⟩

def sampleTree : BTreeTs Nat := ⟨.node .null .null (some (.ofBytes [97])) ⟨some 1, 7⟩, 0⟩

theorem sampleTree_wellLocked : WellLocked sampleTree where
  ordered := by simp [sampleTree, Ordered]
  complete := by simp [sampleTree, Complete]
  allocated := by decide
  distinct := by decide

theorem calls_unlocked_iff_sample :
    ReturnsUnlocked (btAddTs .succeed 2 sampleTree (.ofBytes [98]) 8) :=
  (calls_unlocked_iff .succeed true 2 sampleTree_wellLocked (.ofBytes [98]) 8).1.mpr
    ⟨by decide, rfl, fun _ _ => by decide⟩

/-- Adding `"a"` once more, looking up `"b"` and deleting `"a"`. -/
theorem calls_keep_locks :
    ¬ (ReturnsUnlocked (btAddTs .succeed 2 sampleTree (.ofBytes [97]) 8) ∨
      ReturnsUnlocked (btLookupTs true sampleTree (.ofBytes [98]) 0) ∨
      ReturnsUnlocked (btDeleteTs true sampleTree (.ofBytes [97]))) := by
  have add : btAddTs .succeed 2 sampleTree (.ofBytes [97]) 8 [] =
      .ok ((.failure (some .EINVAL), sampleTree), [1]) := rfl
  have lookup : btLookupTs true sampleTree (.ofBytes [98]) 0 [] =
      .error (.fault .nullDereference) := rfl
  have delete : btDeleteTs true sampleTree (.ofBytes [97]) [] =
      .error (.fault .nullDereference) := rfl
  simp [ReturnsUnlocked, add, lookup, delete]

end Tlpi.ThreadSafeTree
