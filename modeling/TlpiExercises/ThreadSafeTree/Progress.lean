import TlpiExercises.Library.LockOrder
import TlpiExercises.ThreadSafeTree.SharedTree

/-!
# Whether the callers return

A mutex is newer than the one that is held when it is waited for, so that threads do not wait for each
other in a circle. What they can wait for in vain is the mutex that the duplicate exit leaves locked.
-/

namespace Tlpi.ThreadSafeTree

open LinkTree (Slot)

variable {ι V : Type} [DecidableEq ι] {s s' : State ι V} {i j : ι}

/-- What a step can do where `Inv` holds. -/
inductive Moves (s : State ι V) (i : ι) : State ι V → Prop
  | call {call : Call V} {calls : List (Call V)} (at_ : (s.threads i).pc = .idle)
    (next : (s.threads i).calls = call :: calls) :
    Moves s i (s.setThread i { s.threads i with calls, pc := .lockTree call })
  | lockTree {call : Call V} (at_ : (s.threads i).pc = .lockTree call) (free : s.owner s.treeMtx = none) :
    Moves s i ((s.setOwner s.treeMtx (some i)).goto i (.testRoot call))
  | empty {call : Call V} (at_ : (s.threads i).pc = .testRoot call) (null : s.tree = .null) :
    Moves s i (s.goto i (.create call [] s.treeMtx))
  | root {call : Call V} {root : Mutex} (at_ : (s.threads i).pc = .testRoot call)
    (there : NodeAt s.tree [] root) : Moves s i (s.goto i (.lockNode call [] s.treeMtx))
  | lockNode {call : Call V} {node : Slot} {mtx nodeMtx : Mutex}
    (at_ : (s.threads i).pc = .lockNode call node mtx) (there : NodeAt s.tree node nodeMtx)
    (free : s.owner nodeMtx = none) :
    Moves s i ((s.setOwner nodeMtx (some i)).goto i (.unlockParent call node mtx))
  | unlockParent {call : Call V} {node : Slot} {mtx : Mutex}
    (at_ : (s.threads i).pc = .unlockParent call node mtx) (mine : s.owner mtx = some i) :
    Moves s i ((s.setOwner mtx none).goto i (.compare call node))
  | duplicate {call : Call V} {node : Slot} {left right : BTNodeTs V} {mtx : Mutex} {value : V}
    (at_ : (s.threads i).pc = .compare call node)
    (cell : s.tree.deref node = some (.node left right (some call.key) ⟨some mtx, value⟩)) :
    Moves s i (s.finish i call (-1))
  | leaf {call : Call V} {node : Slot} {dir : LinkTree.Dir} {mtx : Mutex}
    (at_ : (s.threads i).pc = .compare call node) (there : NodeAt s.tree node mtx)
    (null : s.tree.deref (node ++ [dir]) = some .null) :
    Moves s i (s.goto i (.create call (node ++ [dir]) mtx))
  | below {call : Call V} {node : Slot} {dir : LinkTree.Dir} {mtx next : Mutex}
    (at_ : (s.threads i).pc = .compare call node) (there : NodeAt s.tree node mtx)
    (child : NodeAt s.tree (node ++ [dir]) next) :
    Moves s i (s.goto i (.lockNode call (node ++ [dir]) mtx))
  | create {call : Call V} {slot : Slot} {mtx : Mutex} (at_ : (s.threads i).pc = .create call slot mtx) :
    Moves s i (s.create i call slot mtx)
  | fill {call : Call V} {slot : Slot} {mtx : Mutex} (at_ : (s.threads i).pc = .fill call slot mtx) :
    Moves s i (s.fill i call slot mtx (.node .null .null (some call.key) ⟨some s.fresh, call.value⟩))
  | unlockOwner {call : Call V} {mtx : Mutex} (at_ : (s.threads i).pc = .unlockOwner call mtx)
    (mine : s.owner mtx = some i) : Moves s i ((s.setOwner mtx none).finish i call 0)

theorem moves_next {call : Call V} {node : Slot} {left right : BTNodeTs V} {nodeKey : CStr} {mtx : Mutex}
    {value : V} (inv : Inv s) (at_ : (s.threads i).pc = .compare call node)
    (path : s.tree.OnPath call.key node) (mine : s.owner mtx = some i)
    (cell : s.tree.deref node = some (.node left right (some nodeKey) ⟨some mtx, value⟩)) :
    Moves s i (s.descend i call node left right nodeKey mtx) := by
  have there : NodeAt s.tree node mtx := ⟨left, right, nodeKey, value, cell⟩
  have still : ∀ call slot mtx, (s.threads i).pc ≠ .fill call slot mtx := by simp [at_]
  have side (dir : LinkTree.Dir) (next : BTNodeTs V)
      (toward : LinkTree.OnPath (.node left right (some nodeKey) ⟨some mtx, value⟩) call.key [dir])
      (link : s.tree.deref (node ++ [dir]) = some next) :
      Moves s i (if next.isNull then s.goto i (.create call (node ++ [dir]) mtx)
        else s.goto i (.lockNode call (node ++ [dir]) mtx)) := by
    have held : Held s.tree s.treeMtx s.owner i call.key (node ++ [dir]) mtx :=
      ⟨mine, Or.inr ⟨node, dir, left, right, nodeKey, value, rfl, cell⟩, LinkTree.onPath_append path cell toward⟩
    have placed := placed_next inv held link still
    split at placed
    · rename_i null
      rw [if_pos null]
      exact .leaf at_ there (LinkTree.isNull_iff.mp null ▸ link)
    · rename_i some_
      rw [if_neg some_]
      obtain ⟨_, root, child⟩ := placed
      exact .below at_ there child
  unfold State.descend
  by_cases same : strcmp call.key nodeKey = 0
  · simp only [if_pos same]
    obtain rfl := strcmp_eq_zero.mp same
    exact .duplicate at_ cell
  · simp only [if_neg same]
    by_cases less : strcmp call.key nodeKey < 0
    · simp only [if_pos less]
      refine side .left left ⟨less, LinkTree.onPath_root _ _⟩ ?_
      rw [LinkTree.deref_append, cell]
      simp [LinkTree.deref]
    · have above : nodeKey < call.key := by
        apply CStr.gt_iff.mpr
        omega
      simp only [if_neg less]
      refine side .right right ⟨above, LinkTree.onPath_root _ _⟩ ?_
      rw [LinkTree.deref_append, cell]
      simp [LinkTree.deref]

theorem step_moves (inv : Inv s) (h : step s i = .next s') : Moves s i s' := by
  have here := inv.placed i
  cases at_ : (s.threads i).pc with
  | idle =>
    simp only [step, at_] at h
    split at h
    · cases h
    · rename_i next
      obtain rfl := Outcome.next.inj h
      exact .call at_ next
  | lockTree call =>
    simp only [step, at_] at h
    obtain ⟨free, rfl⟩ := lock_next h
    exact .lockTree at_ free
  | testRoot call =>
    rw [at_] at here
    have held : Held s.tree s.treeMtx s.owner i call.key [] s.treeMtx :=
      ⟨here, Or.inl ⟨rfl, rfl⟩, LinkTree.onPath_root _ _⟩
    have placed := placed_next inv held (LinkTree.deref_root _) (by simp [at_])
    simp only [step, at_] at h
    split at h
    · rename_i null
      obtain rfl := Outcome.next.inj h
      exact .empty at_ (LinkTree.isNull_iff.mp null)
    · rename_i some_
      obtain rfl := Outcome.next.inj h
      rw [if_neg some_] at placed
      obtain ⟨_, root, there⟩ := placed
      exact .root at_ there
  | lockNode call node mtx =>
    rw [at_] at here
    obtain ⟨_, nodeMtx, there⟩ := here
    obtain ⟨left, right, key, value, read, _⟩ := cell_nodeAt there
    simp only [step, at_, read] at h
    obtain ⟨free, rfl⟩ := lock_next h
    exact .lockNode at_ there free
  | unlockParent call node mtx =>
    rw [at_] at here
    simp only [step, at_, if_pos here.1] at h
    obtain rfl := Outcome.next.inj h
    exact .unlockParent at_ here.1
  | compare call node =>
    rw [at_] at here
    obtain ⟨path, mtx, there, mine⟩ := here
    obtain ⟨left, right, key, value, read, cell⟩ := cell_nodeAt there
    simp only [step, at_, read] at h
    obtain rfl := Outcome.next.inj h
    exact moves_next inv at_ path mine cell
  | create call slot mtx =>
    simp only [step, at_] at h
    obtain rfl := Outcome.next.inj h
    exact .create at_
  | fill call slot mtx =>
    simp only [step, at_] at h
    split at h
    · rename_i filled
      obtain rfl := Outcome.next.inj h
      rw [btCreateNodeTs_ok filled]
      exact .fill at_
    · cases h
  | unlockOwner call mtx =>
    rw [at_] at here
    have mine : s.owner mtx = some i := here
    simp only [step, at_, if_pos mine] at h
    obtain rfl := Outcome.next.inj h
    exact .unlockOwner at_ mine

/-! ### Who has which mutex -/

/-- What a thread that is in a call has locked. -/
def Holds (tree : BTNodeTs V) (treeMtx : Mutex) : Pc V → Mutex → Prop
  | .idle, _ | .lockTree _, _ => False
  | .testRoot _, m => m = treeMtx
  | .lockNode _ _ mtx, m | .create _ _ mtx, m | .fill _ _ mtx, m | .unlockOwner _ mtx, m => m = mtx
  | .unlockParent _ node mtx, m => m = mtx ∨ NodeAt tree node m
  | .compare _ node, m => NodeAt tree node m

/-- The mutex of a node at which a call came to its duplicate exit. -/
def Left (tree : BTNodeTs V) (results : List (CStr × Int)) (m : Mutex) : Prop :=
  ∃ slot left right key value,
    tree.deref slot = some (.node left right (some key) ⟨some m, value⟩) ∧ (key, -1) ∈ results

structure Locks (s : State ι V) : Prop where
  tree_lt : s.treeMtx < s.fresh
  owned_lt : ∀ m i, s.owner m = some i → m < s.fresh
  node_lt : ∀ slot m, NodeAt s.tree slot m → s.treeMtx < m ∧ m < s.fresh
  below : ∀ slot dir a b, NodeAt s.tree slot a → NodeAt s.tree (slot ++ [dir]) b → a < b
  unique : ∀ slot slot' m, NodeAt s.tree slot m → NodeAt s.tree slot' m → slot = slot'
  owned : ∀ m i, s.owner m = some i →
    Holds s.tree s.treeMtx (s.threads i).pc m ∨ Left s.tree (s.threads i).results m

theorem nodeAt_root {slot : Slot} {m : Mutex} : ¬ NodeAt (.null : BTNodeTs V) slot m := by
  rintro ⟨left, right, key, value, cell⟩
  cases slot <;> cases cell

theorem NodeAt.mtx_eq {tree : BTNodeTs V} {slot : Slot} {a b : Mutex} (ha : NodeAt tree slot a)
    (hb : NodeAt tree slot b) : a = b := by
  obtain ⟨_, _, _, _, ha⟩ := ha
  obtain ⟨_, _, _, _, hb⟩ := hb
  rw [ha] at hb
  simp only [Option.some.injEq, LinkTree.node.injEq, Payload.mk.injEq] at hb
  exact hb.2.2.2.1

omit [DecidableEq ι] in
theorem locks_start (calls : ι → List (Call V)) : Locks (start calls) where
  tree_lt := Nat.one_pos
  owned_lt := nofun
  node_lt := fun _ _ there => absurd there nodeAt_root
  below := fun _ _ _ _ there => absurd there nodeAt_root
  unique := fun _ _ _ there => absurd there nodeAt_root
  owned := nofun

theorem Left.append {tree : BTNodeTs V} {results : List (CStr × Int)} {m : Mutex}
    (left : Left tree results m) (more : List (CStr × Int)) : Left tree (results ++ more) m := by
  obtain ⟨slot, l, r, key, value, cell, member⟩ := left
  exact ⟨slot, l, r, key, value, cell, List.mem_append_left more member⟩

theorem locks_move (locks : Locks s) (thread : Thread V) {owner : Mutex → Option ι}
    (lt : ∀ m j, owner m = some j → m < s.fresh)
    (others : ∀ j, j ≠ i → ∀ m, owner m = some j → s.owner m = some j)
    (mine : ∀ m, owner m = some i → Holds s.tree s.treeMtx thread.pc m ∨ Left s.tree thread.results m) :
    Locks ({ s with owner }.setThread i thread) where
  tree_lt := locks.tree_lt
  owned_lt := lt
  node_lt := locks.node_lt
  below := locks.below
  unique := locks.unique
  owned := by
    intro m j owned
    by_cases same : j = i
    · subst same
      simpa [State.setThread] using mine m owned
    · simpa [State.setThread, same] using locks.owned m j (others j same m owned)

/-- A thread that moves on without a lock or an unlock. -/
theorem locks_goto (locks : Locks s) {thread : Thread V}
    (holds : ∀ m, Holds s.tree s.treeMtx (s.threads i).pc m →
      Holds s.tree s.treeMtx thread.pc m ∨ Left s.tree thread.results m)
    (left : ∀ m, Left s.tree (s.threads i).results m → Left s.tree thread.results m) :
    Locks (s.setThread i thread) :=
  locks_move locks thread locks.owned_lt (fun _ _ _ owned => owned)
    fun m owned => (locks.owned m i owned).elim (holds m) fun stays => Or.inr (left m stays)

theorem locks_take (locks : Locks s) {mtx : Mutex} {pc : Pc V} (lt : mtx < s.fresh)
    (here : Holds s.tree s.treeMtx pc mtx)
    (holds : ∀ m, Holds s.tree s.treeMtx (s.threads i).pc m → Holds s.tree s.treeMtx pc m) :
    Locks ((s.setOwner mtx (some i)).goto i pc) := by
  refine locks_move locks { s.threads i with pc } (fun m j owned => ?_)
    (fun j other m owned => ?_) fun m owned => ?_
  · by_cases same : m = mtx
    · exact same ▸ lt
    · rw [Function.update_of_ne same] at owned
      exact locks.owned_lt m j owned
  · by_cases same : m = mtx
    · rw [same, Function.update_self] at owned
      exact absurd (Option.some.inj owned).symm other
    · rwa [Function.update_of_ne same] at owned
  · by_cases same : m = mtx
    · exact Or.inl (same ▸ here)
    · rw [Function.update_of_ne same] at owned
      exact (locks.owned m i owned).imp_left (holds m)

theorem locks_release (locks : Locks s) {mtx : Mutex} {thread : Thread V}
    (holds : ∀ m, m ≠ mtx → Holds s.tree s.treeMtx (s.threads i).pc m → Holds s.tree s.treeMtx thread.pc m)
    (left : ∀ m, Left s.tree (s.threads i).results m → Left s.tree thread.results m) :
    Locks ((s.setOwner mtx none).setThread i thread) := by
  have before (m : Mutex) (j : ι) (owned : Function.update s.owner mtx none m = some j) :
      m ≠ mtx ∧ s.owner m = some j := by
    by_cases same : m = mtx
    · rw [same, Function.update_self] at owned
      cases owned
    · rw [Function.update_of_ne same] at owned
      exact ⟨same, owned⟩
  refine locks_move locks thread (fun m j owned => locks.owned_lt m j (before m j owned).2)
    (fun j _ m owned => (before m j owned).2) fun m owned => ?_
  obtain ⟨other, owned⟩ := before m i owned
  exact (locks.owned m i owned).imp (holds m other) (left m)

theorem Holds.grow {tree vacant u : BTNodeTs V} {treeMtx m : Mutex} {pc : Pc V} {link : Slot}
    (holds : Holds tree treeMtx pc m) (old : tree.deref link = some vacant) (free : vacant.Vacant) :
    Holds (tree.assign link u) treeMtx pc m := by
  cases pc with
  | unlockParent call node mtx => exact holds.imp_right fun there => there.grow old free
  | compare call node => exact NodeAt.grow holds old free
  | _ => exact holds

theorem Left.grow {tree vacant u : BTNodeTs V} {results : List (CStr × Int)} {m : Mutex} {link : Slot}
    (left : Left tree results m) (old : tree.deref link = some vacant) (free : vacant.Vacant) :
    Left (tree.assign link u) results m := by
  obtain ⟨slot, l, r, key, value, cell, member⟩ := left
  obtain ⟨l', r', cell⟩ := LinkTree.deref_fill (u := u) old free cell
  exact ⟨slot, l', r', key, value, cell, member⟩

/-- A cell that is stored is the newest node, once it has its key. -/
theorem locks_grow (locks : Locks s) {link : Slot} {vacant : BTNodeTs V} {cellKey : Option CStr}
    {payload : Payload V} {fresh : Mutex} {linked : List (ι × CStr)} {pc : Pc V}
    (old : s.tree.deref link = some vacant) (free : vacant.Vacant)
    (new : ∀ k m, cellKey = some k → payload.mtx = some m → m = s.fresh ∧ s.fresh < fresh)
    (grows : s.fresh ≤ fresh)
    (holds : ∀ tree m, Holds tree s.treeMtx (s.threads i).pc m → Holds tree s.treeMtx pc m) :
    Locks ({ s with
      tree := s.tree.assign link (.node .null .null cellKey payload)
      fresh
      linked }.goto i pc) := by
  have nodes (slot : Slot) (m : Mutex)
      (there : NodeAt (s.tree.assign link (.node .null .null cellKey payload)) slot m) :
      NodeAt s.tree slot m ∨ slot = link ∧ m = s.fresh ∧ s.fresh < fresh := by
    obtain ⟨left, right, key, value, cell⟩ := there
    rcases LinkTree.deref_filled old cell with ⟨rfl, same, rfl⟩ | ⟨_, left', right', before⟩
    · exact Or.inr ⟨rfl, new key m same.symm rfl⟩
    · exact Or.inl ⟨left', right', key, value, before⟩
  have leaf (dir : LinkTree.Dir) (m : Mutex) :
      ¬ NodeAt (s.tree.assign link (.node .null .null cellKey payload)) (link ++ [dir]) m := by
    rintro ⟨left, right, key, value, cell⟩
    rw [LinkTree.deref_append, LinkTree.deref_assign old] at cell
    cases dir <;> simp [LinkTree.deref] at cell
  constructor
  case tree_lt => exact locks.tree_lt.trans_le grows
  case owned_lt => exact fun m j owned => (locks.owned_lt m j owned).trans_le grows
  case node_lt =>
    intro slot m there
    obtain before | ⟨_, rfl, more⟩ := nodes slot m there
    · exact ⟨(locks.node_lt slot m before).1, (locks.node_lt slot m before).2.trans_le grows⟩
    · exact ⟨locks.tree_lt, more⟩
  case below =>
    intro slot dir a b parent child
    obtain before | ⟨rfl, _⟩ := nodes slot a parent
    · obtain below | ⟨_, rfl, _⟩ := nodes (slot ++ [dir]) b child
      · exact locks.below slot dir a b before below
      · exact (locks.node_lt slot a before).2
    · exact absurd child (leaf dir b)
  case unique =>
    intro slot slot' m here there
    obtain before | ⟨rfl, new, _⟩ := nodes slot m here <;>
      obtain before' | ⟨rfl, new', _⟩ := nodes slot' m there
    · exact locks.unique slot slot' m before before'
    · exact absurd new' (locks.node_lt slot m before).2.ne
    · exact absurd new (locks.node_lt slot' m before').2.ne
    · rfl
  case owned =>
    intro m j owned
    have before := (locks.owned m j owned).imp (Holds.grow (u := .node .null .null cellKey payload) · old free)
      (Left.grow (u := .node .null .null cellKey payload) · old free)
    by_cases same : j = i
    · subst same
      simpa [State.goto, State.setThread] using before.imp_left (holds _ m)
    · simpa [State.goto, State.setThread, same] using before

theorem locks_moves (inv : Inv s) (locks : Locks s) (moves : Moves s i s') : Locks s' := by
  have placed := inv.placed i
  cases moves with
  | call at_ next =>
    refine locks_goto locks (fun m holds => ?_) fun m left => left
    rw [at_] at holds
    exact holds.elim
  | lockTree at_ free =>
    refine locks_take locks locks.tree_lt rfl fun m holds => ?_
    rw [at_] at holds
    exact holds.elim
  | empty at_ null =>
    refine locks_goto locks (fun m holds => Or.inl ?_) fun m left => left
    rwa [at_] at holds
  | root at_ there =>
    refine locks_goto locks (fun m holds => Or.inl ?_) fun m left => left
    rwa [at_] at holds
  | lockNode at_ there free =>
    refine locks_take locks (locks.node_lt _ _ there).2 (Or.inr there) fun m holds => Or.inl ?_
    rwa [at_] at holds
  | unlockParent at_ mine =>
    refine locks_release locks (fun m other holds => ?_) fun m left => left
    rw [at_] at holds
    exact holds.resolve_left other
  | duplicate at_ cell =>
    refine locks_goto locks (fun m holds => Or.inr ?_) fun m left => left.append _
    rw [at_] at holds
    have same := NodeAt.mtx_eq holds ⟨_, _, _, _, cell⟩
    exact ⟨_, _, _, _, _, same ▸ cell, by simp⟩
  | leaf at_ there null =>
    refine locks_goto locks (fun m holds => Or.inl ?_) fun m left => left
    rw [at_] at holds
    exact NodeAt.mtx_eq holds there
  | below at_ there child =>
    refine locks_goto locks (fun m holds => Or.inl ?_) fun m left => left
    rw [at_] at holds
    exact NodeAt.mtx_eq holds there
  | create at_ =>
    rw [at_] at placed
    refine locks_grow locks placed.2 trivial nofun (Nat.le_refl _) fun tree m holds => ?_
    rwa [at_] at holds
  | fill at_ =>
    rw [at_] at placed
    refine locks_grow locks placed.2 ⟨rfl, rfl⟩ (fun k m _ same => ?_) (Nat.le_succ _) fun tree m holds => ?_
    · exact ⟨(Option.some.inj same).symm, Nat.lt_succ_self _⟩
    · rwa [at_] at holds
  | unlockOwner at_ mine =>
    refine locks_release locks (fun m other holds => ?_) fun m left => left.append _
    rw [at_] at holds
    exact absurd holds other

theorem locks_reachable {calls : ι → List (Call V)} (h : Reachable calls s) : Locks s := by
  induction h with
  | refl => exact locks_start calls
  | tail before last ih =>
    obtain ⟨i, last⟩ := last
    exact locks_moves (inv_reachable before) ih (step_moves (inv_reachable before) last)

/-! ### Who waits for whom -/

/-- The mutex that a thread is about to lock. -/
def Waits (s : State ι V) (i : ι) (m : Mutex) : Prop :=
  (∃ call, (s.threads i).pc = .lockTree call ∧ m = s.treeMtx) ∨
  ∃ call node mtx, (s.threads i).pc = .lockNode call node mtx ∧ NodeAt s.tree node m

omit [DecidableEq ι] in
theorem waits_eq {m n : Mutex} (hm : Waits s i m) (hn : Waits s i n) : m = n := by
  obtain ⟨call, at_, rfl⟩ | ⟨call, node, mtx, at_, there⟩ := hm <;>
    obtain ⟨call', at', rfl⟩ | ⟨call', node', mtx', at', there'⟩ := hn
  · rfl
  · cases at_.symm.trans at'
  · cases at_.symm.trans at'
  · cases at_.symm.trans at'
    exact there.mtx_eq there'

/-- The one call of a thread that can fail is the copy of its key. -/
def TooLong (s : State ι V) (i : ι) : Prop :=
  ∃ call slot mtx, (s.threads i).pc = .fill call slot mtx ∧ BT_KEY_MAX < call.key.length

def Returned (s : State ι V) (i : ι) : Prop := (s.threads i).pc = .idle ∧ (s.threads i).calls = []

theorem lock_unowned {s : State ι V} {mtx : Mutex} {pc : Pc V} (free : s.owner mtx = none) :
    s.lock i mtx pc = .next ((s.setOwner mtx (some i)).goto i pc) := by
  rw [State.lock, free]

/-- A thread that cannot go on. -/
theorem stays_cases (inv : Inv s) (stays : ∀ s', step s i ≠ .next s') :
    Returned s i ∨ TooLong s i ∨ ∃ m j, Waits s i m ∧ s.owner m = some j := by
  have placed := inv.placed i
  cases at_ : (s.threads i).pc with
  | idle =>
    refine Or.inl ⟨at_, ?_⟩
    cases calls : (s.threads i).calls with
    | nil => rfl
    | cons call calls' => simp [step, at_, calls] at stays
  | lockTree call =>
    refine Or.inr (Or.inr ⟨s.treeMtx, ?_⟩)
    cases owned : s.owner s.treeMtx with
    | none => simp [step, at_, lock_unowned owned] at stays
    | some j => exact ⟨j, Or.inl ⟨call, at_, rfl⟩, rfl⟩
  | testRoot call =>
    cases null : s.tree.isNull with
    | true => simp [step, at_, null] at stays
    | false => simp [step, at_, null] at stays
  | lockNode call node mtx =>
    rw [at_] at placed
    obtain ⟨_, nodeMtx, there⟩ := placed
    obtain ⟨left, right, key, value, read, _⟩ := cell_nodeAt there
    refine Or.inr (Or.inr ⟨nodeMtx, ?_⟩)
    cases owned : s.owner nodeMtx with
    | none => simp [step, at_, read, lock_unowned owned] at stays
    | some j => exact ⟨j, Or.inr ⟨call, node, mtx, at_, there⟩, rfl⟩
  | unlockParent call node mtx =>
    rw [at_] at placed
    simp [step, at_, if_pos placed.1] at stays
  | compare call node =>
    rw [at_] at placed
    obtain ⟨_, mtx, there, _⟩ := placed
    obtain ⟨left, right, key, value, read, _⟩ := cell_nodeAt there
    simp [step, at_, read] at stays
  | create call slot mtx => simp [step, at_] at stays
  | fill call slot mtx =>
    by_cases fits : call.key.length < BT_KEY_MAX + 1
    · simp [step, at_, btCreateNodeTs, Mallocs.succeed, strcpy_fits fits] at stays
    · exact Or.inr (Or.inl ⟨call, slot, mtx, at_, by omega⟩)
  | unlockOwner call mtx =>
    rw [at_] at placed
    have mine : s.owner mtx = some i := placed
    simp [step, at_, if_pos mine] at stays

/-- A thread waits for a mutex that is newer than those it has. -/
theorem waits_newer (inv : Inv s) (locks : Locks s) {m n : Mutex}
    (holds : Holds s.tree s.treeMtx (s.threads i).pc m) (waits : Waits s i n) : m < n := by
  obtain ⟨call, at_, _⟩ | ⟨call, node, mtx, at_, there⟩ := waits
  · rw [at_] at holds
    exact holds.elim
  · have placed := inv.placed i
    rw [at_] at placed holds
    obtain rfl : m = mtx := holds
    obtain ⟨rfl, rfl⟩ | ⟨parent, dir, left, right, key, value, rfl, cell⟩ := placed.1.guards
    · exact (locks.node_lt [] n there).1
    · exact locks.below parent dir m n ⟨left, right, key, value, cell⟩ there

/-- Thread `i` waits at a node whose mutex thread `j` kept as it found its key there. -/
def WaitsForDuplicate (s : State ι V) (i j : ι) : Prop :=
  ∃ call node mtx left right key nodeMtx value, (s.threads i).pc = .lockNode call node mtx ∧
    s.tree.deref node = some (.node left right (some key) ⟨some nodeMtx, value⟩) ∧
    s.owner nodeMtx = some j ∧ (key, -1) ∈ (s.threads j).results

/-- Threads that add to one tree do not keep each other waiting but through the mutex of a key that was
added twice. -/
theorem stuck_cause {calls : ι → List (Call V)} (h : Reachable calls s)
    (stuck : ∀ i s', step s i ≠ .next s') :
    (∀ i, Returned s i) ∨ (∃ i, TooLong s i) ∨ ∃ i j, WaitsForDuplicate s i j := by
  have inv := inv_reachable h
  have locks := locks_reachable h
  by_contra others
  simp only [not_or, not_forall, not_exists] at others
  obtain ⟨⟨i, unreturned⟩, short, none⟩ := others
  obtain ⟨m, j, waits, owned⟩ := ((stays_cases inv (stuck i)).resolve_left unreturned).resolve_left (short i)
  -- What is waited for is left by a duplicate or had by a thread that waits in its turn.
  have holder (i : ι) (m : Mutex) (j : ι) (waits : Waits s i m) (owned : s.owner m = some j) :
      Holds s.tree s.treeMtx (s.threads j).pc m := by
    refine (locks.owned m j owned).resolve_right ?_
    rintro ⟨slot, left, right, key, value, cell, member⟩
    obtain ⟨call, at_, rfl⟩ | ⟨call, node, mtx, at_, there⟩ := waits
    · exact absurd (locks.node_lt slot _ ⟨left, right, key, value, cell⟩).1 (lt_irrefl _)
    · obtain rfl := locks.unique node slot m there ⟨left, right, key, value, cell⟩
      exact none i j ⟨call, node, mtx, left, right, key, m, value, at_, cell, owned, member⟩
  have falls (i : ι) (m : Mutex) (j : ι) (n : Mutex) (waits : Waits s i m) (owned : s.owner m = some j)
      (next : Waits s j n) : s.fresh - n < s.fresh - m := by
    have newer := waits_newer inv locks (holder i m j waits owned) next
    exact Nat.sub_lt_sub_left (locks.owned_lt m j owned) newer
  obtain ⟨k, n, waits, last⟩ := LockOrder.waits_end (fun m => s.fresh - m) falls waits
  have owner (k' : ι) (owned : s.owner n = some k') : False := by
    have holds := holder k n k' waits owned
    obtain returned | long | ⟨n', _, waits', _⟩ := stays_cases inv (stuck k')
    · rw [returned.1] at holds
      exact holds
    · exact short k' long
    · exact last k' owned n' waits'
  obtain returned | long | ⟨n', k', waits', owned⟩ := stays_cases inv (stuck k)
  · obtain ⟨call, at_, _⟩ | ⟨call, node, mtx, at_, _⟩ := waits <;> cases returned.1.symm.trans at_
  · exact short k long
  · obtain rfl : n' = n := waits_eq waits' waits
    exact owner k' owned

/-- One thread adds a key twice, and the other one comes by. -/
def doubleCalls : Bool → List (Call Nat)
  | false => [⟨.ofBytes [97], 7⟩, ⟨.ofBytes [97], 7⟩]
  | true => [⟨.ofBytes [98], 8⟩]

theorem stuck_cause_sample : ∃ s, Reachable doubleCalls s ∧ (∀ i s', step s i ≠ .next s') ∧ ¬ Returned s true ∧
    ((∀ i, Returned s i) ∨ (∃ i, TooLong s i) ∨ ∃ i j, WaitsForDuplicate s i j) := by
  obtain ⟨s, run, blocked, waiting⟩ : ∃ s, follow (start doubleCalls)
      (List.replicate 12 false ++ List.replicate 3 true) = .next s ∧ (∀ i, step s i = .blocked) ∧
      (s.threads true).pc = .lockNode ⟨.ofBytes [98], 8⟩ [] 0 :=
    ⟨_, rfl, fun i => by cases i <;> rfl, rfl⟩
  have stuck : ∀ i s', step s i ≠ .next s' := fun i s' => by simp [blocked i]
  exact ⟨s, follow_steps run, stuck, fun returned => by simp [Returned, waiting] at returned,
    stuck_cause (follow_steps run) stuck⟩

end Tlpi.ThreadSafeTree
