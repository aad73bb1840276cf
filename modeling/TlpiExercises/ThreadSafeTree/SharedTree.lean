import TlpiExercises.ThreadSafeTree.Interleaving

/-!
# What many callers leave in the tree

Hand-over-hand locking. A thread that holds the mutex of a link is still on the search path of
its key, whatever the others did, and no other thread can come to the cell that is being filled
behind the link. `Inv` says so in every reachable state.
-/

namespace Tlpi.ThreadSafeTree

open LinkTree (Slot)

variable {ι V : Type}

/-- `mtx` protects the link `slot`: it is the mutex of the tree or that of the node with the link. -/
def Guards (tree : BTNodeTs V) (treeMtx mtx : Mutex) (slot : Slot) : Prop :=
  (slot = [] ∧ mtx = treeMtx) ∨
  ∃ parent dir left right key value, slot = parent ++ [dir] ∧
    tree.deref parent = some (.node left right (some key) ⟨some mtx, value⟩)

/-- The node behind `slot` is finished, and `mtx` is its mutex. -/
def NodeAt (tree : BTNodeTs V) (slot : Slot) (mtx : Mutex) : Prop :=
  ∃ left right key value, tree.deref slot = some (.node left right (some key) ⟨some mtx, value⟩)

/-- Thread `i` has the mutex of the link `slot`, on the search path of `key`. -/
structure Held (tree : BTNodeTs V) (treeMtx : Mutex) (owner : Mutex → Option ι) (i : ι) (key : CStr)
    (slot : Slot) (mtx : Mutex) : Prop where
  mine : owner mtx = some i
  guards : Guards tree treeMtx mtx slot
  path : tree.OnPath key slot

/-- What thread `i` relies on at `pc`. -/
def Placed (tree : BTNodeTs V) (treeMtx : Mutex) (owner : Mutex → Option ι) (i : ι) :
    Pc V → Prop
  | .idle => True
  | .lockTree _ => True
  | .testRoot _ => owner treeMtx = some i
  | .lockNode call node mtx =>
    Held tree treeMtx owner i call.key node mtx ∧ ∃ nodeMtx, NodeAt tree node nodeMtx
  | .unlockParent call node mtx => owner mtx = some i ∧ tree.OnPath call.key node ∧
    ∃ nodeMtx, NodeAt tree node nodeMtx ∧ owner nodeMtx = some i ∧ nodeMtx ≠ mtx
  | .compare call node => tree.OnPath call.key node ∧
    ∃ nodeMtx, NodeAt tree node nodeMtx ∧ owner nodeMtx = some i
  | .create call slot mtx =>
    Held tree treeMtx owner i call.key slot mtx ∧ tree.deref slot = some .null
  | .fill call slot mtx => Held tree treeMtx owner i call.key slot mtx ∧
    tree.deref slot = some (.node .null .null none ⟨none, call.value⟩)
  | .unlockOwner _ mtx => owner mtx = some i

/-- The key of a call that has linked its cell and has not returned yet. -/
def Pc.pending : Pc V → List CStr
  | .unlockOwner call _ => [call.key]
  | _ => []

def Thread.successes (thread : Thread V) : List CStr :=
  (thread.results.filter (fun r => r.2 = 0)).map Prod.fst ++ thread.pc.pending

def linkedBy [DecidableEq ι] (linked : List (ι × CStr)) (i : ι) : List CStr :=
  (linked.filter (fun l => l.1 = i)).map Prod.snd

structure Inv [DecidableEq ι] (s : State ι V) : Prop where
  ordered : s.tree.Ordered
  mutexes : ∀ slot left right key payload,
    s.tree.deref slot = some (.node left right (some key) payload) →
    ∃ mtx, payload.mtx = some mtx
  filling : ∀ slot left right payload,
    s.tree.deref slot = some (.node left right none payload) →
    ∃ i call mtx, (s.threads i).pc = .fill call slot mtx
  keys : ∀ key, key ∈ s.tree.keys ↔ key ∈ s.linked.map Prod.snd
  once : (s.linked.map Prod.snd).Nodup
  placed : ∀ i, Placed s.tree s.treeMtx s.owner i (s.threads i).pc
  log : ∀ i, linkedBy s.linked i = (s.threads i).successes

/-! ### Frames -/

theorem Guards.unique {tree : BTNodeTs V} {treeMtx a b : Mutex} {slot : Slot}
    (ha : Guards tree treeMtx a slot) (hb : Guards tree treeMtx b slot) : a = b := by
  rcases ha with ⟨root, rfl⟩ | ⟨parent, dir, left, right, key, value, same, cell⟩
  · rcases hb with ⟨_, rfl⟩ | ⟨_, _, _, _, _, _, same, _⟩
    · rfl
    · rw [root] at same
      simp at same
  · rcases hb with ⟨root, _⟩ | ⟨parent', dir', _, _, _, _, same', cell'⟩
    · rw [root] at same
      simp at same
    · obtain ⟨rfl, _⟩ := List.append_inj' (same.symm.trans same') rfl
      rw [cell] at cell'
      simp only [Option.some.injEq, LinkTree.node.injEq, Payload.mk.injEq] at cell'
      exact cell'.2.2.2.1

theorem Held.mono {tree : BTNodeTs V} {treeMtx mtx : Mutex} {owner owner' : Mutex → Option ι} {i : ι}
    {key : CStr} {slot : Slot} (held : Held tree treeMtx owner i key slot mtx)
    (keeps : ∀ m, owner m = some i → owner' m = some i) :
    Held tree treeMtx owner' i key slot mtx :=
  { held with mine := keeps _ held.mine }

theorem Placed.mono {tree : BTNodeTs V} {treeMtx : Mutex} {owner owner' : Mutex → Option ι} {i : ι}
    {pc : Pc V} (placed : Placed tree treeMtx owner i pc)
    (keeps : ∀ m, owner m = some i → owner' m = some i) : Placed tree treeMtx owner' i pc := by
  cases pc with
  | idle => trivial
  | lockTree call => trivial
  | testRoot call => exact keeps _ placed
  | lockNode call node mtx => exact ⟨placed.1.mono keeps, placed.2⟩
  | unlockParent call node mtx =>
    obtain ⟨mine, path, nodeMtx, cell, mine', different⟩ := placed
    exact ⟨keeps _ mine, path, nodeMtx, cell, keeps _ mine', different⟩
  | compare call node =>
    obtain ⟨path, nodeMtx, cell, mine⟩ := placed
    exact ⟨path, nodeMtx, cell, keeps _ mine⟩
  | create call slot mtx => exact ⟨placed.1.mono keeps, placed.2⟩
  | fill call slot mtx => exact ⟨placed.1.mono keeps, placed.2⟩
  | unlockOwner call mtx => exact keeps _ placed

section Growth

variable {tree vacant u : BTNodeTs V} {treeMtx mtx : Mutex} {owner : Mutex → Option ι} {i j : ι}
variable {key : CStr} {link : Slot}

theorem NodeAt.grow {slot : Slot} {nodeMtx : Mutex} (cell : NodeAt tree slot nodeMtx)
    (old : tree.deref link = some vacant) (free : vacant.Vacant) :
    NodeAt (tree.assign link u) slot nodeMtx := by
  obtain ⟨left, right, nodeKey, value, cell⟩ := cell
  obtain ⟨left', right', cell'⟩ := LinkTree.deref_fill (u := u) old free cell
  exact ⟨left', right', nodeKey, value, cell'⟩

theorem Guards.grow {slot : Slot} (guards : Guards tree treeMtx mtx slot)
    (old : tree.deref link = some vacant) (free : vacant.Vacant) :
    Guards (tree.assign link u) treeMtx mtx slot := by
  rcases guards with root | ⟨parent, dir, left, right, nodeKey, value, same, cell⟩
  · exact Or.inl root
  · obtain ⟨left', right', cell'⟩ := LinkTree.deref_fill (u := u) old free cell
    exact Or.inr ⟨parent, dir, left', right', nodeKey, value, same, cell'⟩

theorem Held.grow {slot : Slot} (held : Held tree treeMtx owner i key slot mtx)
    (old : tree.deref link = some vacant) (free : vacant.Vacant) :
    Held (tree.assign link u) treeMtx owner i key slot mtx where
  mine := held.mine
  guards := held.guards.grow old free
  path := LinkTree.onPath_fill old free held.path

/-- Two threads hold the mutexes of different links. -/
theorem Held.apart {slot : Slot} {k : CStr} {m : Mutex}
    (held : Held tree treeMtx owner i key slot mtx)
    (other : Held tree treeMtx owner j k link m) (different : j ≠ i) : slot ≠ link := by
  intro same
  subst same
  have mtxs := held.guards.unique other.guards
  subst mtxs
  exact different (Option.some.inj (other.mine.symm.trans held.mine))

/-- What thread `j` does behind its link leaves the place of thread `i` alone. -/
theorem Placed.grow {k : CStr} {m : Mutex} {pc : Pc V} (placed : Placed tree treeMtx owner i pc)
    (held : Held tree treeMtx owner j k link m) (different : j ≠ i)
    (old : tree.deref link = some vacant) (free : vacant.Vacant) :
    Placed (tree.assign link u) treeMtx owner i pc := by
  cases pc with
  | idle => trivial
  | lockTree call => trivial
  | testRoot call => exact placed
  | lockNode call node mtx =>
    obtain ⟨here, nodeMtx, cell⟩ := placed
    exact ⟨here.grow old free, nodeMtx, cell.grow old free⟩
  | unlockParent call node mtx =>
    obtain ⟨mine, path, nodeMtx, cell, mine', apart⟩ := placed
    exact ⟨mine, LinkTree.onPath_fill old free path, nodeMtx, cell.grow old free, mine', apart⟩
  | compare call node =>
    obtain ⟨path, nodeMtx, cell, mine⟩ := placed
    exact ⟨LinkTree.onPath_fill old free path, nodeMtx, cell.grow old free, mine⟩
  | create call slot mtx =>
    obtain ⟨here, empty⟩ := placed
    have apart := here.apart held different
    exact ⟨here.grow old free,
      LinkTree.deref_fill_other held.path old free here.path empty trivial apart⟩
  | fill call slot mtx =>
    obtain ⟨here, empty⟩ := placed
    have apart := here.apart held different
    exact ⟨here.grow old free,
      LinkTree.deref_fill_other held.path old free here.path empty ⟨rfl, rfl⟩ apart⟩
  | unlockOwner call mtx => exact placed

end Growth

/-! ### Steps -/

section Steps

variable [DecidableEq ι]

theorem inv_start (calls : ι → List (Call V)) : Inv (start calls) where
  ordered := trivial
  mutexes := by
    intro slot left right key payload h
    cases slot <;> cases h
  filling := by
    intro slot left right payload h
    cases slot <;> cases h
  keys := fun key => by simp [start]
  once := List.nodup_nil
  placed := fun i => trivial
  log := fun i => rfl

theorem inv_move {s : State ι V} {i : ι} (thread : Thread V) (owner : Mutex → Option ι)
    (inv : Inv s) (others : ∀ j, j ≠ i → ∀ m, s.owner m = some j → owner m = some j)
    (placed : Placed s.tree s.treeMtx owner i thread.pc)
    (still : ∀ call slot mtx, (s.threads i).pc ≠ .fill call slot mtx)
    (log : thread.successes = (s.threads i).successes) :
    Inv ({ s with owner }.setThread i thread) where
  ordered := inv.ordered
  mutexes := inv.mutexes
  filling := by
    intro slot left right payload h
    obtain ⟨j, call, mtx, pc⟩ := inv.filling slot left right payload h
    have different : j ≠ i := by
      intro same
      subst same
      exact still call slot mtx pc
    refine ⟨j, call, mtx, ?_⟩
    rw [← pc]
    simp [State.setThread, different]
  keys := inv.keys
  once := inv.once
  placed := by
    intro j
    by_cases same : j = i
    · subst same
      simpa [State.setThread] using placed
    · simpa [State.setThread, same] using (inv.placed j).mono (others j same)
  log := by
    intro j
    by_cases same : j = i
    · subst same
      simpa [State.setThread, log] using inv.log j
    · simpa [State.setThread, same] using inv.log j

omit [DecidableEq ι] in
theorem owner_take {s : State ι V} {i : ι} {mtx : Mutex} (free : s.owner mtx = none) (j : ι)
    (m : Mutex) (h : s.owner m = some j) : Function.update s.owner mtx (some i) m = some j := by
  have different : m ≠ mtx := by
    intro same
    rw [same, free] at h
    cases h
  rw [Function.update_of_ne different, h]

omit [DecidableEq ι] in
theorem owner_release {s : State ι V} {i : ι} {mtx : Mutex} (mine : s.owner mtx = some i) (j : ι)
    (other : j ≠ i) (m : Mutex) (h : s.owner m = some j) :
    Function.update s.owner mtx none m = some j := by
  have different : m ≠ mtx := by
    intro same
    rw [same, mine] at h
    exact other (Option.some.inj h).symm
  rw [Function.update_of_ne different, h]

theorem btCreateNodeTs_ok {fresh : Mutex} {key : CStr} {value : V} {status : Status}
    {cell : BTNodeTs V} (h : btCreateNodeTs .succeed fresh key value = .ok (status, cell)) :
    cell = .node .null .null (some key) ⟨some fresh, value⟩ := by
  simp only [btCreateNodeTs, Mallocs.succeed, if_true] at h
  cases copied : strcpy (BT_KEY_MAX + 1) key with
  | error fault =>
    rw [copied] at h
    cases h
  | ok copy =>
    rw [copied, (strcpy_ok copied).1] at h
    exact (Prod.mk.inj (Except.ok.inj h)).2.symm

/-- A thread at the link sees it null or sees a finished node, never a cell that is being filled. -/
theorem placed_next {s : State ι V} {i : ι} {call : Call V} {slot : Slot} {mtx : Mutex}
    {next : BTNodeTs V} (inv : Inv s) (held : Held s.tree s.treeMtx s.owner i call.key slot mtx)
    (cell : s.tree.deref slot = some next)
    (still : ∀ call slot mtx, (s.threads i).pc ≠ .fill call slot mtx) :
    Placed s.tree s.treeMtx s.owner i
      (if next.isNull then .create call slot mtx else .lockNode call slot mtx) := by
  match next, cell with
  | .null, cell => exact ⟨held, cell⟩
  | .node left right (some key) ⟨nodeMtx, value⟩, cell =>
    obtain ⟨a, same⟩ := inv.mutexes slot left right key _ cell
    obtain rfl : nodeMtx = some a := same
    exact ⟨held, a, left, right, key, value, cell⟩
  | .node left right none payload, cell =>
    obtain ⟨j, call', m, pc⟩ := inv.filling slot left right payload cell
    have there := inv.placed j
    rw [pc] at there
    have different : j ≠ i := by
      intro same
      subst same
      exact still call' slot m pc
    exact absurd rfl (held.apart there.1 different)

theorem linkedBy_append (linked : List (ι × CStr)) (keys : List CStr) (i j : ι) :
    linkedBy (linked ++ keys.map (Prod.mk i)) j = linkedBy linked j ++ if i = j then keys else [] := by
  simp only [linkedBy, List.filter_append, List.map_append, List.filter_map]
  by_cases same : i = j <;> simp [same, Function.comp_def]

/-- Thread `i` overwrites the vacant link that it holds with a cell. -/
theorem inv_grow {s : State ι V} {i : ι} {key : CStr} {link : Slot} {mtx : Mutex}
    {vacant : BTNodeTs V} (cellKey : Option CStr) (payload : Payload V) (fresh : Mutex) (pc : Pc V)
    (inv : Inv s) (held : Held s.tree s.treeMtx s.owner i key link mtx)
    (old : s.tree.deref link = some vacant) (free : vacant.Vacant)
    (mine : Placed (s.tree.assign link (.node .null .null cellKey payload)) s.treeMtx s.owner i pc)
    (finished : ∀ k, cellKey = some k → k = key ∧ ∃ m, payload.mtx = some m)
    (unfinished : cellKey = none → ∃ call m, pc = .fill call link m)
    (still : ∀ call slot m, (s.threads i).pc = .fill call slot m → slot = link)
    (pending : pc.pending = (s.threads i).pc.pending ++ cellKey.toList) :
    Inv ({ s with
      tree := s.tree.assign link (.node .null .null cellKey payload)
      fresh
      linked := s.linked ++ cellKey.toList.map (Prod.mk i) }.goto i pc) := by
  have nothing := free.entries_eq
  have keys (k : CStr) : k ∈ (s.tree.assign link (.node .null .null cellKey payload)).keys ↔
      k ∈ cellKey.toList ∨ k ∈ s.tree.keys := by
    rw [LinkTree.mem_keys_link inv.ordered held.path old nothing, LinkTree.keys_cell]
  constructor
  case ordered =>
    exact LinkTree.ordered_link_cell inv.ordered held.path old nothing fun k same => (finished k same).1
  case mutexes =>
    intro slot left right k p cell
    rcases LinkTree.deref_filled old cell with ⟨_, same, rfl⟩ | ⟨_, left', right', before⟩
    · exact (finished k same.symm).2
    · exact inv.mutexes slot left' right' k p before
  case filling =>
    intro slot left right p cell
    rcases LinkTree.deref_filled old cell with ⟨rfl, same, _⟩ | ⟨other, left', right', before⟩
    · obtain ⟨call, m, rfl⟩ := unfinished same.symm
      exact ⟨i, call, m, by simp [State.goto, State.setThread]⟩
    · obtain ⟨j, call, m, there⟩ := inv.filling slot left' right' p before
      have different : j ≠ i := by
        intro same
        subst same
        exact other (still call slot m there)
      refine ⟨j, call, m, ?_⟩
      rw [← there]
      simp [State.goto, State.setThread, different]
  case keys =>
    intro k
    show _ ↔ k ∈ List.map Prod.snd (s.linked ++ cellKey.toList.map (Prod.mk i))
    apply (keys k).trans
    rw [inv.keys]
    simp [or_comm]
  case once =>
    show (List.map Prod.snd (s.linked ++ cellKey.toList.map (Prod.mk i))).Nodup
    cases cellKey with
    | none => simpa using inv.once
    | some k =>
      have absent : k ∉ s.tree.keys := by
        rw [(finished k rfl).1, LinkTree.mem_keys_of_onPath inv.ordered held.path old,
          LinkTree.keys, nothing]
        simp
      rw [inv.keys] at absent
      simp only [Option.toList_some, List.map_cons, List.map_nil, List.map_append]
      apply List.nodup_append.mpr
      refine ⟨inv.once, List.nodup_singleton k, ?_⟩
      intro a ha b hb same
      rw [same, List.mem_singleton.mp hb] at ha
      exact absent ha
  case placed =>
    intro j
    by_cases same : j = i
    · subst same
      simpa [State.goto, State.setThread] using mine
    · simpa [State.goto, State.setThread, same] using
        (inv.placed j).grow held (fun h => same h.symm) old free
  case log =>
    intro j
    show linkedBy (s.linked ++ cellKey.toList.map (Prod.mk i)) j = _
    rw [linkedBy_append, inv.log j]
    by_cases same : j = i
    · subst same
      simp [State.goto, State.setThread, Thread.successes, pending]
    · have same' : i ≠ j := fun h => same h.symm
      simp [State.goto, State.setThread, same, same']

theorem inv_create {s : State ι V} {i : ι} {call : Call V} {slot : Slot} {mtx : Mutex}
    (inv : Inv s) (pc : (s.threads i).pc = .create call slot mtx) :
    Inv (s.create i call slot mtx) := by
  have here := inv.placed i
  rw [pc] at here
  obtain ⟨held, empty⟩ := here
  have grown := inv_grow none ⟨none, call.value⟩ s.fresh (.fill call slot mtx) inv held empty trivial
    ⟨held.grow empty trivial, LinkTree.deref_assign empty⟩ (fun k h => by cases h)
    (fun _ => ⟨call, mtx, rfl⟩) (fun _ _ _ there => by rw [pc] at there; cases there)
    (by rw [pc]; rfl)
  simpa [State.create] using grown

theorem inv_fill {s : State ι V} {i : ι} {call : Call V} {slot : Slot} {mtx : Mutex}
    {status : Status} {cell : BTNodeTs V} (inv : Inv s)
    (pc : (s.threads i).pc = .fill call slot mtx)
    (filled : btCreateNodeTs .succeed s.fresh call.key call.value = .ok (status, cell)) :
    Inv (s.fill i call slot mtx cell) := by
  have here := inv.placed i
  rw [pc] at here
  obtain ⟨held, empty⟩ := here
  have same := btCreateNodeTs_ok filled
  have grown := inv_grow (some call.key) ⟨some s.fresh, call.value⟩ (s.fresh + 1)
    (.unlockOwner call mtx) inv held empty ⟨rfl, rfl⟩ held.mine
    (fun k h => ⟨(Option.some.inj h).symm, s.fresh, rfl⟩) (fun h => by cases h)
    (fun _ _ _ there => by rw [pc] at there; cases there; rfl) (by rw [pc]; rfl)
  simpa [State.fill, same] using grown

theorem lock_next {s s' : State ι V} {i : ι} {mtx : Mutex} {pc : Pc V}
    (h : s.lock i mtx pc = .next s') :
    s.owner mtx = none ∧ s' = (s.setOwner mtx (some i)).goto i pc := by
  unfold State.lock at h
  split at h
  · rename_i free
    exact ⟨free, (Outcome.next.inj h).symm⟩
  · cases h

theorem inv_lock {s : State ι V} {i : ι} {mtx : Mutex} {pc : Pc V} (inv : Inv s)
    (free : s.owner mtx = none)
    (placed : Placed s.tree s.treeMtx (Function.update s.owner mtx (some i)) i pc)
    (still : ∀ call slot mtx, (s.threads i).pc ≠ .fill call slot mtx)
    (before : (s.threads i).pc.pending = []) (after : pc.pending = []) :
    Inv ((s.setOwner mtx (some i)).goto i pc) :=
  inv_move { s.threads i with pc } _ inv (fun j _ => owner_take free j) placed still
    (by rw [Thread.successes, Thread.successes, before, after])

theorem inv_goto {s : State ι V} {i : ι} {pc : Pc V} (inv : Inv s)
    (placed : Placed s.tree s.treeMtx s.owner i pc)
    (still : ∀ call slot mtx, (s.threads i).pc ≠ .fill call slot mtx)
    (before : (s.threads i).pc.pending = []) (after : pc.pending = []) : Inv (s.goto i pc) :=
  inv_move { s.threads i with pc } s.owner inv (fun _ _ _ h => h) placed
    still (by rw [Thread.successes, Thread.successes, before, after])

/-- Looking at a link whose mutex the thread holds. -/
theorem inv_next {s : State ι V} {i : ι} (call : Call V) {slot : Slot} {mtx : Mutex}
    {next : BTNodeTs V} (inv : Inv s) (held : Held s.tree s.treeMtx s.owner i call.key slot mtx)
    (cell : s.tree.deref slot = some next)
    (still : ∀ call slot mtx, (s.threads i).pc ≠ .fill call slot mtx)
    (before : (s.threads i).pc.pending = []) :
    Inv (if next.isNull then s.goto i (.create call slot mtx)
      else s.goto i (.lockNode call slot mtx)) := by
  have placed := placed_next inv held cell still
  split at placed
  · rename_i isNull
    rw [if_pos isNull]
    exact inv_goto inv placed still before rfl
  · rename_i notNull
    rw [if_neg notNull]
    exact inv_goto inv placed still before rfl

theorem inv_descend {s : State ι V} {i : ι} {call : Call V} {node : Slot} {left right : BTNodeTs V}
    {nodeKey : CStr} {mtx : Mutex} {value : V} (inv : Inv s)
    (pc : (s.threads i).pc = .compare call node) (path : s.tree.OnPath call.key node)
    (cell : s.tree.deref node = some (.node left right (some nodeKey) ⟨some mtx, value⟩))
    (mine : s.owner mtx = some i) : Inv (s.descend i call node left right nodeKey mtx) := by
  have still : ∀ call slot mtx, (s.threads i).pc ≠ .fill call slot mtx := by
    intro call slot mtx there
    rw [pc] at there
    cases there
  have before : (s.threads i).pc.pending = [] := by rw [pc]; rfl
  have held (dir : LinkTree.Dir) (side : LinkTree.OnPath (.node left right (some nodeKey)
      ⟨some mtx, value⟩) call.key [dir]) :
      Held s.tree s.treeMtx s.owner i call.key (node ++ [dir]) mtx :=
    { mine
      guards := Or.inr ⟨node, dir, left, right, nodeKey, value, rfl, cell⟩
      path := LinkTree.onPath_append path cell side }
  unfold State.descend
  by_cases same : strcmp call.key nodeKey = 0
  · simp only [if_pos same]
    refine inv_move _ s.owner inv (fun _ _ _ h => h) trivial still ?_
    rw [Thread.successes, Thread.successes, before]
    simp [Pc.pending]
  · simp only [if_neg same]
    by_cases below : strcmp call.key nodeKey < 0
    · simp only [if_pos below]
      refine inv_next call inv (held .left ⟨below, LinkTree.onPath_root _ _⟩) ?_ still before
      rw [LinkTree.deref_append, cell]
      simp [LinkTree.deref]
    · have above : nodeKey < call.key := by
        apply CStr.gt_iff.mpr
        omega
      simp only [if_neg below]
      refine inv_next call inv (held .right ⟨above, LinkTree.onPath_root _ _⟩) ?_ still before
      rw [LinkTree.deref_append, cell]
      simp [LinkTree.deref]

omit [DecidableEq ι] in
theorem cell_nodeAt {s : State ι V} {node : Slot} {mtx : Mutex} (there : NodeAt s.tree node mtx) :
    ∃ left right key value, s.cell node = some (left, right, some key, ⟨some mtx, value⟩) ∧
      s.tree.deref node = some (.node left right (some key) ⟨some mtx, value⟩) := by
  obtain ⟨left, right, key, value, cell⟩ := there
  exact ⟨left, right, key, value, by rw [State.cell, cell], cell⟩

theorem inv_testRoot {s s' : State ι V} {i : ι} {call : Call V} (inv : Inv s)
    (pc : (s.threads i).pc = .testRoot call) (h : step s i = .next s') : Inv s' := by
  have here := inv.placed i
  rw [pc] at here
  have held : Held s.tree s.treeMtx s.owner i call.key [] s.treeMtx :=
    ⟨here, Or.inl ⟨rfl, rfl⟩, LinkTree.onPath_root _ _⟩
  have next := inv_next call inv held (LinkTree.deref_root _) (by simp [pc]) (by rw [pc]; rfl)
  simp only [step, pc] at h
  split at h
  · rename_i isNull
    rw [if_pos isNull] at next
    obtain rfl := Outcome.next.inj h
    exact next
  · rename_i notNull
    rw [if_neg notNull] at next
    obtain rfl := Outcome.next.inj h
    exact next

theorem inv_lockNode {s s' : State ι V} {i : ι} {call : Call V} {node : Slot} {mtx : Mutex} (inv : Inv s)
    (pc : (s.threads i).pc = .lockNode call node mtx) (h : step s i = .next s') : Inv s' := by
  have here := inv.placed i
  rw [pc] at here
  obtain ⟨held, nodeMtx, there⟩ := here
  obtain ⟨left, right, key, value, read, cell⟩ := cell_nodeAt there
  simp only [step, pc, read] at h
  obtain ⟨free, rfl⟩ := lock_next h
  have different : nodeMtx ≠ mtx := by
    intro same
    rw [same, held.mine] at free
    cases free
  refine inv_lock inv free ?_ (by simp [pc]) (by rw [pc]; rfl) rfl
  exact ⟨owner_take free i mtx held.mine, held.path, nodeMtx, there, by simp, different⟩

theorem inv_unlockParent {s s' : State ι V} {i : ι} {call : Call V} {node : Slot} {mtx : Mutex} (inv : Inv s)
    (pc : (s.threads i).pc = .unlockParent call node mtx) (h : step s i = .next s') : Inv s' := by
  have here := inv.placed i
  rw [pc] at here
  obtain ⟨mine, path, nodeMtx, there, mine', different⟩ := here
  simp only [step, pc, if_pos mine] at h
  obtain rfl := Outcome.next.inj h
  refine inv_move _ _ inv (fun j => owner_release mine j) ?_ (by simp [pc]) ?_
  · refine ⟨path, nodeMtx, there, ?_⟩
    rw [Function.update_of_ne different, mine']
  · rw [Thread.successes, Thread.successes, pc]
    rfl

theorem inv_compare {s s' : State ι V} {i : ι} {call : Call V} {node : Slot} (inv : Inv s)
    (pc : (s.threads i).pc = .compare call node) (h : step s i = .next s') : Inv s' := by
  have here := inv.placed i
  rw [pc] at here
  obtain ⟨path, nodeMtx, there, mine⟩ := here
  obtain ⟨left, right, key, value, read, cell⟩ := cell_nodeAt there
  simp only [step, pc, read] at h
  obtain rfl := Outcome.next.inj h
  exact inv_descend inv pc path cell mine

theorem inv_unlockOwner {s s' : State ι V} {i : ι} {call : Call V} {mtx : Mutex} (inv : Inv s)
    (pc : (s.threads i).pc = .unlockOwner call mtx) (h : step s i = .next s') : Inv s' := by
  have here := inv.placed i
  rw [pc] at here
  have mine : s.owner mtx = some i := here
  simp only [step, pc, if_pos mine] at h
  obtain rfl := Outcome.next.inj h
  refine inv_move _ _ inv (fun j => owner_release mine j) trivial (by simp [pc]) ?_
  rw [Thread.successes, Thread.successes, pc]
  simp [Pc.pending, State.setOwner]

theorem inv_step {s s' : State ι V} {i : ι} (inv : Inv s) (h : step s i = .next s') : Inv s' := by
  cases pc : (s.threads i).pc with
  | idle =>
    simp only [step, pc] at h
    split at h
    · cases h
    · obtain rfl := Outcome.next.inj h
      refine inv_move _ s.owner inv (fun _ _ _ h => h) trivial (by simp [pc]) ?_
      rw [Thread.successes, Thread.successes, pc]
      rfl
  | lockTree call =>
    simp only [step, pc] at h
    obtain ⟨free, rfl⟩ := lock_next h
    exact inv_lock inv free (by simp [Placed]) (by simp [pc]) (by rw [pc]; rfl) rfl
  | testRoot call => exact inv_testRoot inv pc h
  | lockNode call node mtx => exact inv_lockNode inv pc h
  | unlockParent call node mtx => exact inv_unlockParent inv pc h
  | compare call node => exact inv_compare inv pc h
  | create call slot mtx =>
    simp only [step, pc] at h
    obtain rfl := Outcome.next.inj h
    exact inv_create inv pc
  | fill call slot mtx =>
    simp only [step, pc] at h
    split at h
    · rename_i filled
      obtain rfl := Outcome.next.inj h
      exact inv_fill inv pc filled
    · cases h
  | unlockOwner call mtx => exact inv_unlockOwner inv pc h

theorem inv_reachable {calls : ι → List (Call V)} {s : State ι V} (h : Reachable calls s) :
    Inv s := by
  induction h with
  | refl => exact inv_start calls
  | tail _ last ih =>
    obtain ⟨i, last⟩ := last
    exact inv_step ih last

/-- No thread ever comes to a null link or an unfinished cell, and none unlocks a mutex of
another: the one step that can fail is the copy of a key that is too long. -/
theorem reachable_failed {calls : ι → List (Call V)} {s : State ι V} {i : ι} {error : CallError}
    (h : Reachable calls s) (failed : step s i = .failed error) :
    error = .fault .outOfBounds ∧
      ∃ call slot mtx, (s.threads i).pc = .fill call slot mtx ∧ BT_KEY_MAX < call.key.length := by
  have here := (inv_reachable h).placed i
  have lock_returns (mtx : Mutex) (pc : Pc V) : s.lock i mtx pc ≠ .failed error := by
    unfold State.lock
    split <;> simp
  cases pc : (s.threads i).pc with
  | idle =>
    simp only [step, pc] at failed
    split at failed <;> cases failed
  | lockTree call =>
    simp only [step, pc] at failed
    exact absurd failed (lock_returns _ _)
  | testRoot call =>
    simp only [step, pc] at failed
    split at failed <;> cases failed
  | lockNode call node mtx =>
    rw [pc] at here
    obtain ⟨_, nodeMtx, there⟩ := here
    obtain ⟨left, right, key, value, read, _⟩ := cell_nodeAt there
    simp only [step, pc, read] at failed
    exact absurd failed (lock_returns _ _)
  | unlockParent call node mtx =>
    rw [pc] at here
    simp only [step, pc, if_pos here.1] at failed
    cases failed
  | compare call node =>
    rw [pc] at here
    obtain ⟨_, nodeMtx, there, _⟩ := here
    obtain ⟨left, right, key, value, read, _⟩ := cell_nodeAt there
    simp only [step, pc, read] at failed
    cases failed
  | create call slot mtx =>
    simp only [step, pc] at failed
    cases failed
  | fill call slot mtx =>
    simp only [step, pc, btCreateNodeTs, Mallocs.succeed, if_true] at failed
    by_cases fits : call.key.length < BT_KEY_MAX + 1
    · rw [strcpy_fits fits] at failed
      cases failed
    · have long : BT_KEY_MAX + 1 ≤ call.key.length := by omega
      rw [strcpy_overflow long] at failed
      exact ⟨(Outcome.failed.inj failed).symm, call, slot, mtx, rfl, long⟩
  | unlockOwner call mtx =>
    rw [pc] at here
    have mine : s.owner mtx = some i := here
    simp only [step, pc, if_pos mine] at failed
    cases failed

theorem mem_linkedBy {linked : List (ι × CStr)} {i : ι} {key : CStr} :
    key ∈ linkedBy linked i ↔ (i, key) ∈ linked := by
  simp [linkedBy]

theorem linkedBy_nodup {linked : List (ι × CStr)} (once : (linked.map Prod.snd).Nodup) (i : ι) :
    (linkedBy linked i).Nodup :=
  once.sublist (List.filter_sublist.map _)

omit [DecidableEq ι] in
theorem count_successes {thread : Thread V} (idle : thread.pc = .idle) (key : CStr) :
    thread.successes.count key = thread.results.count (key, 0) := by
  have results : thread.successes = (thread.results.filter (fun r => r.2 = 0)).map Prod.fst := by
    rw [Thread.successes, idle]
    exact List.append_nil _
  rw [results]
  induction thread.results with
  | nil => rfl
  | cons result results ih =>
    obtain ⟨k, rv⟩ := result
    by_cases zero : rv = 0
    · simp [zero, List.count_cons, ih]
    · simp [zero, ih]

theorem mem_linked_iff {s : State ι V} (inv : Inv s) {i : ι} (idle : (s.threads i).pc = .idle)
    (key : CStr) : (i, key) ∈ s.linked ↔ (key, 0) ∈ (s.threads i).results := by
  rw [← mem_linkedBy, inv.log i, ← List.count_pos_iff, ← List.count_pos_iff,
    count_successes idle]

theorem linked_unique {s : State ι V} (inv : Inv s) {i j : ι} {key : CStr}
    (hi : (i, key) ∈ s.linked) (hj : (j, key) ∈ s.linked) : i = j :=
  (Prod.mk.inj (List.inj_on_of_nodup_map inv.once hi hj rfl)).1

/-- Any number of threads, in any order of their steps. -/
theorem reachable_shared_tree {calls : ι → List (Call V)} {s : State ι V} (h : Reachable calls s) :
    s.tree.Ordered ∧ s.tree.keys.Nodup ∧
      (∀ slot left right payload, s.tree.deref slot = some (.node left right none payload) →
        ∃ i call mtx, (s.threads i).pc = .fill call slot mtx) ∧
      (∀ key, key ∈ s.tree.keys ↔ ∃ i, (i, key) ∈ s.linked) ∧
      ((∀ i, (s.threads i).pc = .idle) →
        s.tree.Complete ∧
        (∀ key, key ∈ s.tree.keys ↔ ∃ i, (key, 0) ∈ (s.threads i).results) ∧
        ∀ key ∈ s.tree.keys, ∃ i, (s.threads i).results.count (key, 0) = 1 ∧
          ∀ j, j ≠ i → (key, 0) ∉ (s.threads j).results) := by
  have inv := inv_reachable h
  have keys (key : CStr) : key ∈ s.tree.keys ↔ ∃ i, (i, key) ∈ s.linked := by
    simp [inv.keys key]
  refine ⟨inv.ordered, inv.ordered.nodup, inv.filling, keys, fun idle => ⟨?_, ?_, ?_⟩⟩
  · apply LinkTree.complete_iff.mpr
    intro slot left right payload cell
    obtain ⟨i, call, mtx, pc⟩ := inv.filling slot left right payload cell
    rw [idle i] at pc
    cases pc
  · intro key
    rw [keys key]
    exact exists_congr fun i => mem_linked_iff inv (idle i) key
  · intro key present
    obtain ⟨i, linked⟩ := (keys key).mp present
    refine ⟨i, ?_, ?_⟩
    · rw [← count_successes (idle i), ← inv.log i]
      exact List.count_eq_one_of_mem (linkedBy_nodup inv.once i) (mem_linkedBy.mpr linked)
    · intro j different success
      exact different (linked_unique inv ((mem_linked_iff inv (idle j) key).mpr success) linked)

def follow (s : State ι V) : List ι → Outcome (State ι V)
  | [] => .next s
  | i :: is =>
    match step s i with
    | .next next => follow next is
    | outcome => outcome

theorem follow_steps {is : List ι} {s s' : State ι V} (h : follow s is = .next s') :
    Relation.ReflTransGen Steps s s' := by
  induction is generalizing s with
  | nil =>
    obtain rfl := Outcome.next.inj h
    exact Relation.ReflTransGen.refl
  | cons i is ih =>
    unfold follow at h
    split at h
    · rename_i next taken
      exact Relation.ReflTransGen.head ⟨i, taken⟩ (ih h)
    · rename_i stopped
      exact absurd h (stopped s')

end Steps

def sampleCalls : Bool → List (Call Nat) := fun _ => [⟨.ofBytes [97], 7⟩]

def sampleSchedule : List Bool := List.replicate 6 false ++ List.replicate 6 true

theorem reachable_shared_tree_sample : ∃ s : State Bool Nat, Reachable sampleCalls s ∧
    s.tree.Complete ∧ s.tree.keys = [.ofBytes [97]] ∧
    (s.threads true).results = [(.ofBytes [97], -1)] ∧
    ∃ i, (s.threads i).results.count (.ofBytes [97], 0) = 1 := by
  obtain ⟨s, run, idle, keys, second⟩ : ∃ s, follow (start sampleCalls) sampleSchedule = .next s ∧
      (∀ i, (s.threads i).pc = .idle) ∧ s.tree.keys = [.ofBytes [97]] ∧
      (s.threads true).results = [(.ofBytes [97], -1)] :=
    ⟨_, rfl, fun i => by cases i <;> rfl, rfl, rfl⟩
  have reachable : Reachable sampleCalls s := follow_steps run
  obtain ⟨_, _, _, _, returned⟩ := reachable_shared_tree reachable
  obtain ⟨complete, _, once⟩ := returned idle
  obtain ⟨i, counted, _⟩ := once (.ofBytes [97]) (by rw [keys]; exact List.mem_singleton_self _)
  exact ⟨s, reachable, complete, keys, second, i, counted⟩

end Tlpi.ThreadSafeTree
