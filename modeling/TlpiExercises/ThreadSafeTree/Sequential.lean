import TlpiExercises.ThreadSafeTree.LockBalance
import TlpiExercises.BinaryTree.Lookup
import TlpiExercises.Library.Runs

/-!
# The two trees side by side

One thread makes the same calls on a tree of lib/binary_tree.c and on one of ts_btree.h, both empty
at first. What a call of ts_btree.h leaves locked stays locked for the calls after it.
-/

namespace Tlpi.ThreadSafeTree.Sequential

open LinkTree Runs

variable {V : Type}

/-- The arguments of a call, and what `malloc` answers inside it. `value` of a lookup is what
`*value` holds before. -/
inductive Call (V : Type) where
  | add (key : CStr) (value : V) (plain : BinaryTree.Mallocs) (shared : Mallocs)
  | lookup (key : CStr) (value : V) (out : Bool)
  | delete (key : CStr) (out : Bool)

/-- What a call returns, and for a lookup what `*value` holds afterwards. -/
abbrev Reply (V : Type) := Status × Option V

def plainCall (tree : BinaryTree.BTree V) : Call V → Except Fault (Reply V × BinaryTree.BTree V)
  | .add key value m _ =>
    (BinaryTree.btAdd m tree key value).map (fun r => ((r.1, none), r.2))
  | .lookup key value _ =>
    (BinaryTree.btLookup tree key value).map (fun r => ((r.1, some r.2), tree))
  | .delete key _ => (BinaryTree.btDelete tree key).map (fun r => ((r.1, none), r.2))

def sharedCall (fresh : Mutex) (tree : BTreeTs V) (held : List Mutex) :
    Call V → Except CallError ((Reply V × BTreeTs V) × List Mutex)
  | .add key value _ m =>
    (btAddTs m fresh tree key value held).map (fun r => (((r.1.1, none), r.1.2), r.2))
  | .lookup key value out =>
    (btLookupTs out tree key value held).map (fun r => (((r.1.1, some r.1.2), tree), r.2))
  | .delete key out =>
    (btDeleteTs out tree key held).map (fun r => (((r.1.1, none), r.1.2), r.2))

structure State (V : Type) where
  plain : BinaryTree.BTree V
  shared : BTreeTs V
  held : List Mutex
  fresh : Mutex
  replies : List (Reply V × Reply V)

/-- Mutexes are numbered as `malloc` hands them out; that of the tree is the first. -/
def initial : State V := ⟨BinaryTree.btInitialize, ⟨.null, 0⟩, [], 1, []⟩

def step (s : State V) (call : Call V) : Except CallError (State V) :=
  match sharedCall s.fresh s.shared s.held call, plainCall s.plain call with
  | .error e, _ => .error e
  | .ok _, .error fault => .error (.fault fault)
  | .ok ((reply, shared), held), .ok (reply', plain) =>
    .ok ⟨plain, shared, held, s.fresh + 1, s.replies ++ [(reply, reply')]⟩

/-- The trees have the same shape, keys and values, and every call has returned the same on both. -/
structure Same (s : State V) : Prop where
  trees : s.shared.root.map Payload.value = s.plain.root
  replies : ∀ r ∈ s.replies, r.1 = r.2

def Call.Allocated : Call V → Prop
  | .add _ _ plain shared => plain = .succeed ∧ shared = .succeed
  | .lookup _ _ out => out = true
  | .delete _ out => out = true

/-- No node on the way to the key is still locked, a key that is new fits, a key that is looked up is
there, and a key that is deleted is not. -/
def Meets (s : State V) : Call V → Prop
  | .add key _ _ _ => Clear s.held key s.shared.root ∧
      (key ∈ s.shared.root.keys ∨ key.length ≤ BT_KEY_MAX)
  | .lookup key _ _ => Clear s.held key s.shared.root ∧
      (s.shared.root = .null ∨ key ∈ s.shared.root.keys)
  | .delete key _ => Clear s.held key s.shared.root ∧ key ∉ s.shared.root.keys

structure Inv (s : State V) : Prop where
  wellLocked : WellLocked s.shared
  fits : ∀ key ∈ s.shared.root.keys, key.length ≤ BT_KEY_MAX
  free : s.shared.mtx ∉ s.held
  numbered : ∀ a, some a ∈ some s.shared.mtx :: mutexes s.shared.root → a < s.fresh

theorem inv_initial : Inv (initial : State V) where
  wellLocked := ⟨trivial, trivial, List.not_mem_nil, List.nodup_singleton _⟩
  fits := by simp [initial]
  free := List.not_mem_nil
  numbered := by simp [initial, mutexes]

/-! ### The two sides of one state -/

section Sides

variable {s : State V}

theorem Same.sound (same : Same s) (inv : Inv s) : BinaryTree.Sound s.plain.root where
  ordered := by
    rw [← same.trees]
    exact (ordered_map _).mpr inv.wellLocked.ordered
  fits := by
    rw [← same.trees, keys_map]
    exact inv.fits

theorem Same.complete (same : Same s) (inv : Inv s) : s.plain.root.Complete := by
  rw [← same.trees]
  exact (complete_map _).mpr inv.wellLocked.complete

theorem Same.keys (same : Same s) : s.plain.root.keys = s.shared.root.keys := by
  rw [← same.trees, keys_map]

theorem Same.null (same : Same s) : s.plain.root = .null ↔ s.shared.root = .null := by
  rw [← same.trees, map_eq_null]

theorem step_error {call : Call V} {e : CallError}
    (h : sharedCall s.fresh s.shared s.held call = .error e) : step s call = .error e := by
  rw [step, h]

theorem step_ok {call : Call V} {reply : Reply V} {plain : BinaryTree.BTree V} {shared : BTreeTs V}
    {held : List Mutex}
    (left : sharedCall s.fresh s.shared s.held call = .ok ((reply, shared), held))
    (right : plainCall s.plain call = .ok (reply, plain)) :
    step s call = .ok ⟨plain, shared, held, s.fresh + 1, s.replies ++ [(reply, reply)]⟩ := by
  rw [step, left, right]

theorem Same.next (same : Same s) {reply : Reply V} {plain : BinaryTree.BTree V}
    {shared : BTreeTs V} {held : List Mutex} {fresh : Mutex}
    (trees : shared.root.map Payload.value = plain.root) :
    Same ⟨plain, shared, held, fresh, s.replies ++ [(reply, reply)]⟩ where
  trees := trees
  replies := by
    intro r member
    rcases List.mem_append.mp member with old | new
    · exact same.replies r old
    · rw [List.mem_singleton.mp new]

theorem Inv.next (inv : Inv s) {plain : BinaryTree.BTree V} {held : List Mutex}
    {replies : List (Reply V × Reply V)} (free : s.shared.mtx ∉ held) :
    Inv ⟨plain, s.shared, held, s.fresh + 1, replies⟩ where
  wellLocked := inv.wellLocked
  fits := inv.fits
  free := free
  numbered := fun a member => Nat.lt_succ_of_lt (inv.numbered a member)

end Sides

/-! ### A new node -/

theorem btCreateNodeTs_succeed {key : CStr} (fresh : Mutex) (value : V)
    (fits : key.length ≤ BT_KEY_MAX) : btCreateNodeTs .succeed fresh key value =
      .ok (.success, .node .null .null (some key) ⟨some fresh, value⟩) := by
  simp [btCreateNodeTs, Mallocs.succeed, strcpy_fits (Nat.lt_succ_of_le fits)]

theorem btCreateNodeTs_overflow {key : CStr} (fresh : Mutex) (value : V)
    (long : ¬ key.length ≤ BT_KEY_MAX) :
    ∃ e, btCreateNodeTs .succeed fresh key value = .error e := by
  simp [btCreateNodeTs, Mallocs.succeed, strcpy_overflow (Nat.not_le.mp long)]

theorem mutexes_link {node u : BTNodeTs V} {slot : Slot} (null : node.deref slot = some .null) :
    (mutexes (node.assign slot u)).Perm (mutexes u ++ mutexes node) := by
  induction slot generalizing node with
  | nil =>
    obtain rfl : node = .null := by simpa using null
    simp [mutexes]
  | cons d slot ih =>
    cases node with
    | null => cases null
    | node left right key payload =>
      cases d with
      | left =>
        have below : (mutexes (left.assign slot u) ++ mutexes right).Perm
            (mutexes u ++ (mutexes left ++ mutexes right)) := by
          rw [← List.append_assoc]
          exact (ih (show left.deref slot = some .null from null)).append_right _
        exact (below.cons _).trans List.perm_middle.symm
      | right =>
        have below : (mutexes left ++ mutexes (right.assign slot u)).Perm
            (mutexes u ++ (mutexes left ++ mutexes right)) := by
          apply ((ih (show right.deref slot = some .null from null)).append_left _).trans
          rw [← List.append_assoc, ← List.append_assoc]
          exact List.perm_append_comm.append_right _
        exact (below.cons _).trans List.perm_middle.symm

theorem Inv.link {s : State V} (inv : Inv s) {key : CStr} {slot : Slot} (value : V)
    {plain : BinaryTree.BTree V} {replies : List (Reply V × Reply V)}
    (path : s.shared.root.OnPath key slot) (null : s.shared.root.deref slot = some .null)
    (fits : key.length ≤ BT_KEY_MAX) :
    Inv ⟨plain, ⟨s.shared.root.assign slot (.node .null .null (some key) ⟨some s.fresh, value⟩),
      s.shared.mtx⟩, s.held, s.fresh + 1, replies⟩ := by
  have mutexes' := mutexes_link (u := .node .null .null (some key) ⟨some s.fresh, value⟩) null
  have new : some s.fresh ∉ some s.shared.mtx :: mutexes s.shared.root :=
    fun member => absurd (inv.numbered _ member) (lt_irrefl _)
  rw [List.mem_cons, not_or] at new
  have distinct := List.nodup_cons.mp inv.wellLocked.distinct
  have all (a : Option Mutex) : a ∈ mutexes (s.shared.root.assign slot
      (.node .null .null (some key) ⟨some s.fresh, value⟩)) ↔
        a = some s.fresh ∨ a ∈ mutexes s.shared.root := by
    rw [mutexes'.mem_iff]
    simp [mutexes]
  constructor
  case wellLocked =>
    constructor
    case ordered =>
      exact ordered_link_cell inv.wellLocked.ordered path null rfl fun _ same => (Option.some.inj same).symm
    case complete => exact complete_assign inv.wellLocked.complete ⟨rfl, trivial, trivial⟩
    case allocated =>
      rw [all]
      simpa using inv.wellLocked.allocated
    case distinct =>
      rw [List.nodup_cons, all, mutexes'.nodup_iff]
      refine ⟨?_, ?_⟩
      · rintro (same | inside)
        · exact new.1 same.symm
        · exact distinct.1 inside
      · exact List.nodup_cons.mpr ⟨new.2, distinct.2⟩
  case fits =>
    intro x member
    rcases (mem_keys_link inv.wellLocked.ordered path null rfl x).mp member with here | before
    · obtain rfl := List.mem_singleton.mp here
      exact fits
    · exact inv.fits x before
  case free => exact inv.free
  case numbered =>
    intro a member
    rcases List.mem_cons.mp member with same | inside
    · exact Nat.lt_succ_of_lt (inv.numbered a (same ▸ List.mem_cons_self))
    · rcases (all _).mp inside with same | before
      · rw [Option.some.inj same]
        exact Nat.lt_succ_self _
      · exact Nat.lt_succ_of_lt (inv.numbered a (List.mem_cons_of_mem _ before))

/-! ### One call -/

/-- Either the call meets its condition and leaves both sides the same, or it does neither. -/
def Decided (s : State V) (call : Call V) : Prop :=
  (Meets s call ∧ ∃ t, step s call = .ok t ∧ Same t ∧ Inv t) ∨
  (¬ Meets s call ∧ ∀ t, step s call = .ok t → ¬ Same t)

section Step

variable {s : State V}

theorem decided_error {call : Call V} {e : CallError} (unmet : ¬ Meets s call)
    (h : sharedCall s.fresh s.shared s.held call = .error e) : Decided s call := by
  refine Or.inr ⟨unmet, fun t stepped => ?_⟩
  rw [step_error h] at stepped
  cases stepped

theorem step_add (same : Same s) (inv : Inv s) (key : CStr) (value : V) :
    Decided s (.add key value .succeed .succeed) := by
  rcases btAddTs_cases .succeed s.fresh key value inv.wellLocked inv.free with
    ⟨locked, e, call⟩ | ⟨clear, present, a, inside, call⟩ | ⟨clear, absent, slot, path, null, call⟩
  · exact decided_error (fun meets => locked meets.1) (by rw [sharedCall, call]; rfl)
  · have found : key ∈ s.plain.root.keys := by rwa [same.keys]
    have plain := BinaryTree.btAdd_present .succeed value (same.sound inv).ordered found
    have different : a ≠ s.shared.mtx := by
      rintro rfl
      exact (List.nodup_cons.mp inv.wellLocked.distinct).1 inside
    refine Or.inl ⟨⟨clear, Or.inl present⟩, _, step_ok (by rw [sharedCall, call]; rfl)
      (by rw [plainCall, plain]; rfl), same.next same.trees, inv.next ?_⟩
    rw [List.mem_cons, not_or]
    exact ⟨different.symm, inv.free⟩
  · by_cases fits : key.length ≤ BT_KEY_MAX
    · rw [btCreateNodeTs_succeed s.fresh value fits] at call
      -- Both sides link the new node where the search path ends.
      rcases BinaryTree.btAdd_cases .succeed key value (same.sound inv).ordered with
        ⟨found, _⟩ | ⟨slot', path', null', plain⟩ | ⟨_, incomplete, _⟩
      · rw [same.keys] at found
        exact absurd found absent
      · rw [BinaryTree.btCreateNode_succeed value fits] at plain
        rw [← same.trees, onPath_map] at path'
        rw [← same.trees, deref_map] at null'
        obtain ⟨below, there, empty⟩ := Option.map_eq_some_iff.mp null'
        obtain rfl := (map_eq_null _).mp empty
        obtain rfl := null_slot_unique path path' null there
        refine Or.inl ⟨⟨clear, Or.inr fits⟩, _, step_ok (by rw [sharedCall, call]; rfl)
          (by rw [plainCall, plain]; rfl), same.next ?_, inv.link value path null fits⟩
        rw [assign_map, same.trees]
        rfl
      · exact absurd (same.complete inv) incomplete
    · obtain ⟨e, overflow⟩ := btCreateNodeTs_overflow s.fresh value fits
      rw [overflow] at call
      exact decided_error (fun meets => meets.2.elim absent fits) (by rw [sharedCall, call]; rfl)

theorem step_lookup (same : Same s) (inv : Inv s) (key : CStr) (value : V) :
    Decided s (.lookup key value true) := by
  by_cases empty : s.shared.root = .null
  · have clear : Clear s.held key s.shared.root := by
      rw [empty]
      exact fun _ _ => List.not_mem_nil
    have shared := btLookupTs_empty true key value inv.free empty
    have plain := BinaryTree.btLookup_empty key value (same.null.mpr empty)
    exact Or.inl ⟨⟨clear, Or.inl empty⟩, _, step_ok (by rw [sharedCall, shared]; rfl)
      (by rw [plainCall, plain]; rfl), same.next same.trees, inv.next inv.free⟩
  · rcases btLookupTs_cases true key value inv.wellLocked inv.free empty with
      ⟨missed, e, shared⟩ | ⟨⟨clear, present, _⟩, payload, entry, shared⟩
    · refine decided_error (fun meets => missed ?_) (by rw [sharedCall, shared]; rfl)
      exact ⟨meets.1, meets.2.resolve_left empty, rfl⟩
    · have bound : (key, payload.value) ∈ s.plain.root.entries := by
        rw [← same.trees, entries_map]
        exact List.mem_map_of_mem entry
      have plain := BinaryTree.btLookup_present (same.sound inv) bound value
      exact Or.inl ⟨⟨clear, Or.inr present⟩, _, step_ok (by rw [sharedCall, shared]; rfl)
        (by rw [plainCall, plain]; rfl), same.next same.trees, inv.next inv.free⟩

/-- A key that is there is deleted on the plain side only. -/
theorem step_delete_present (same : Same s) (inv : Inv s) {key : CStr} {out : Bool}
    (present : key ∈ s.shared.root.keys) {t : State V} (stepped : step s (.delete key out) = .ok t) :
    ¬ Same t := by
  intro after
  rw [step, sharedCall, plainCall] at stepped
  cases shared : btDeleteTs out s.shared key s.held with
  | error e =>
    rw [shared] at stepped
    cases stepped
  | ok result =>
    obtain ⟨⟨status, tree⟩, held⟩ := result
    obtain ⟨rfl, _⟩ := btDeleteTs_found inv.wellLocked inv.free present shared
    rw [shared] at stepped
    rcases BinaryTree.btDelete_cases key (same.sound inv) with
      ⟨_, root, plain, _, _, remaining⟩ | ⟨absent, _⟩ | ⟨incomplete, _⟩
    · rw [plain] at stepped
      obtain rfl := Except.ok.inj stepped
      have kept : key ∈ root.keys := by
        rw [after.keys]
        exact present
      obtain ⟨v, entry⟩ := mem_keys.mp kept
      exact ((remaining _).mp entry).2 rfl
    · rw [same.keys] at absent
      exact absent present
    · exact incomplete (same.complete inv)

theorem step_delete (same : Same s) (inv : Inv s) (key : CStr) (out : Bool) :
    Decided s (.delete key out) := by
  by_cases present : key ∈ s.shared.root.keys
  · exact Or.inr ⟨fun meets => meets.2 present, fun t => step_delete_present same inv present⟩
  · rcases btDeleteTs_absent out inv.wellLocked inv.free present with
      ⟨locked, e, shared⟩ | ⟨clear, shared⟩
    · exact decided_error (fun meets => locked meets.1) (by rw [sharedCall, shared]; rfl)
    · have absent : key ∉ s.plain.root.keys := by rwa [same.keys]
      have plain := BinaryTree.btDelete_absent (same.sound inv).ordered (same.complete inv) absent
      have null : s.plain.root.isNull = s.shared.root.isNull := by
        rw [Bool.eq_iff_iff, isNull_iff, isNull_iff, same.null]
      rw [null] at plain
      exact Or.inl ⟨⟨clear, present⟩, _, step_ok (by rw [sharedCall, shared]; rfl)
        (by rw [plainCall, plain]; rfl), same.next same.trees, inv.next inv.free⟩

theorem step_decided (same : Same s) (inv : Inv s) {call : Call V} (allocated : call.Allocated) :
    Decided s call := by
  cases call with
  | add key value plain shared =>
    obtain ⟨rfl, rfl⟩ := allocated
    exact step_add same inv key value
  | lookup key value out =>
    obtain rfl := allocated
    exact step_lookup same inv key value
  | delete key out => exact step_delete same inv key out

end Step

/-! ### Runs -/

/-- The runs whose allocations succeed and that leave the trees the same after each call are those
in which every call meets its condition. -/
theorem refines_iff (calls : List (Call V)) :
    Each step (fun s call => call.Allocated ∧ Meets s call) initial calls ↔
      (∀ call ∈ calls, call.Allocated) ∧ Throughout step Same initial calls := by
  apply each_iff (I := Inv)
  · intro s call inv same
    refine and_congr_right fun allocated => ?_
    rcases step_decided same inv allocated with ⟨meets, t, stepped, after, _⟩ | ⟨unmet, differ⟩
    · exact iff_of_true meets ⟨t, stepped, after⟩
    · refine iff_of_false unmet ?_
      rintro ⟨t, stepped, after⟩
      exact differ t stepped after
  · intro s call t inv same allocated stepped after
    rcases step_decided same inv allocated with ⟨_, t', stepped', _, inv'⟩ | ⟨_, differ⟩
    · rw [stepped] at stepped'
      obtain rfl := Except.ok.inj stepped'
      exact inv'
    · exact absurd after (differ t stepped)
  · exact inv_initial
  · exact ⟨rfl, by simp [initial]⟩

/-- What a caller may ask for: the key of a lookup is in the tree, and every key fits a node. -/
def Asked (s : State V) : Call V → Prop
  | .add key _ _ _ => key.length ≤ BT_KEY_MAX
  | .lookup key _ _ => key ∈ s.plain.root.keys
  | .delete _ _ => True

/-- Adding "a" and deleting it again. -/
theorem delete_does_not_refine :
    ¬ ∀ calls : List (Call Nat), (∀ call ∈ calls, call.Allocated) → Each step Asked initial calls →
      Throughout step Same initial calls := by
  intro all
  have allocated : ∀ call ∈ [Call.add (.ofBytes [97]) 7 .succeed .succeed,
      .delete (.ofBytes [97]) true], call.Allocated := by
    simp [Call.Allocated]
  have fits : (CStr.ofBytes [97]).length ≤ BT_KEY_MAX := by decide
  have asked : Each step Asked (initial : State Nat)
      [.add (.ofBytes [97]) 7 .succeed .succeed, .delete (.ofBytes [97]) true] :=
    ⟨fits, fun _ _ => ⟨trivial, fun _ _ => trivial⟩⟩
  obtain ⟨t, reached, _⟩ := all _ allocated asked _ (List.prefix_refl _)
  have fault : run step (initial : State Nat)
      [.add (.ofBytes [97]) 7 .succeed .succeed, .delete (.ofBytes [97]) true] =
        .error (.fault .nullDereference) := rfl
  rw [fault] at reached
  cases reached

end Tlpi.ThreadSafeTree.Sequential
