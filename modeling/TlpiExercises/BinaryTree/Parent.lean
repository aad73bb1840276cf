import TlpiExercises.BinaryTree.FiniteMap

/-!
# bt_find_parent

`bt_find_parent` looks at both children before it compares at the node, `bt_find_node` compares
at the node and descends. On a strict search tree both follow the search path of the key. A
`BTNode *` into the tree is the slot that holds it.
-/

namespace Tlpi.BinaryTree

open LinkTree

variable {V : Type}

/-- `child != NULL && strcmp(child->key, child_key) == 0` -/
def holdsKey : BTNode V → CStr → Except Fault Bool
  | .null, _ => return false
  | .node _ _ key _, childKey => return strcmp (← fromPointer key) childKey == 0

/-- The node that points to the one with `childKey`; `none` is the NULL result. -/
def btFindParent : BTNode V → CStr → Except Fault (Option Slot)
  | .null, _ => .error .nullDereference
  | .node left right nodeKey _, childKey => do
    if ← holdsKey left childKey then return some []
    if ← holdsKey right childKey then return some []
    let rv := strcmp childKey (← fromPointer nodeKey)
    if rv < 0 then
      if left.isNull then return none
      return (← btFindParent left childKey).map (.left :: ·)
    else if rv > 0 then
      if right.isNull then return none
      return (← btFindParent right childKey).map (.right :: ·)
    else
      return none

/-- The key is in the tree, at a node other than the root. -/
def BelowRoot (root : BTNode V) (key : CStr) : Prop := ∃ d, key ∈ (root.child d).keys

/-- The two searches agree: a parent is found for the keys below the root, and the link found for
the key is one of the two of that parent. -/
def FindsParent (root : BTNode V) (key : CStr) : Prop :=
  ∃ parent, btFindParent root key = .ok parent ∧ (parent.isSome ↔ BelowRoot root key) ∧
    ∀ p, parent = some p → ∃ d, btFindNode root key = .ok (some (p ++ [d]))

/-! ### One level of the search -/

theorem holdsKey_absent {node : BTNode V} {key : CStr} (complete : node.Complete)
    (absent : key ∉ node.keys) : holdsKey node key = .ok false := by
  cases node with
  | null => rfl
  | node left right nodeKey value =>
    obtain ⟨x, rfl⟩ := Option.isSome_iff_exists.mp complete.1
    have different : strcmp x key ≠ 0 := by
      intro same
      apply absent
      simp [strcmp_eq_zero.mp same]
    simp [holdsKey, different]

theorem holdsKey_here (left right : BTNode V) (key : CStr) (value : V) :
    holdsKey (.node left right (some key) value) key = .ok true := by
  simp [holdsKey, strcmp_eq_zero.mpr rfl]

section Node

variable {left right : BTNode V} {x key : CStr} {value : V}

theorem btFindParent_here {d : Dir}
    (apart : holdsKey left key = .ok true ∨ holdsKey left key = .ok false)
    (holds : holdsKey ((LinkTree.node left right (some x) value).child d) key = .ok true) :
    btFindParent (.node left right (some x) value) key = .ok (some []) := by
  rw [btFindParent]
  rcases apart with found | other
  · simp [found]
  · cases d with
    | left =>
      rw [child, other] at holds
      cases holds
    | right =>
      rw [child] at holds
      simp [other, holds]

theorem btFindParent_toward {d : Dir}
    (toward : (LinkTree.node left right (some x) value).OnPath key [d])
    (notLeft : holdsKey left key = .ok false) (notRight : holdsKey right key = .ok false) :
    btFindParent (.node left right (some x) value) key =
      if ((LinkTree.node left right (some x) value).child d).isNull then .ok none
      else (btFindParent ((LinkTree.node left right (some x) value).child d) key).map
        (Option.map (d :: ·)) := by
  rw [btFindParent, notLeft, notRight]
  cases d with
  | left =>
    have less : strcmp key x < 0 := toward.1
    simp only [ok_bind, fromPointer_some, if_pos less, Bool.false_eq_true, if_false]
    show _ = if left.isNull then .ok none else (btFindParent left key).map (Option.map (.left :: ·))
    by_cases empty : left.isNull = true
    · simp only [if_pos empty, pure_eq_ok]
    · simp only [if_neg empty]
      cases btFindParent left key <;> rfl
  | right =>
    have greater : 0 < strcmp key x := CStr.gt_iff.mp toward.1
    have notLess : ¬ strcmp key x < 0 := by omega
    simp only [ok_bind, fromPointer_some, if_neg notLess, if_pos greater, Bool.false_eq_true,
      if_false]
    show _ = if right.isNull then .ok none else (btFindParent right key).map (Option.map (.right :: ·))
    by_cases empty : right.isNull = true
    · simp only [if_pos empty, pure_eq_ok]
    · simp only [if_neg empty]
      cases btFindParent right key <;> rfl

theorem btFindParent_root (notLeft : holdsKey left key = .ok false)
    (notRight : holdsKey right key = .ok false) :
    btFindParent (.node left right (some key) value) key = .ok none := by
  have same : strcmp key key = 0 := strcmp_eq_zero.mpr rfl
  rw [btFindParent, notLeft, notRight]
  simp [same]

end Node

/-! ### The whole search -/

section Search

variable {left right : BTNode V} {x key : CStr} {value : V} {d : Dir}

theorem mem_keys_node :
    key ∈ (LinkTree.node left right (some x) value).keys ↔
      key = x ∨ BelowRoot (.node left right (some x) value) key := by
  rw [keys_node_some, List.mem_append, List.mem_cons]
  constructor
  · rintro (inLeft | same | inRight)
    · exact Or.inr ⟨.left, inLeft⟩
    · exact Or.inl same
    · exact Or.inr ⟨.right, inRight⟩
  · rintro (same | ⟨d, member⟩)
    · exact Or.inr (Or.inl same)
    · cases d with
      | left => exact Or.inl member
      | right => exact Or.inr (Or.inr member)

theorem belowRoot_toward (ordered : (LinkTree.node left right (some x) value).Ordered)
    (toward : (LinkTree.node left right (some x) value).OnPath key [d]) :
    BelowRoot (.node left right (some x) value) key ↔
      key ∈ ((LinkTree.node left right (some x) value).child d).keys := by
  constructor
  · intro below
    exact (mem_keys_toward ordered toward).mp (mem_keys_node.mpr (Or.inr below))
  · exact fun member => ⟨d, member⟩

/-- Where the child towards the key has another key, neither child holds the key. -/
theorem notHolds (ordered : (LinkTree.node left right (some x) value).Ordered)
    (complete : (LinkTree.node left right (some x) value).Complete)
    (toward : (LinkTree.node left right (some x) value).OnPath key [d])
    (other : holdsKey ((LinkTree.node left right (some x) value).child d) key = .ok false) :
    holdsKey left key = .ok false ∧ holdsKey right key = .ok false := by
  cases d with
  | left =>
    refine ⟨other, holdsKey_absent complete.2.2 fun member => ?_⟩
    exact absurd toward.1 (ordered.2.2.2 key member).not_gt
  | right =>
    refine ⟨holdsKey_absent complete.2.1 fun member => ?_, other⟩
    exact absurd toward.1 (ordered.2.2.1 key member).not_gt

/-- The search ends at the node above the one with the key. -/
theorem findsParent_above {l r : BTNode V} {v : V}
    (ordered : (LinkTree.node left right (some x) value).Ordered)
    (complete : (LinkTree.node left right (some x) value).Complete)
    (toward : (LinkTree.node left right (some x) value).OnPath key [d])
    (here : (LinkTree.node left right (some x) value).child d = .node l r (some key) v) :
    FindsParent (.node left right (some x) value) key := by
  have member : key ∈ ((LinkTree.node left right (some x) value).child d).keys := by
    rw [here]
    simp
  have holds : holdsKey ((LinkTree.node left right (some x) value).child d) key = .ok true := by
    rw [here]
    exact holdsKey_here l r key v
  have apart : holdsKey left key = .ok true ∨ holdsKey left key = .ok false := by
    cases d with
    | left => exact Or.inl holds
    | right =>
      refine Or.inr (holdsKey_absent complete.2.1 fun inLeft => ?_)
      exact absurd toward.1 (ordered.2.2.1 key inLeft).not_gt
  refine ⟨some [], btFindParent_here apart holds, ?_, fun p found => ⟨d, ?_⟩⟩
  · exact iff_of_true rfl ⟨d, member⟩
  · obtain rfl := Option.some.inj found
    have search := btFindNode_toward toward
    rw [here, isNull_node, if_neg Bool.false_ne_true,
      btFindNode_here (strcmp_eq_zero.mpr rfl)] at search
    exact search

/-- Otherwise both searches go on in the same child. -/
theorem findsParent_down (ordered : (LinkTree.node left right (some x) value).Ordered)
    (complete : (LinkTree.node left right (some x) value).Complete)
    (toward : (LinkTree.node left right (some x) value).OnPath key [d])
    (nonempty : (LinkTree.node left right (some x) value).child d ≠ .null)
    (other : holdsKey ((LinkTree.node left right (some x) value).child d) key = .ok false)
    (same : key ∈ ((LinkTree.node left right (some x) value).child d).keys ↔
      BelowRoot ((LinkTree.node left right (some x) value).child d) key)
    (below : FindsParent ((LinkTree.node left right (some x) value).child d) key) :
    FindsParent (.node left right (some x) value) key := by
  obtain ⟨notLeft, notRight⟩ := notHolds ordered complete toward other
  have call := btFindParent_toward toward notLeft notRight
  have search := btFindNode_toward toward
  rw [if_neg (isNull_iff.not.mpr nonempty)] at call search
  obtain ⟨parent, result, known, linked⟩ := below
  refine ⟨parent.map (d :: ·), ?_, ?_, fun p found => ?_⟩
  · rw [call, result]
    rfl
  · rw [Option.isSome_map, known, belowRoot_toward ordered toward, same]
  · obtain ⟨q, inside, rfl⟩ := Option.map_eq_some_iff.mp found
    obtain ⟨e, link⟩ := linked q inside
    refine ⟨e, ?_⟩
    rw [search, link]
    rfl

end Search

theorem holdsKey_total {node : BTNode V} (complete : node.Complete) (key : CStr) :
    (∃ l r v, node = .node l r (some key) v) ∨
      holdsKey node key = .ok false ∧ (key ∈ node.keys ↔ BelowRoot node key) := by
  cases node with
  | null => exact Or.inr ⟨rfl, by simp [BelowRoot, child]⟩
  | node left right nodeKey value =>
    obtain ⟨x, rfl⟩ := Option.isSome_iff_exists.mp complete.1
    by_cases same : key = x
    · subst same
      exact Or.inl ⟨left, right, value, rfl⟩
    · have different : strcmp x key ≠ 0 := strcmp_eq_zero.not.mpr (Ne.symm same)
      refine Or.inr ⟨by simp [holdsKey, different], ?_⟩
      rw [mem_keys_node]
      exact or_iff_right same

theorem findsParent {root : BTNode V} (ordered : root.Ordered) (complete : root.Complete)
    (nonempty : root ≠ .null) (key : CStr) : FindsParent root key := by
  have whole := ordered
  revert whole complete
  refine search_induction key ?unset ?here ?stop ?down ordered nonempty
  case unset =>
    intro value complete
    simp [Complete] at complete
  case here =>
    intro left right value complete ordered
    have notLeft : key ∉ left.keys := fun member => lt_irrefl key (ordered.2.2.1 key member)
    have notRight : key ∉ right.keys := fun member => lt_irrefl key (ordered.2.2.2 key member)
    have call : btFindParent (.node left right (some key) value) key = .ok none :=
      btFindParent_root (holdsKey_absent complete.2.1 notLeft) (holdsKey_absent complete.2.2 notRight)
    refine ⟨none, call, iff_of_false Bool.false_ne_true ?_, fun p found => by cases found⟩
    rintro ⟨d, member⟩
    cases d with
    | left => exact notLeft member
    | right => exact notRight member
  case stop =>
    intro left right x value d toward empty absent complete ordered
    have other : holdsKey ((LinkTree.node left right (some x) value).child d) key = .ok false := by
      rw [empty]
      rfl
    obtain ⟨notLeft, notRight⟩ := notHolds ordered complete toward other
    have call := btFindParent_toward toward notLeft notRight
    rw [if_pos (isNull_iff.mpr empty)] at call
    refine ⟨none, call, iff_of_false Bool.false_ne_true ?_, fun p found => by cases found⟩
    exact fun below => absent (mem_keys_node.mpr (Or.inr below))
  case down =>
    intro left right x value d toward nonempty _ ih complete ordered
    rcases holdsKey_total (complete_child complete d) key with ⟨l, r, v, here⟩ | ⟨other, same⟩
    · exact findsParent_above ordered complete toward here
    · have below := ih (complete_child complete d)
        (ordered_deref ordered toward (by rw [deref_cons, deref_root]))
      exact findsParent_down ordered complete toward nonempty other same below

/-- The searches agree on every strict search tree that has a node. -/
theorem findsParent_iff {root : BTNode V} (strict : StrictSearchTree root) (key : CStr) :
    FindsParent root key ↔ root ≠ .null := by
  obtain ⟨ordered, complete⟩ := (strictSearchTree_iff root).mp strict
  constructor
  · rintro agreement rfl
    obtain ⟨parent, result, _⟩ := agreement
    cases result
  · exact fun nonempty => findsParent ordered complete nonempty key

/-- Two keys, the smaller one below the root. -/
def sampleParent : BTNode Nat :=
  .node (.node .null .null (some (.ofBytes [97])) 1) .null (some (.ofBytes [98])) 2

theorem sampleParent_strict : StrictSearchTree sampleParent := by
  refine ⟨.ofBytes [98], rfl, ⟨.ofBytes [97], rfl, trivial, trivial, ?_, ?_⟩, trivial, ?_, ?_⟩
  all_goals decide

theorem findsParent_iff_sample :
    FindsParent sampleParent (.ofBytes [97]) ↔ sampleParent ≠ .null :=
  findsParent_iff sampleParent_strict (.ofBytes [97])

/-- The empty tree has no node to look at, and nothing checks for it. -/
theorem findsParent_empty_fails :
    ¬ ∀ root : BTNode Nat, StrictSearchTree root → ∀ key, FindsParent root key := by
  intro all
  obtain ⟨parent, result, _⟩ := all .null trivial (.ofBytes [97])
  cases result

end Tlpi.BinaryTree
