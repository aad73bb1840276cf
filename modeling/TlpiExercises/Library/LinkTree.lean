import Mathlib

/-!
# Linked binary trees

The tree that a program builds from two-link cells. A link is named by the directions that lead
to it from the root, so it can be followed and overwritten. A cell whose key has not been stored
yet has key `none`. The search-tree proofs use two rules: `search_induction` follows the search
path of a key, and `context` replaces the subtree below a link on that path, where everything else
lies strictly on its own side of the key.
-/

inductive LinkTree (α β : Type) where
  | null
  | node (left right : LinkTree α β) (key : Option α) (value : β)
  deriving DecidableEq, Repr

namespace LinkTree

inductive Dir where
  | left
  | right
  deriving DecidableEq, Repr

/-- A link of the tree, by the way from the root. -/
abbrev Slot := List Dir

variable {α β : Type}

def isNull : LinkTree α β → Bool
  | null => true
  | node .. => false

@[simp] theorem isNull_null : (null : LinkTree α β).isNull = true := rfl

@[simp] theorem isNull_node (left right : LinkTree α β) (key : Option α) (value : β) :
    (node left right key value).isNull = false := rfl

theorem isNull_iff {t : LinkTree α β} : t.isNull = true ↔ t = null := by cases t <;> simp

theorem isNull_eq_false {t : LinkTree α β} : t.isNull = false ↔ t ≠ null := by cases t <;> simp

/-- The keyed cells in order. -/
def entries : LinkTree α β → List (α × β)
  | null => []
  | node left right (some key) value => left.entries ++ (key, value) :: right.entries
  | node left right none _ => left.entries ++ right.entries

def keys (t : LinkTree α β) : List α := t.entries.map Prod.fst

@[simp] theorem entries_null : (null : LinkTree α β).entries = [] := rfl

@[simp] theorem keys_null : (null : LinkTree α β).keys = [] := rfl

@[simp] theorem keys_node_some (left right : LinkTree α β) (key : α) (value : β) :
    (node left right (some key) value).keys = left.keys ++ key :: right.keys := by
  simp [keys, entries]

@[simp] theorem keys_node_none (left right : LinkTree α β) (value : β) :
    (node left right none value).keys = left.keys ++ right.keys := by
  simp [keys, entries]

theorem mem_keys {t : LinkTree α β} {key : α} : key ∈ t.keys ↔ ∃ value, (key, value) ∈ t.entries := by
  simp [keys]

theorem entries_cell (key : Option α) (value : β) :
    (node null null key value).entries = key.toList.map fun k => (k, value) := by
  cases key <;> rfl

theorem keys_cell (key : Option α) (value : β) : (node null null key value).keys = key.toList := by
  cases key <;> rfl

/-! ### Following and overwriting links -/

/-- The subtree a link points to; `none` when the way to the link leads through a null link. -/
def deref : LinkTree α β → Slot → Option (LinkTree α β)
  | t, [] => some t
  | null, _ :: _ => none
  | node left _ _ _, .left :: slot => left.deref slot
  | node _ right _ _, .right :: slot => right.deref slot

def assign : LinkTree α β → Slot → LinkTree α β → LinkTree α β
  | _, [], s => s
  | null, _ :: _, _ => null
  | node left right key value, .left :: slot, s => node (left.assign slot s) right key value
  | node left right key value, .right :: slot, s => node left (right.assign slot s) key value

def child : LinkTree α β → Dir → LinkTree α β
  | null, _ => null
  | node left _ _ _, .left => left
  | node _ right _ _, .right => right

@[simp] theorem deref_root (t : LinkTree α β) : t.deref [] = some t := by cases t <;> rfl

@[simp] theorem assign_root (t s : LinkTree α β) : t.assign [] s = s := by cases t <;> rfl

theorem deref_append (t : LinkTree α β) (p q : Slot) :
    t.deref (p ++ q) = (t.deref p).bind (fun s => s.deref q) := by
  induction p generalizing t with
  | nil => simp
  | cons d p ih =>
    cases t with
    | null => rfl
    | node left right key value => cases d <;> simp [deref, ih]

theorem assign_append {t s : LinkTree α β} {p q : Slot} {u : LinkTree α β} (h : t.deref p = some s) :
    t.assign (p ++ q) u = t.assign p (s.assign q u) := by
  induction p generalizing t with
  | nil =>
    obtain rfl : t = s := by simpa using h
    simp
  | cons d p ih =>
    cases t with
    | null => cases h
    | node left right key value =>
      cases d with
      | left => simp only [List.cons_append, assign, ih (t := left) h]
      | right => simp only [List.cons_append, assign, ih (t := right) h]

section Child

variable {left right : LinkTree α β} {key : Option α} {value : β}

theorem deref_cons (d : Dir) (slot : Slot) :
    (node left right key value).deref (d :: slot) =
      ((node left right key value).child d).deref slot := by cases d <;> rfl

theorem assign_cons (t : LinkTree α β) (d : Dir) (slot : Slot) (u : LinkTree α β) :
    t.assign (d :: slot) u = t.assign [d] ((t.child d).assign slot u) := by
  cases t with
  | null => rfl
  | node left right key value => cases d <;> simp [assign, child]

theorem assign_child (t : LinkTree α β) (d : Dir) : t.assign [d] (t.child d) = t := by
  cases t with
  | null => rfl
  | node left right key value => cases d <;> simp [assign, child]

end Child

theorem entries_deref {t s : LinkTree α β} {slot : Slot} (h : t.deref slot = some s) :
    s.entries.Sublist t.entries := by
  induction slot generalizing t with
  | nil =>
    obtain rfl : t = s := by simpa using h
    exact List.Sublist.refl _
  | cons d slot ih =>
    cases t with
    | null => cases h
    | node left right key value =>
      cases d with
      | left =>
        cases key with
        | none => exact (ih h).trans (List.sublist_append_left _ _)
        | some key => exact (ih h).trans (List.sublist_append_left _ _)
      | right =>
        cases key with
        | none => exact (ih h).trans (List.sublist_append_right _ _)
        | some key =>
          exact ((ih h).trans (List.sublist_cons_self _ _)).trans (List.sublist_append_right _ _)

theorem assign_assign (t s u : LinkTree α β) (slot : Slot) :
    (t.assign slot s).assign slot u = t.assign slot u := by
  induction slot generalizing t with
  | nil => simp
  | cons d slot ih =>
    cases t with
    | null => rfl
    | node left right key value => cases d <;> simp [assign, ih]

theorem deref_assign {t s u : LinkTree α β} {slot : Slot} (h : t.deref slot = some s) :
    (t.assign slot u).deref slot = some u := by
  induction slot generalizing t with
  | nil => simp
  | cons d slot ih =>
    cases t with
    | null => cases h
    | node left right key value => cases d <;> exact ih h

/-! ### The number of cells -/

def size : LinkTree α β → Nat
  | null => 0
  | node left right _ _ => left.size + right.size + 1

theorem length_lt_size {t left right : LinkTree α β} {key : Option α} {value : β} {slot : Slot}
    (h : t.deref slot = some (node left right key value)) : slot.length < t.size := by
  induction slot generalizing t with
  | nil =>
    obtain rfl : t = node left right key value := by simpa using h
    exact Nat.succ_pos _
  | cons d slot ih =>
    cases t with
    | null => cases h
    | node l r k v =>
      rw [List.length_cons, size]
      cases d with
      | left =>
        have below := ih (t := l) h
        omega
      | right =>
        have below := ih (t := r) h
        omega

theorem size_assign {t s u : LinkTree α β} {slot : Slot} (h : t.deref slot = some s) :
    (t.assign slot u).size + s.size = t.size + u.size := by
  induction slot generalizing t with
  | nil =>
    obtain rfl : t = s := by simpa using h
    rw [assign_root, Nat.add_comm]
  | cons d slot ih =>
    cases t with
    | null => cases h
    | node l r k v =>
      cases d with
      | left =>
        have below := ih (t := l) h
        simp only [assign, size]
        omega
      | right =>
        have below := ih (t := r) h
        simp only [assign, size]
        omega

/-! ### Complete trees -/

def Complete : LinkTree α β → Prop
  | null => True
  | node left right key _ => key.isSome ∧ left.Complete ∧ right.Complete

theorem complete_assign {t u : LinkTree α β} {slot : Slot} (complete : t.Complete)
    (hu : u.Complete) : (t.assign slot u).Complete := by
  induction slot generalizing t with
  | nil => simpa using hu
  | cons d slot ih =>
    cases t with
    | null => cases d <;> trivial
    | node left right key value =>
      cases d with
      | left => exact ⟨complete.1, ih complete.2.1, complete.2.2⟩
      | right => exact ⟨complete.1, complete.2.1, ih complete.2.2⟩

theorem complete_deref {t s : LinkTree α β} {slot : Slot} (complete : t.Complete)
    (h : t.deref slot = some s) : s.Complete := by
  induction slot generalizing t with
  | nil =>
    obtain rfl : t = s := by simpa using h
    exact complete
  | cons d slot ih =>
    cases t with
    | null => cases h
    | node left right key value =>
      cases d with
      | left => exact ih complete.2.1 h
      | right => exact ih complete.2.2 h

theorem complete_child {t : LinkTree α β} (complete : t.Complete) (d : Dir) :
    (t.child d).Complete := by
  cases t with
  | null => exact complete
  | node left right key value =>
    cases d with
    | left => exact complete.2.1
    | right => exact complete.2.2

theorem complete_iff {t : LinkTree α β} : t.Complete ↔
    ∀ slot left right value, t.deref slot ≠ some (node left right none value) := by
  constructor
  · intro complete slot left right value h
    have keyless := complete_deref complete h
    simp [Complete] at keyless
  · intro keyed
    induction t with
    | null => trivial
    | node left right key value ihl ihr =>
      refine ⟨?_, ihl fun slot => keyed (.left :: slot), ihr fun slot => keyed (.right :: slot)⟩
      cases key with
      | some key => rfl
      | none => exact absurd rfl (keyed [] left right value)

/-! ### Mapping the values -/

section Map

variable {γ : Type} (f : β → γ)

/-- The tree with the same shape and keys. -/
def map : LinkTree α β → LinkTree α γ
  | null => null
  | node left right key value => node left.map right.map key (f value)

@[simp] theorem map_null : (null : LinkTree α β).map f = null := rfl

@[simp] theorem map_node (left right : LinkTree α β) (key : Option α) (value : β) :
    (node left right key value).map f = node (left.map f) (right.map f) key (f value) := rfl

theorem map_eq_null {t : LinkTree α β} : t.map f = null ↔ t = null := by cases t <;> simp

theorem entries_map (t : LinkTree α β) :
    (t.map f).entries = t.entries.map (fun e => (e.1, f e.2)) := by
  induction t with
  | null => rfl
  | node left right key value ihl ihr =>
    cases key with
    | none => simp [entries, ihl, ihr]
    | some key => simp [entries, ihl, ihr]

theorem keys_map (t : LinkTree α β) : (t.map f).keys = t.keys := by
  rw [keys, entries_map, List.map_map]
  rfl

theorem deref_map (t : LinkTree α β) (slot : Slot) :
    (t.map f).deref slot = (t.deref slot).map (map f) := by
  induction slot generalizing t with
  | nil => simp
  | cons d slot ih =>
    cases t with
    | null => rfl
    | node left right key value =>
      cases d with
      | left => exact ih left
      | right => exact ih right

theorem assign_map (t s : LinkTree α β) (slot : Slot) :
    (t.assign slot s).map f = (t.map f).assign slot (s.map f) := by
  induction slot generalizing t with
  | nil => simp
  | cons d slot ih =>
    cases t with
    | null => rfl
    | node left right key value => cases d <;> simp [assign, ih]

theorem complete_map {t : LinkTree α β} : (t.map f).Complete ↔ t.Complete := by
  induction t with
  | null => exact Iff.rfl
  | node left right key value ihl ihr => simp [Complete, ihl, ihr]

end Map

/-! ### Search trees -/

section Order

variable [LinearOrder α]

/-- A strict search tree: the keys left of a cell are smaller, those right of it larger. A cell
without a key has no children yet. -/
def Ordered : LinkTree α β → Prop
  | null => True
  | node left right (some key) _ =>
    left.Ordered ∧ right.Ordered ∧ (∀ x ∈ left.keys, x < key) ∧ (∀ x ∈ right.keys, key < x)
  | node left right none _ => left = null ∧ right = null

def Tidy : LinkTree α β → Prop
  | null => True
  | node left right (some _) _ => left.Tidy ∧ right.Tidy
  | node left right none _ => left = null ∧ right = null

def Sorted (t : LinkTree α β) : Prop := t.keys.Pairwise (· < ·)

theorem ordered_iff (t : LinkTree α β) : t.Ordered ↔ t.Tidy ∧ t.Sorted := by
  induction t with
  | null => simp [Ordered, Tidy, Sorted]
  | node left right key value ihl ihr =>
    cases key with
    | none =>
      simp only [Ordered, Tidy, Sorted, keys_node_none]
      refine ⟨?_, fun h => h.1⟩
      rintro ⟨rfl, rfl⟩
      simp
    | some key =>
      simp only [Ordered, ihl, ihr, Tidy, Sorted, keys_node_some, List.pairwise_append,
        List.pairwise_cons, List.mem_cons]
      constructor
      · rintro ⟨⟨tl, sl⟩, ⟨tr, sr⟩, below, above⟩
        refine ⟨⟨tl, tr⟩, sl, ⟨above, sr⟩, ?_⟩
        rintro x hx y (rfl | hy)
        · exact below x hx
        · exact (below x hx).trans (above y hy)
      · rintro ⟨⟨tl, tr⟩, sl, ⟨above, sr⟩, cross⟩
        exact ⟨⟨tl, sl⟩, ⟨tr, sr⟩, fun x hx => cross x hx key (Or.inl rfl), above⟩

theorem Ordered.sorted {t : LinkTree α β} (h : t.Ordered) : t.keys.Pairwise (· < ·) :=
  ((ordered_iff t).mp h).2

theorem Ordered.nodup {t : LinkTree α β} (h : t.Ordered) : t.keys.Nodup :=
  h.sorted.imp ne_of_lt

theorem Ordered.functional {t : LinkTree α β} (h : t.Ordered) {key : α} {v w : β}
    (hv : (key, v) ∈ t.entries) (hw : (key, w) ∈ t.entries) : v = w := by
  have same := List.inj_on_of_nodup_map h.nodup hv hw rfl
  exact (Prod.mk.inj same).2

/-- The link is on the search path of `key`. -/
def OnPath : LinkTree α β → α → Slot → Prop
  | _, _, [] => True
  | node left _ (some x) _, key, .left :: slot => key < x ∧ left.OnPath key slot
  | node _ right (some x) _, key, .right :: slot => x < key ∧ right.OnPath key slot
  | _, _, _ :: _ => False

@[simp] theorem onPath_root (t : LinkTree α β) (key : α) : t.OnPath key [] := by
  cases t with
  | null => trivial
  | node left right x value => cases x <;> trivial

theorem ordered_map {γ : Type} (f : β → γ) {t : LinkTree α β} : (t.map f).Ordered ↔ t.Ordered := by
  induction t with
  | null => exact Iff.rfl
  | node left right key value ihl ihr =>
    cases key with
    | none => simp [Ordered, map_eq_null]
    | some key => simp [Ordered, ihl, ihr, keys_map]

/-- A search path ends at one null link only. -/
theorem null_slot_unique {t : LinkTree α β} {key : α} {p q : Slot} (hp : t.OnPath key p)
    (hq : t.OnPath key q) (endp : t.deref p = some null) (endq : t.deref q = some null) : p = q := by
  induction p generalizing t q with
  | nil =>
    obtain rfl : t = null := by simpa using endp
    cases q with
    | nil => rfl
    | cons d q => cases d <;> exact False.elim hq
  | cons d p ih =>
    match t, d, q, hp, hq with
    | node left right (some x) value, .left, .left :: q, hp, hq =>
      rw [ih hp.2 hq.2 endp endq]
    | node left right (some x) value, .right, .right :: q, hp, hq =>
      rw [ih hp.2 hq.2 endp endq]
    | node left right (some x) value, .left, .right :: q, hp, hq =>
      exact absurd hp.1 (not_lt.mpr hq.1.le)
    | node left right (some x) value, .right, .left :: q, hp, hq =>
      exact absurd hp.1 (not_lt.mpr hq.1.le)
    | node left right (some x) value, _, [], _, _ => simp at endq

theorem onPath_map {γ : Type} (f : β → γ) {t : LinkTree α β} {key : α} {slot : Slot} :
    (t.map f).OnPath key slot ↔ t.OnPath key slot := by
  induction slot generalizing t with
  | nil => simp
  | cons d slot ih =>
    cases t with
    | null => cases d <;> exact Iff.rfl
    | node left right x value =>
      cases x with
      | none => cases d <;> exact Iff.rfl
      | some x =>
        cases d with
        | left => exact and_congr_right fun _ => ih
        | right => exact and_congr_right fun _ => ih

theorem onPath_append {t s : LinkTree α β} {key : α} {p q : Slot} (hp : t.OnPath key p)
    (h : t.deref p = some s) (hq : s.OnPath key q) : t.OnPath key (p ++ q) := by
  induction p generalizing t with
  | nil =>
    obtain rfl : t = s := by simpa using h
    exact hq
  | cons d p ih =>
    cases t with
    | null => cases h
    | node left right x value =>
      cases x with
      | none => cases d <;> exact hp.elim
      | some x =>
        cases d with
        | left => exact ⟨hp.1, ih hp.2 h⟩
        | right => exact ⟨hp.1, ih hp.2 h⟩

theorem onPath_cons {left right : LinkTree α β} {x key : α} {value : β} {d : Dir} {slot : Slot} :
    (node left right (some x) value).OnPath key (d :: slot) ↔
      (node left right (some x) value).OnPath key [d] ∧
        ((node left right (some x) value).child d).OnPath key slot := by
  cases d <;> simp [OnPath, child]

theorem mem_keys_toward {left right : LinkTree α β} {x key : α} {value : β} {d : Dir}
    (ordered : (node left right (some x) value).Ordered)
    (toward : (node left right (some x) value).OnPath key [d]) :
    key ∈ (node left right (some x) value).keys ↔
      key ∈ ((node left right (some x) value).child d).keys := by
  obtain ⟨_, _, below, above⟩ := ordered
  rw [keys_node_some, List.mem_append, List.mem_cons]
  cases d with
  | left =>
    have less : key < x := toward.1
    have notRight : key ∉ right.keys := fun h => absurd (above key h) (not_lt.mpr less.le)
    simp [child, notRight, less.ne]
  | right =>
    have greater : x < key := toward.1
    have notLeft : key ∉ left.keys := fun h => absurd (below key h) (not_lt.mpr greater.le)
    simp [child, notLeft, greater.ne']

/-- Induction along the search path of a key: it ends at the key, at a cell without one, or at a
null link. -/
@[elab_as_elim]
theorem search_induction (key : α) {motive : LinkTree α β → Prop}
    (unset : ∀ value, motive (node null null none value))
    (here : ∀ left right value, motive (node left right (some key) value))
    (stop : ∀ left right x value d, (node left right (some x) value).OnPath key [d] →
      (node left right (some x) value).child d = null →
      key ∉ (node left right (some x) value).keys → motive (node left right (some x) value))
    (down : ∀ left right x value d, (node left right (some x) value).OnPath key [d] →
      (node left right (some x) value).child d ≠ null →
      (key ∈ (node left right (some x) value).keys ↔
        key ∈ ((node left right (some x) value).child d).keys) →
      motive ((node left right (some x) value).child d) → motive (node left right (some x) value))
    {t : LinkTree α β} (ordered : t.Ordered) (nonempty : t ≠ null) : motive t := by
  induction t with
  | null => exact absurd rfl nonempty
  | node left right nodeKey value ihl ihr =>
    cases nodeKey with
    | none =>
      obtain ⟨rfl, rfl⟩ := ordered
      exact unset value
    | some x =>
      have turn (d : Dir) (toward : (node left right (some x) value).OnPath key [d])
          (ih : (node left right (some x) value).child d ≠ null →
            motive ((node left right (some x) value).child d)) :
          motive (node left right (some x) value) := by
        have side := mem_keys_toward ordered toward
        by_cases empty : (node left right (some x) value).child d = null
        · apply stop left right x value d toward empty
          rw [side, empty]
          simp
        · exact down left right x value d toward empty side (ih empty)
      rcases lt_trichotomy key x with less | rfl | greater
      · exact turn .left ⟨less, onPath_root _ _⟩ (ihl ordered.1)
      · exact here left right value
      · exact turn .right ⟨greater, onPath_root _ _⟩ (ihr ordered.2.1)

/-- Replacing the subtree below a link on the search path of `key`. What lies before the
subtree is smaller than `key`, what lies after it is larger. -/
theorem context {t s : LinkTree α β} {key : α} {slot : Slot} (ordered : t.Ordered)
    (path : t.OnPath key slot) (h : t.deref slot = some s) :
    ∃ before after : List (α × β), t.entries = before ++ s.entries ++ after ∧
      (∀ u : LinkTree α β, (t.assign slot u).entries = before ++ u.entries ++ after) ∧
      (∀ e ∈ before, e.1 < key) ∧ (∀ e ∈ after, key < e.1) := by
  induction slot generalizing t with
  | nil =>
    obtain rfl : t = s := by simpa using h
    exact ⟨[], [], by simp, by simp, by simp, by simp⟩
  | cons d slot ih =>
    match t, d, path with
    | node left right (some x) value, .left, path =>
      obtain ⟨ol, _, _, above⟩ := ordered
      obtain ⟨before, after, same, replaced, lower, upper⟩ := ih ol path.2 h
      refine ⟨before, after ++ (x, value) :: right.entries, ?_, ?_, lower, ?_⟩
      · simp [entries, same]
      · intro u
        simp [assign, entries, replaced u]
      · intro e he
        rcases List.mem_append.mp he with he | he
        · exact upper e he
        · rcases List.mem_cons.mp he with rfl | he
          · exact path.1
          · exact path.1.trans (above e.1 (List.mem_map_of_mem he))
    | node left right (some x) value, .right, path =>
      obtain ⟨_, or, below, _⟩ := ordered
      obtain ⟨before, after, same, replaced, lower, upper⟩ := ih or path.2 h
      refine ⟨left.entries ++ (x, value) :: before, after, ?_, ?_, ?_, upper⟩
      · simp [entries, same]
      · intro u
        simp [assign, entries, replaced u]
      · intro e he
        rcases List.mem_append.mp he with he | he
        · exact (below e.1 (List.mem_map_of_mem he)).trans path.1
        · rcases List.mem_cons.mp he with rfl | he
          · exact path.1
          · exact lower e he

theorem mem_keys_of_onPath {t s : LinkTree α β} {key : α} {slot : Slot} (ordered : t.Ordered)
    (path : t.OnPath key slot) (h : t.deref slot = some s) : key ∈ t.keys ↔ key ∈ s.keys := by
  obtain ⟨before, after, same, _, lower, upper⟩ := context ordered path h
  simp only [mem_keys, same, List.mem_append]
  refine exists_congr fun value => ⟨?_, fun he => Or.inl (Or.inr he)⟩
  rintro ((he | he) | he)
  · exact absurd (lower _ he) (lt_irrefl key)
  · exact he
  · exact absurd (upper _ he) (lt_irrefl key)

theorem tidy_assign {t u : LinkTree α β} {key : α} {slot : Slot} (path : t.OnPath key slot)
    (tidy : t.Tidy) (hu : u.Tidy) : (t.assign slot u).Tidy := by
  induction slot generalizing t with
  | nil => simpa using hu
  | cons d slot ih =>
    match t, d, path with
    | node left right (some x) value, .left, path => exact ⟨ih path.2 tidy.1, tidy.2⟩
    | node left right (some x) value, .right, path => exact ⟨tidy.1, ih path.2 tidy.2⟩

theorem ordered_deref {t s : LinkTree α β} {key : α} {slot : Slot} (ordered : t.Ordered)
    (path : t.OnPath key slot) (h : t.deref slot = some s) : s.Ordered := by
  induction slot generalizing t with
  | nil =>
    obtain rfl : t = s := by simpa using h
    exact ordered
  | cons d slot ih =>
    match t, d, path with
    | node left right (some x) value, .left, path => exact ih ordered.1 path.2 h
    | node left right (some x) value, .right, path => exact ih ordered.2.1 path.2 h

/-! ### Growing at one link

A link is vacant while it is null or its cell has no key. Filling a vacant link on a search path
changes nothing that other search paths have passed. -/

def Vacant : LinkTree α β → Prop
  | null => True
  | node left right none _ => left = null ∧ right = null
  | node _ _ (some _) _ => False

omit [LinearOrder α] in
theorem Vacant.entries_eq {t : LinkTree α β} (h : t.Vacant) : t.entries = [] := by
  match t, h with
  | null, _ => rfl
  | node _ _ none _, h => simp [entries, h.1, h.2]

theorem Vacant.path_eq {t : LinkTree α β} {key : α} {slot : Slot} (h : t.Vacant)
    (path : t.OnPath key slot) : slot = [] := by
  match t, slot, h, path with
  | _, [], _, _ => rfl
  | null, .left :: _, _, path => exact path.elim
  | null, .right :: _, _, path => exact path.elim
  | node _ _ none _, .left :: _, _, path => exact path.elim
  | node _ _ none _, .right :: _, _, path => exact path.elim

theorem onPath_fill {t s u : LinkTree α β} {q slot : Slot} {key : α} (h : t.deref q = some s)
    (vacant : s.Vacant) (path : t.OnPath key slot) : (t.assign q u).OnPath key slot := by
  induction q generalizing t slot with
  | nil =>
    obtain rfl : t = s := by simpa using h
    obtain rfl := vacant.path_eq path
    simp
  | cons d q ih =>
    match t, slot, path with
    | _, [], _ => simp
    | node left right (some x) value, .left :: slot, path =>
      cases d with
      | left => exact ⟨path.1, ih h path.2⟩
      | right => exact path
    | node left right (some x) value, .right :: slot, path =>
      cases d with
      | left => exact path
      | right => exact ⟨path.1, ih h path.2⟩

omit [LinearOrder α] in
/-- Cells that have their key keep it, with their value, wherever the tree grows. -/
theorem deref_fill {t s u l r : LinkTree α β} {q slot : Slot} {x : α} {value : β}
    (h : t.deref q = some s) (vacant : s.Vacant)
    (cell : t.deref slot = some (node l r (some x) value)) :
    ∃ l' r', (t.assign q u).deref slot = some (node l' r' (some x) value) := by
  induction q generalizing t slot with
  | nil =>
    obtain rfl : t = s := by simpa using h
    have sub := entries_deref cell
    rw [vacant.entries_eq] at sub
    simp [entries] at sub
  | cons d q ih =>
    cases t with
    | null => cases h
    | node left right key v =>
      cases slot with
      | nil =>
        obtain ⟨rfl, rfl, rfl, rfl⟩ : left = l ∧ right = r ∧ key = some x ∧ v = value := by
          simpa using cell
        cases d with
        | left => exact ⟨_, _, rfl⟩
        | right => exact ⟨_, _, rfl⟩
      | cons e slot =>
        cases d with
        | left =>
          cases e with
          | left => exact ih h cell
          | right => exact ⟨l, r, cell⟩
        | right =>
          cases e with
          | left => exact ⟨l, r, cell⟩
          | right => exact ih h cell

theorem deref_fill_other {t s u w : LinkTree α β} {q slot : Slot} {k key : α}
    (pathq : t.OnPath k q) (h : t.deref q = some s) (vacant : s.Vacant)
    (path : t.OnPath key slot) (other : t.deref slot = some w) (wv : w.Vacant)
    (different : slot ≠ q) : (t.assign q u).deref slot = some w := by
  induction q generalizing t slot with
  | nil =>
    obtain rfl : t = s := by simpa using h
    exact absurd (vacant.path_eq path) different
  | cons d q ih =>
    match t, slot, path with
    | t, [], _ =>
      obtain rfl : t = w := by simpa using other
      exact absurd (wv.path_eq pathq) (by simp)
    | node left right (some x) value, .left :: slot, path =>
      cases d with
      | left => exact ih pathq.2 h path.2 other (fun same => different (by rw [same]))
      | right => exact other
    | node left right (some x) value, .right :: slot, path =>
      cases d with
      | left => exact other
      | right => exact ih pathq.2 h path.2 other (fun same => different (by rw [same]))

omit [LinearOrder α] in
/-- The cells after filling a link with one cell: the new one, and those that were there before. -/
theorem deref_filled {t s l r : LinkTree α β} {q slot : Slot} {x y : Option α} {v value : β}
    (h : t.deref q = some s)
    (cell : (t.assign q (node null null y v)).deref slot = some (node l r x value)) :
    (slot = q ∧ x = y ∧ value = v) ∨
      (slot ≠ q ∧ ∃ l' r', t.deref slot = some (node l' r' x value)) := by
  induction q generalizing t slot with
  | nil =>
    rw [assign_root] at cell
    match slot, cell with
    | [], cell =>
      simp only [deref_root, Option.some.injEq, node.injEq] at cell
      exact Or.inl ⟨rfl, cell.2.2.1.symm, cell.2.2.2.symm⟩
    | .left :: [], cell => simp [deref] at cell
    | .right :: [], cell => simp [deref] at cell
  | cons d q ih =>
    match t, d, slot, h, cell with
    | node left right z w, .left, [], _, cell =>
      simp only [assign, deref_root, Option.some.injEq, node.injEq] at cell
      obtain ⟨_, _, rfl, rfl⟩ := cell
      exact Or.inr ⟨by simp, left, right, rfl⟩
    | node left right z w, .right, [], _, cell =>
      simp only [assign, deref_root, Option.some.injEq, node.injEq] at cell
      obtain ⟨_, _, rfl, rfl⟩ := cell
      exact Or.inr ⟨by simp, left, right, rfl⟩
    | node left right z w, .left, .right :: slot, _, cell => exact Or.inr ⟨by simp, l, r, cell⟩
    | node left right z w, .right, .left :: slot, _, cell => exact Or.inr ⟨by simp, l, r, cell⟩
    | node left right z w, .left, .left :: slot, h, cell =>
      rcases ih (t := left) h cell with ⟨rfl, same⟩ | ⟨other, before⟩
      · exact Or.inl ⟨rfl, same⟩
      · exact Or.inr ⟨fun same => other (List.cons.inj same).2, before⟩
    | node left right z w, .right, .right :: slot, h, cell =>
      rcases ih (t := right) h cell with ⟨rfl, same⟩ | ⟨other, before⟩
      · exact Or.inl ⟨rfl, same⟩
      · exact Or.inr ⟨fun same => other (List.cons.inj same).2, before⟩

/-! ### Replacing a subtree without entries, and taking one entry out -/

theorem ordered_link {t s u : LinkTree α β} {key : α} {slot : Slot} (ordered : t.Ordered)
    (path : t.OnPath key slot) (h : t.deref slot = some s) (vacant : s.entries = [])
    (hu : u.Tidy) (single : ∀ e ∈ u.entries, e.1 = key) (short : u.entries.length ≤ 1) :
    (t.assign slot u).Ordered := by
  obtain ⟨before, after, same, replaced, lower, upper⟩ := context ordered path h
  obtain ⟨tidy, sorted⟩ := (ordered_iff t).mp ordered
  refine (ordered_iff _).mpr ⟨tidy_assign path tidy hu, ?_⟩
  rw [Sorted, keys, same, vacant] at sorted
  simp only [List.append_nil, List.map_append, List.pairwise_append, List.pairwise_map] at sorted
  obtain ⟨hb, ha, cross⟩ := sorted
  rw [Sorted, keys, replaced u]
  simp only [List.map_append, List.pairwise_append, List.pairwise_map, List.mem_append]
  have hu : u.entries.Pairwise (fun a b => a.1 < b.1) := by
    match u.entries, short with
    | [], _ => exact List.Pairwise.nil
    | [e], _ => exact List.pairwise_singleton _ _
  refine ⟨⟨hb, hu, ?_⟩, ha, ?_⟩
  · intro a ma b mb
    obtain ⟨e, he, rfl⟩ := List.mem_map.mp ma
    obtain ⟨e', he', rfl⟩ := List.mem_map.mp mb
    exact (lower e he).trans_eq (single e' he').symm
  · rintro a (ma | ma) b mb
    · exact cross a ma b mb
    · obtain ⟨e, he, rfl⟩ := List.mem_map.mp ma
      obtain ⟨e', he', rfl⟩ := List.mem_map.mp mb
      exact (single e he).trans_lt (upper e' he')

theorem mem_entries_link {t s u : LinkTree α β} {key : α} {slot : Slot} (ordered : t.Ordered)
    (path : t.OnPath key slot) (h : t.deref slot = some s) (vacant : s.entries = [])
    (e : α × β) : e ∈ (t.assign slot u).entries ↔ e ∈ u.entries ∨ e ∈ t.entries := by
  obtain ⟨before, after, same, replaced, _, _⟩ := context ordered path h
  simp only [replaced u, same, vacant, List.mem_append, List.not_mem_nil, or_false]
  tauto

theorem mem_keys_link {t s u : LinkTree α β} {key : α} {slot : Slot} (ordered : t.Ordered)
    (path : t.OnPath key slot) (h : t.deref slot = some s) (vacant : s.entries = []) (x : α) :
    x ∈ (t.assign slot u).keys ↔ x ∈ u.keys ∨ x ∈ t.keys := by
  simp only [mem_keys, mem_entries_link ordered path h vacant, exists_or]

/-- A cell without children has at most one entry, also while it has no key. -/
theorem ordered_link_cell {t s : LinkTree α β} {key : α} {slot : Slot} {cellKey : Option α} {value : β}
    (ordered : t.Ordered) (path : t.OnPath key slot) (h : t.deref slot = some s)
    (vacant : s.entries = []) (own : ∀ k, cellKey = some k → k = key) :
    (t.assign slot (node null null cellKey value)).Ordered := by
  refine ordered_link ordered path h vacant ?_ (fun e member => ?_) ?_
  · cases cellKey with
    | none => exact ⟨rfl, rfl⟩
    | some k => exact ⟨trivial, trivial⟩
  · rw [entries_cell] at member
    obtain ⟨k, inside, rfl⟩ := List.mem_map.mp member
    exact own k (Option.mem_toList.mp inside)
  · rw [entries_cell]
    cases cellKey with
    | none => exact Nat.zero_le 1
    | some k => exact Nat.le_refl 1

theorem ordered_unlink {t l r u : LinkTree α β} {key : α} {value : β} {slot : Slot}
    (ordered : t.Ordered) (path : t.OnPath key slot)
    (h : t.deref slot = some (node l r (some key) value)) (hu : u.Tidy)
    (removed : u.entries = l.entries ++ r.entries) : (t.assign slot u).Ordered := by
  obtain ⟨before, after, same, replaced, _, _⟩ := context ordered path h
  obtain ⟨tidy, sorted⟩ := (ordered_iff t).mp ordered
  refine (ordered_iff _).mpr ⟨tidy_assign path tidy hu, ?_⟩
  apply List.Pairwise.sublist _ sorted
  rw [keys, keys, replaced u, same, removed, entries]
  apply List.Sublist.map
  refine List.Sublist.append_right (List.Sublist.append_left ?_ _) _
  exact List.Sublist.append_left (List.sublist_cons_self _ _) _

theorem mem_entries_unlink {t l r u : LinkTree α β} {key : α} {value : β} {slot : Slot}
    (ordered : t.Ordered) (path : t.OnPath key slot)
    (h : t.deref slot = some (node l r (some key) value))
    (removed : u.entries = l.entries ++ r.entries) (e : α × β) :
    e ∈ (t.assign slot u).entries ↔ e ∈ t.entries ∧ e.1 ≠ key := by
  obtain ⟨before, after, same, replaced, lower, upper⟩ := context ordered path h
  have below := ordered_deref ordered path h
  rw [replaced u, same, removed, entries]
  simp only [List.mem_append, List.mem_cons]
  constructor
  · rintro ((he | he | he) | he)
    · exact ⟨by tauto, (lower e he).ne⟩
    · exact ⟨by tauto, (below.2.2.1 e.1 (List.mem_map_of_mem he)).ne⟩
    · exact ⟨by tauto, (below.2.2.2 e.1 (List.mem_map_of_mem he)).ne'⟩
    · exact ⟨by tauto, (upper e he).ne'⟩
  · rintro ⟨(he | he | rfl | he) | he, different⟩
    · tauto
    · tauto
    · exact absurd rfl different
    · tauto
    · tauto

end Order

end LinkTree
