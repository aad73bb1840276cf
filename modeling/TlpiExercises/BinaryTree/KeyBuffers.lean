import TlpiExercises.BinaryTree.Operations
import TlpiExercises.BinaryTree.Print

/-!
# The key buffers

`bt_create_node` copies a key of any length into `BT_KEY_MAX + 1` bytes. Nothing else can write a
longer key: a delete copies between two such buffers, and the label of a key that fits its
buffer fits `buf`.
-/

namespace Tlpi.BinaryTree

open LinkTree

variable {V : Type}

/-- The tree with the static variable of `bt_print_rec`. -/
structure Session (V : Type) where
  tree : BTree V
  spaceCount : Int

def Session.initial : Session V := ⟨btInitialize, 0⟩

inductive TreeCall (V : Type) where
  | add (m : Mallocs) (key : CStr) (value : V)
  | delete (key : CStr)
  | print (grants : Nat → Bool)

def TreeCall.step (s : Session V) : TreeCall V → Except Fault (Session V)
  | .add m key value => do
    let (_, tree) ← btAdd m s.tree key value
    return { s with tree := tree }
  | .delete key => do
    let (_, tree) ← btDelete s.tree key
    return { s with tree := tree }
  | .print grants => do
    let (spaceCount, _) ← btPrint grants s.tree s.spaceCount
    return { s with spaceCount := spaceCount }

/-- Every stored key fits its buffer with its terminator, and so does its label. -/
structure BuffersHold (s : Session V) : Prop where
  keys : ∀ key ∈ s.tree.root.keys, key.length + 1 ≤ BT_KEY_MAX + 1
  labels : ∀ key ∈ s.tree.root.keys, (label key).length + 1 ≤ LABEL_MAX

/-- The call writes behind the end of a key buffer or of the label buffer. -/
def TreeCall.Overflows (s : Session V) : TreeCall V → Prop
  | .add m key value => btAdd m s.tree key value = .error .outOfBounds
  | .delete key => btDelete s.tree key = .error .outOfBounds
  | .print _ => ∃ key ∈ s.tree.root.keys, sprintf LABEL_MAX (label key) = .error .outOfBounds

/-- No call of the run overflows, and the buffers hold in every state on the way. -/
def NoOverflow : Session V → List (TreeCall V) → Prop
  | s, [] => BuffersHold s
  | s, call :: calls =>
    BuffersHold s ∧ ¬ call.Overflows s ∧ ∀ t, call.step s = .ok t → NoOverflow t calls

/-- Both allocations succeed and the way of the key ends at a null link. -/
def Stores (m : Mallocs) (tree : BTree V) (key : CStr) : Prop :=
  m = .succeed ∧ ∃ slot, tree.root.OnPath key slot ∧ tree.root.deref slot = some .null

def TreeCall.Fits (s : Session V) : TreeCall V → Prop
  | .add m key _ => Stores m s.tree key → key.length ≤ BT_KEY_MAX
  | .delete _ => True
  | .print _ => True

/-- Every key that a call of the run stores has at most `BT_KEY_MAX` bytes. -/
def KeysFit : Session V → List (TreeCall V) → Prop
  | _, [] => True
  | s, call :: calls => call.Fits s ∧ ∀ t, call.step s = .ok t → KeysFit t calls

/-! ### One call -/

theorem btCreateNode_overflows {m : Mallocs} {key : CStr} {value : V} :
    btCreateNode m key value = .error .outOfBounds ↔ m = .succeed ∧ BT_KEY_MAX < key.length := by
  cases m with
  | mk node keyed =>
    cases node with
    | false => simp [btCreateNode, Mallocs.succeed]
    | true =>
      cases keyed with
      | false => simp [btCreateNode, Mallocs.succeed]
      | true =>
        by_cases fits : key.length < BT_KEY_MAX + 1
        · have short : ¬ BT_KEY_MAX < key.length := by omega
          simp [btCreateNode, Mallocs.succeed, strcpy_fits fits, short]
        · have long : BT_KEY_MAX < key.length := by omega
          simp [btCreateNode, Mallocs.succeed, strcpy_overflow (Nat.not_lt.mp fits), long]

theorem btAdd_overflows {m : Mallocs} {tree : BTree V} {key : CStr} {value : V}
    (sound : Sound tree.root) :
    btAdd m tree key value = .error .outOfBounds ↔
      Stores m tree key ∧ BT_KEY_MAX < key.length := by
  constructor
  · intro overflow
    rcases btAdd_cases m key value sound.ordered with
      ⟨_, call⟩ | ⟨slot, path, free, call⟩ | ⟨_, _, call⟩
    · rw [call] at overflow
      cases overflow
    · rw [call] at overflow
      cases created : btCreateNode m key value with
      | ok r =>
        rw [created] at overflow
        cases overflow
      | error fault =>
        rw [created] at overflow
        obtain rfl : fault = .outOfBounds := by simpa [Except.map] using overflow
        obtain ⟨granted, long⟩ := btCreateNode_overflows.mp created
        exact ⟨⟨granted, slot, path, free⟩, long⟩
    · rw [call] at overflow
      cases overflow
  · rintro ⟨⟨granted, slot, path, free⟩, long⟩
    rw [btAdd_ends m value path free, btCreateNode_overflows.mpr ⟨granted, long⟩]
    rfl

theorem btDelete_fits {tree : BTree V} (sound : Sound tree.root) (key : CStr) :
    btDelete tree key ≠ .error .outOfBounds := by
  rcases btDelete_cases key sound with ⟨_, root, call, _⟩ | ⟨_, errno, call⟩ | ⟨_, call⟩
  · rw [call]
    simp
  · rw [call]
    simp
  · rw [call]
    simp

theorem buffersHold_of_sound {s : Session V} (sound : Sound s.tree.root) : BuffersHold s := by
  refine ⟨fun key member => Nat.succ_le_succ (sound.fits key member), fun key member => ?_⟩
  have short := sound.fits key member
  rw [label_length]
  unfold BT_KEY_MAX at short
  unfold LABEL_MAX
  omega

/-- A call overflows exactly when it stores a key that does not fit. -/
theorem overflows_iff {s : Session V} (sound : Sound s.tree.root) (call : TreeCall V) :
    ¬ call.Overflows s ↔ call.Fits s := by
  cases call with
  | add m key value =>
    rw [TreeCall.Overflows, btAdd_overflows sound, TreeCall.Fits, not_and, not_lt]
  | delete key => exact iff_of_true (btDelete_fits sound key) trivial
  | print grants =>
    refine iff_of_true ?_ trivial
    rintro ⟨key, member, overflow⟩
    rw [sprintf_fits ((buffersHold_of_sound sound).labels key member)] at overflow
    cases overflow

theorem sound_step {s t : Session V} {call : TreeCall V} (sound : Sound s.tree.root)
    (stepped : call.step s = .ok t) : Sound t.tree.root := by
  cases call with
  | add m key value =>
    obtain ⟨⟨status, tree⟩, added, result⟩ := bind_ok stepped
    cases result
    exact btAdd_sound sound added
  | delete key =>
    obtain ⟨⟨status, tree⟩, deleted, result⟩ := bind_ok stepped
    cases result
    exact btDelete_sound sound deleted
  | print grants =>
    obtain ⟨⟨spaceCount, output⟩, _, result⟩ := bind_ok stepped
    cases result
    exact sound

/-! ### The whole run -/

theorem noOverflow_from {s : Session V} (sound : Sound s.tree.root) (calls : List (TreeCall V)) :
    NoOverflow s calls ↔ KeysFit s calls := by
  induction calls generalizing s with
  | nil => exact iff_of_true (buffersHold_of_sound sound) trivial
  | cons call calls ih =>
    rw [NoOverflow, KeysFit, overflows_iff sound]
    constructor
    · rintro ⟨_, fits, later⟩
      exact ⟨fits, fun t stepped => (ih (sound_step sound stepped)).mp (later t stepped)⟩
    · rintro ⟨fits, later⟩
      exact ⟨buffersHold_of_sound sound, fits,
        fun t stepped => (ih (sound_step sound stepped)).mpr (later t stepped)⟩

/-- A run from the empty tree stays inside the buffers exactly when the keys it stores do. -/
theorem noOverflow_iff (calls : List (TreeCall V)) :
    NoOverflow Session.initial calls ↔ KeysFit Session.initial calls :=
  noOverflow_from sound_null calls

/-- The key `aa...a`. -/
def keyOfLength (n : Nat) : CStr := ⟨List.replicate n 97, by simp [List.mem_replicate]⟩

theorem keyOfLength_length (n : Nat) : (keyOfLength n).length = n := List.length_replicate

/-- One add of a key of 256 bytes. -/
theorem noOverflow_fails : ¬ ∀ calls : List (TreeCall Nat), NoOverflow Session.initial calls := by
  intro all
  have run := all [.add .succeed (keyOfLength 256) 1]
  have sound : Sound (Session.initial : Session Nat).tree.root := sound_null
  apply run.2.1
  apply (btAdd_overflows sound).mpr
  exact ⟨⟨rfl, [], onPath_root _ _, deref_root _⟩, by rw [keyOfLength_length]; decide⟩

end Tlpi.BinaryTree
