import TlpiExercises.Library.Runs
import TlpiExercises.NameValue.Bindings

/-!
# Which requests stay inside the fields

The server takes the three fields of a request as strings, whatever bytes a client has sent. The
states here are those of any requests, also of requests whose allocations failed.
-/

namespace Tlpi.NameValue

open Tlpi.BinaryTree LinkTree

/-! ### The condition -/

/-- The search for the key ends at a NULL link. -/
def Ends (tree : BTree Pointer) (key : CStr) : Prop :=
  ∃ slot, tree.root.OnPath key slot ∧ tree.root.deref slot = some .null

/-- `bt_add` returns. -/
def Returns (tree : BTree Pointer) (m : Mallocs) (key : CStr) : Prop :=
  key ∈ tree.root.keys ∨ Ends tree key ∧ m.node = true

/-- `bt_add` comes to the copy of the key. -/
def Copies (tree : BTree Pointer) (m : Mallocs) (key : CStr) : Prop :=
  Ends tree key ∧ m = .succeed

def Server.Admits (s : Server) (req : RequestMsg) : Prop :=
  ∃ p, (req.key.text, p) ∈ s.authTree.root.entries ∧ s.heap.string p = .ok req.password.text

/-- Each field that is copied has a NUL in it. -/
structure InBounds (s : Server) (env : Environment) (req : RequestMsg) : Prop where
  value : req.command.1 = CMD_ADD → env.value = true → req.value.terminated = true
  key : req.command.1 = CMD_ADD → env.value = true → Copies s.tree env.valueNode req.key.text →
    req.key.terminated = true
  password : req.command.1 = CMD_ADD → env.value = true →
    Returns s.tree env.valueNode req.key.text → env.password = true →
    req.password.terminated = true
  passwordKey : req.command.1 = CMD_ADD → env.value = true →
    Returns s.tree env.valueNode req.key.text → env.password = true →
    Copies s.authTree env.passwordNode req.key.text → req.key.terminated = true
  modify : req.command.1 = CMD_MOD → s.Admits req → req.key.text ∈ s.tree.root.keys →
    req.value.terminated = true

def Connection.InBounds (s : Server) : Connection → Prop
  | .request env req => NameValue.InBounds s env req
  | _ => True

/-! ### The buffers of a tree -/

/-- Every node's buffer holds a string of fewer than `capacity` bytes. -/
structure Buffers (capacity : Nat) (heap : Heap) (tree : BTree Pointer) : Prop where
  sound : Sound tree.root
  short : ∀ key ∈ tree.root.keys, key.length < MAX_KEY
  stored : ∀ key p, (key, p) ∈ tree.root.entries →
    ∃ text, heap[p]? = some (some text) ∧ text.length < capacity

section Buffers

variable {capacity : Nat} {heap : Heap} {tree : BTree Pointer}

theorem buffers_empty (heap : Heap) : Buffers capacity heap btInitialize where
  sound := sound_null
  short := by simp [btInitialize]
  stored := by simp [btInitialize]

theorem Buffers.inHeap (buffers : Buffers capacity heap tree) {key : CStr} {p : Pointer}
    (entry : (key, p) ∈ tree.root.entries) : p < heap.length := by
  obtain ⟨text, content, _⟩ := buffers.stored key p entry
  exact (List.getElem?_eq_some_iff.mp content).1

theorem Buffers.frame {heap' : Heap} (buffers : Buffers capacity heap tree)
    (same : ∀ key p, (key, p) ∈ tree.root.entries → heap'[p]? = heap[p]?) :
    Buffers capacity heap' tree where
  sound := buffers.sound
  short := buffers.short
  stored := by
    intro key p entry
    rw [same key p entry]
    exact buffers.stored key p entry

theorem Buffers.allocate (buffers : Buffers capacity heap tree) (buffer : Option CStr) :
    Buffers capacity (heap ++ [buffer]) tree := by
  apply buffers.frame
  intro key p entry
  exact List.getElem?_append_left (buffers.inHeap entry)

theorem Buffers.overwrite (buffers : Buffers capacity heap tree) (p : Pointer) {text : CStr}
    (fits : text.length < capacity) : Buffers capacity (heap.set p (some text)) tree where
  sound := buffers.sound
  short := buffers.short
  stored := by
    intro key q entry
    by_cases same : p = q
    · subst same
      exact ⟨text, List.getElem?_set_self (buffers.inHeap entry), fits⟩
    · rw [List.getElem?_set_ne same]
      exact buffers.stored key q entry

theorem Buffers.withKey {α : Type} (buffers : Buffers capacity heap tree) (key : CharArray MAX_KEY)
    (call : CStr → Except Fault α) : NameValue.withKey tree key call = call key.text := by
  rw [NameValue.withKey, if_pos (comparesInside_short key buffers.short)]

/-- A lookup finds the node's buffer, or fails without leaving the fields. -/
theorem Buffers.lookup_cases (buffers : Buffers capacity heap tree) (key : CharArray MAX_KEY)
    (old : Pointer) :
    (∃ p text, NameValue.withKey tree key (btLookup tree · old) = .ok (.success, p) ∧
      (key.text, p) ∈ tree.root.entries ∧ heap[p]? = some (some text) ∧
      text.length < capacity) ∨
    (key.text ∉ tree.root.keys ∧
      (NameValue.withKey tree key (btLookup tree · old) = .ok (.failure none, old) ∨
        NameValue.withKey tree key (btLookup tree · old) = .error .nullDereference)) := by
  rw [buffers.withKey]
  by_cases member : key.text ∈ tree.root.keys
  · obtain ⟨p, entry⟩ := mem_keys.mp member
    obtain ⟨text, content, fits⟩ := buffers.stored _ _ entry
    exact Or.inl ⟨p, text, btLookup_present buffers.sound entry old, entry, content, fits⟩
  · refine Or.inr ⟨member, ?_⟩
    by_cases empty : tree.root = .null
    · exact Or.inl (btLookup_empty key.text old empty)
    · exact Or.inr (btLookup_absent buffers.sound empty member old)

theorem Ends.absent (sound : Sound tree.root) {key : CStr} (ends : Ends tree key) :
    key ∉ tree.root.keys := by
  obtain ⟨slot, path, free⟩ := ends
  exact (mem_keys_of_onPath sound.ordered path free).not.mpr (by simp)

/-- A call of `bt_add` returns, or leaves the key field, or follows a NULL pointer. -/
theorem Buffers.addKey_cases (buffers : Buffers capacity heap tree) (m : Mallocs)
    (key : CharArray MAX_KEY) (p : Pointer) :
    (Returns tree m key.text ∧ (Copies tree m key.text → key.terminated = true) ∧
      ∃ status tree', addKey m tree key p = .ok (status, tree') ∧ Sound tree'.root ∧
        ((status.rv = -1 ∧ ∀ e ∈ tree'.root.entries, e ∈ tree.root.entries) ∨
          (status.rv = 0 ∧ key.terminated = true ∧
            ∀ e ∈ tree'.root.entries, e = (key.text, p) ∨ e ∈ tree.root.entries))) ∨
    (Copies tree m key.text ∧ key.terminated = false ∧ addKey m tree key p = .error .outOfBounds) ∨
    (¬ Returns tree m key.text ∧ addKey m tree key p = .error .nullDereference) := by
  have sound := buffers.sound
  rw [addKey, buffers.withKey]
  by_cases member : key.text ∈ tree.root.keys
  · rw [btAdd_present m p sound.ordered member]
    refine Or.inl ⟨Or.inl member, fun copies => absurd member (copies.1.absent sound), _, tree, rfl,
      sound, Or.inl ⟨rfl, fun e entry => entry⟩⟩
  by_cases ends : Ends tree key.text
  · obtain ⟨slot, path, free⟩ := ends
    have linked (u : BTNode Pointer) := mem_entries_link (u := u) sound.ordered path free rfl
    have fits : key.text.length ≤ BT_KEY_MAX := (CharArray.text_le key).trans (by decide)
    have call := btAdd_ends m p path free
    have ends : Ends tree key.text := ⟨slot, path, free⟩
    obtain ⟨node, keyBuffer⟩ := m
    cases node with
    | false =>
      refine Or.inr (Or.inr ⟨?_, by rw [call]; rfl⟩)
      rintro (found | ⟨_, allocated⟩)
      · exact member found
      · cases allocated
    | true =>
      cases keyBuffer with
      | false =>
        refine Or.inl ⟨Or.inr ⟨ends, rfl⟩, ?_, _, _, by rw [call]; rfl, btAdd_sound sound call,
          Or.inl ⟨rfl, fun e entry => ?_⟩⟩
        · rintro ⟨_, succeed⟩
          cases succeed
        · exact ((linked _ e).mp entry).resolve_left (by simp [entries])
      | true =>
        rw [← Mallocs.succeed] at call ⊢
        rw [btCreateNode_succeed p fits] at call
        cases terminated : key.terminated with
        | false =>
          refine Or.inr (Or.inl ⟨⟨ends, rfl⟩, rfl, ?_⟩)
          rw [call]
          rfl
        | true =>
          refine Or.inl ⟨Or.inr ⟨ends, rfl⟩, fun _ => rfl, _, _, by rw [call]; rfl,
            btAdd_sound sound call, Or.inr ⟨rfl, rfl, fun e entry => ?_⟩⟩
          exact ((linked _ e).mp entry).imp_left (by simp [entries])
  · rcases btAdd_cases m key.text p sound.ordered with
      ⟨found, _⟩ | ⟨slot, path, free, _⟩ | ⟨_, _, call⟩
    · exact absurd found member
    · exact absurd ⟨slot, path, free⟩ ends
    · refine Or.inr (Or.inr ⟨?_, by rw [call]; rfl⟩)
      rintro (found | ⟨found, _⟩)
      · exact member found
      · exact ends found

theorem Buffers.extend (buffers : Buffers capacity heap tree) {tree' : BTree Pointer} {text : CStr}
    {key : CStr} (short : key.length < MAX_KEY) (fits : text.length < capacity)
    (sound : Sound tree'.root)
    (entries : ∀ e ∈ tree'.root.entries, e = (key, heap.length) ∨ e ∈ tree.root.entries) :
    Buffers capacity (heap ++ [some text]) tree' where
  sound := sound
  short := by
    intro k member
    obtain ⟨p, entry⟩ := mem_keys.mp member
    rcases entries _ entry with new | old
    · rw [(Prod.mk.inj new).1]
      exact short
    · exact buffers.short k (mem_keys.mpr ⟨p, old⟩)
  stored := by
    intro k p entry
    rcases entries _ entry with new | old
    · rw [(Prod.mk.inj new).2]
      exact ⟨text, by simp, fits⟩
    · exact (buffers.allocate _).stored k p old

theorem Buffers.shrink (buffers : Buffers capacity heap tree) {tree' : BTree Pointer}
    (sound : Sound tree'.root) (entries : ∀ e ∈ tree'.root.entries, e ∈ tree.root.entries) :
    Buffers capacity heap tree' where
  sound := sound
  short := by
    intro k member
    obtain ⟨p, entry⟩ := mem_keys.mp member
    exact buffers.short k (mem_keys.mpr ⟨p, entries _ entry⟩)
  stored := fun k p entry => buffers.stored k p (entries _ entry)

/-! ### CMD_ADD -/

/-- The four ways in which a half of CMD_ADD can go. -/
theorem Buffers.addEntry_cases {n : Nat} (buffers : Buffers n heap tree) (malloc : Bool)
    (m : Mallocs) (key : CharArray MAX_KEY) (source : CharArray n) (message : String) :
    (malloc = false ∧ addEntry malloc m heap tree key source message = .error .exit) ∨
    (malloc = true ∧
      (source.terminated = false ∨ Copies tree m key.text ∧ key.terminated = false) ∧
      addEntry malloc m heap tree key source message = .error (.fault .outOfBounds)) ∨
    (malloc = true ∧ source.terminated = true ∧ ¬ Returns tree m key.text ∧
      addEntry malloc m heap tree key source message = .error (.fault .nullDereference)) ∨
    (malloc = true ∧ source.terminated = true ∧ Returns tree m key.text ∧
      (Copies tree m key.text → key.terminated = true) ∧
      ∃ output buffer tree', addEntry malloc m heap tree key source message =
          .ok (output, heap ++ [buffer], tree') ∧ Buffers n (heap ++ [buffer]) tree' ∧
        ∀ k p, (k, p) ∈ tree'.root.entries → (k, p) ∈ tree.root.entries ∨ p = heap.length) := by
  unfold addEntry
  cases malloc with
  | false => exact Or.inl ⟨rfl, rfl⟩
  | true =>
    rw [if_neg Bool.true_eq_false_eq_False]
    cases terminated : source.terminated with
    | false =>
      refine Or.inr (Or.inl ⟨rfl, Or.inl rfl, ?_⟩)
      rw [CharArray.strcpy, if_neg (by simp [terminated])]
      rfl
    | true =>
      rw [CharArray.strcpy_fits terminated]
      rcases buffers.addKey_cases m key heap.length with
        ⟨returns, inside, status, tree', call, sound, outcome⟩ | ⟨copies, unterminated, call⟩ |
        ⟨faults, call⟩
      · refine Or.inr (Or.inr (Or.inr ⟨rfl, rfl, returns, inside, ?_⟩))
        rcases outcome with ⟨failed, same⟩ | ⟨added, keyTerminated, linked⟩
        · have freed : Heap.free (heap ++ [some source.text]) heap.length = heap ++ [none] := by
            simp [Heap.free]
          refine ⟨[.errMsg message], none, tree', ?_, (buffers.allocate none).shrink sound same,
            fun k p entry => Or.inl (same _ entry)⟩
          simp only [orFault, Except.mapError, ok_bind, call, if_pos failed, freed, pure_eq_ok]
        · refine ⟨[], some source.text, tree', ?_,
            buffers.extend (CharArray.text_length keyTerminated) (CharArray.text_length terminated)
              sound linked, fun k p entry => ?_⟩
          · have notFailed : status.rv ≠ -1 := by omega
            simp only [orFault, Except.mapError, ok_bind, call, if_neg notFailed, pure_eq_ok]
          · rcases linked _ entry with new | old
            · exact Or.inr (Prod.mk.inj new).2
            · exact Or.inl old
      · refine Or.inr (Or.inl ⟨rfl, Or.inr ⟨copies, unterminated⟩, ?_⟩)
        simp only [orFault, Except.mapError, ok_bind, call, error_bind]
      · refine Or.inr (Or.inr (Or.inl ⟨rfl, rfl, faults, ?_⟩))
        simp only [orFault, Except.mapError, ok_bind, call, error_bind]

end Buffers

structure Bounded (s : Server) : Prop where
  values : Buffers MAX_VAL s.heap s.tree
  passwords : Buffers PAS_LEN s.heap s.authTree
  apart : ∀ key key' p, (key, p) ∈ s.tree.root.entries → (key', p) ∉ s.authTree.root.entries

theorem bounded_initial : Bounded .initial where
  values := buffers_empty []
  passwords := buffers_empty []
  apart := by simp [Server.initial, btInitialize]

section Step

variable {s : Server} {env : Environment} {req : RequestMsg}

/-- Each tree gets a buffer of its own at the end of the heap. -/
theorem Bounded.extend (bounded : Bounded s) {buffer buffer' : Option CStr} {tree authTree : BTree Pointer}
    (values : Buffers MAX_VAL (s.heap ++ [buffer]) tree)
    (passwords : Buffers PAS_LEN (s.heap ++ [buffer] ++ [buffer']) authTree)
    (entries : ∀ k p, (k, p) ∈ tree.root.entries → (k, p) ∈ s.tree.root.entries ∨ p = s.heap.length)
    (entries' : ∀ k p, (k, p) ∈ authTree.root.entries →
      (k, p) ∈ s.authTree.root.entries ∨ p = (s.heap ++ [buffer]).length) :
    Bounded { s with heap := s.heap ++ [buffer] ++ [buffer'], tree, authTree } := by
  refine ⟨values.allocate buffer', passwords, ?_⟩
  intro key key' p entry entry'
  rcases entries key p entry with old | new
  · rcases entries' key' p entry' with old' | new'
    · exact bounded.apart key key' p old old'
    · have inHeap := bounded.values.inHeap old
      simp [new'] at inHeap
  · rcases entries' key' p entry' with old' | new'
    · exact absurd (bounded.passwords.inHeap old') (by simp [new])
    · simp [new] at new'

theorem cmdAdd_cases (bounded : Bounded s) (env : Environment) (command : req.command.1 = CMD_ADD) :
    (cmdAdd s env req ≠ .error (.fault .outOfBounds) ↔ InBounds s env req) ∧
      ∀ output s', cmdAdd s env req = .ok (output, s') → Bounded s' := by
  have notModify : req.command.1 ≠ CMD_MOD := by rw [command]; decide
  unfold cmdAdd
  rcases bounded.values.addEntry_cases env.value env.valueNode req.key req.value
      "Duplicate key entered" with
    ⟨malloc, call⟩ | ⟨malloc, outside, call⟩ | ⟨malloc, terminated, faults, call⟩ |
    ⟨malloc, terminated, returns, inside, output, buffer, tree, call, values, entries⟩
  · rw [call]
    refine ⟨iff_of_true nofun ?_, nofun⟩
    constructor <;> simp [malloc, notModify]
  · rw [call]
    refine ⟨iff_of_false (not_not_intro rfl) ?_, nofun⟩
    intro good
    rcases outside with unterminated | ⟨copies, unterminated⟩
    · rw [good.value command malloc] at unterminated
      cases unterminated
    · rw [good.key command malloc copies] at unterminated
      cases unterminated
  · rw [call]
    refine ⟨iff_of_true nofun ?_, nofun⟩
    constructor
    case value => exact fun _ _ => terminated
    case key => exact fun _ _ copies => absurd (Or.inr ⟨copies.1, by rw [copies.2]; rfl⟩) faults
    case password => exact fun _ _ returns => absurd returns faults
    case passwordKey => exact fun _ _ returns => absurd returns faults
    case modify => exact fun modify => absurd modify notModify
  · rw [call]
    simp only [ok_bind]
    have rest (password : env.password = true → req.password.terminated = true)
        (passwordKey : env.password = true →
          Copies s.authTree env.passwordNode req.key.text → req.key.terminated = true) :
        InBounds s env req :=
      { value := fun _ _ => terminated
        key := fun _ _ => inside
        password := fun _ _ _ => password
        passwordKey := fun _ _ _ => passwordKey
        modify := fun modify => absurd modify notModify }
    rcases (bounded.passwords.allocate buffer).addEntry_cases env.password env.passwordNode req.key
        req.password "Couldn't add password" with
      ⟨malloc', call'⟩ | ⟨malloc', outside, call'⟩ | ⟨malloc', terminated', faults, call'⟩ |
      ⟨malloc', terminated', _, inside', output', buffer', authTree, call', passwords, entries'⟩
    · rw [call']
      exact ⟨iff_of_true nofun (rest (by simp [malloc']) (by simp [malloc'])), nofun⟩
    · rw [call']
      refine ⟨iff_of_false (not_not_intro rfl) ?_, nofun⟩
      intro good
      rcases outside with unterminated | ⟨copies, unterminated⟩
      · rw [good.password command malloc returns malloc'] at unterminated
        cases unterminated
      · rw [good.passwordKey command malloc returns malloc' copies] at unterminated
        cases unterminated
    · rw [call']
      refine ⟨iff_of_true nofun (rest (fun _ => terminated') fun _ copies => ?_), nofun⟩
      exact absurd (Or.inr ⟨copies.1, by rw [copies.2]; rfl⟩) faults
    · rw [call']
      refine ⟨iff_of_true nofun (rest (fun _ => terminated') fun _ => inside'), ?_⟩
      intro all s' result
      cases result
      exact bounded.extend values passwords entries entries'

/-! ### CMD_DEL, CMD_MOD and CMD_GET -/

theorem authenticate_cases (bounded : Bounded s) (env : Environment) (req : RequestMsg) :
    (s.Admits req ∧ authenticate s env req = .ok none) ∨
    (¬ s.Admits req ∧ ((∃ message, authenticate s env req = .ok (some message)) ∨
      authenticate s env req = .error .nullDereference)) := by
  unfold authenticate
  rcases bounded.passwords.lookup_cases req.key env.lookupPass with
    ⟨p, text, call, entry, content, fits⟩ | ⟨absent, call⟩
  · have stored : s.heap.string p = .ok text := by rw [Heap.string, content]
    have admits : s.Admits req ↔ text = req.password.text := by
      constructor
      · rintro ⟨q, entry', stored'⟩
        rw [bounded.passwords.sound.ordered.functional entry' entry, stored] at stored'
        exact Except.ok.inj stored'
      · rintro rfl
        exact ⟨p, entry, stored⟩
    simp only [call, stored, ok_bind, CharArray.strcmp_short req.password fits]
    rw [if_neg (by decide), admits]
    by_cases same : text = req.password.text
    · refine Or.inl ⟨same, ?_⟩
      rw [if_neg (not_not_intro (strcmp_eq_zero.mpr same))]
      rfl
    · refine Or.inr ⟨same, Or.inl ⟨.errMsg "Couldn't authenticate", ?_⟩⟩
      rw [if_pos (mt strcmp_eq_zero.mp same)]
      rfl
  · refine Or.inr ⟨?_, ?_⟩
    · rintro ⟨p, entry, _⟩
      exact absent (mem_keys.mpr ⟨p, entry⟩)
    · rcases call with call | call
      · exact Or.inl ⟨.errMsg "Key doesn't exist", by rw [call]; rfl⟩
      · exact Or.inr (by rw [call]; rfl)

theorem cmdDel_cases (bounded : Bounded s) (env : Environment) (req : RequestMsg) :
    cmdDel s env req ≠ .error .outOfBounds ∧
      ∀ output s', cmdDel s env req = .ok (output, s') → Bounded s' := by
  unfold cmdDel
  rcases authenticate_cases bounded env req with
    ⟨_, checked⟩ | ⟨_, ⟨message, checked⟩ | checked⟩
  · rw [checked, ok_bind, bounded.values.withKey]
    rcases btDelete_cases req.key.text bounded.values.sound with
      ⟨_, root, call, sound, _, entries⟩ | ⟨_, errno, call⟩ | ⟨_, call⟩
    · simp only [call, ok_bind]
      rw [if_neg (by decide)]
      refine ⟨nofun, ?_⟩
      rintro output s' ⟨⟩
      have remaining : ∀ e ∈ root.entries, e ∈ s.tree.root.entries :=
        fun e entry => ((entries e).mp entry).1
      exact ⟨bounded.values.shrink sound remaining, bounded.passwords,
        fun key key' p entry => bounded.apart key key' p (remaining _ entry)⟩
    · simp only [call, ok_bind, Status.failure_rv, if_true]
      refine ⟨nofun, ?_⟩
      rintro output s' ⟨⟩
      exact bounded
    · simp only [call, error_bind]
      exact ⟨nofun, nofun⟩
  · rw [checked]
    refine ⟨nofun, ?_⟩
    rintro output s' ⟨⟩
    exact bounded
  · rw [checked]
    exact ⟨nofun, nofun⟩

theorem cmdMod_cases (bounded : Bounded s) (env : Environment) (req : RequestMsg) :
    (cmdMod s env req ≠ .error .outOfBounds ↔
      (s.Admits req → req.key.text ∈ s.tree.root.keys → req.value.terminated = true)) ∧
      ∀ output s', cmdMod s env req = .ok (output, s') → Bounded s' := by
  unfold cmdMod
  rcases authenticate_cases bounded env req with
    ⟨admits, checked⟩ | ⟨refused, ⟨message, checked⟩ | checked⟩
  · rw [checked, ok_bind]
    rcases bounded.values.lookup_cases req.key env.lookup with
      ⟨p, text, call, entry, content, fits⟩ | ⟨absent, call⟩
    · have stored : s.heap.string p = .ok text := by rw [Heap.string, content]
      have member : req.key.text ∈ s.tree.root.keys := mem_keys.mpr ⟨p, entry⟩
      simp only [call, ok_bind, stored, Heap.strcpy]
      rw [if_neg (by decide)]
      cases terminated : req.value.terminated with
      | false =>
        rw [CharArray.strcpy, if_neg (by simp [terminated])]
        refine ⟨iff_of_false (not_not_intro rfl) fun good => ?_, by rintro output s' ⟨⟩⟩
        cases good admits member
      | true =>
        have short := CharArray.text_length terminated
        have after : Heap.string (s.heap.set p (some req.value.text)) p = .ok req.value.text := by
          rw [Heap.string, List.getElem?_set_self (bounded.values.inHeap entry)]
        simp only [CharArray.strcpy_fits terminated, ok_bind, pure_eq_ok, after]
        refine ⟨iff_of_true (by rintro ⟨⟩) fun _ _ => trivial, ?_⟩
        rintro output s' ⟨⟩
        refine ⟨bounded.values.overwrite p short, bounded.passwords.frame ?_, bounded.apart⟩
        intro key q entry'
        apply List.getElem?_set_ne
        rintro rfl
        exact bounded.apart _ key p entry entry'
    · have fine : s.Admits req → req.key.text ∈ s.tree.root.keys →
          req.value.terminated = true := fun _ member => absurd member absent
      rcases call with call | call
      · simp only [call, ok_bind, Status.failure_rv, if_true]
        refine ⟨iff_of_true (by rintro ⟨⟩) fine, ?_⟩
        rintro output s' ⟨⟩
        exact bounded
      · simp only [call, error_bind]
        exact ⟨iff_of_true (by rintro ⟨⟩) fine, by rintro output s' ⟨⟩⟩
  · rw [checked]
    refine ⟨iff_of_true (by rintro ⟨⟩) fun admits => absurd admits refused, ?_⟩
    rintro output s' ⟨⟩
    exact bounded
  · rw [checked]
    exact ⟨iff_of_true (by rintro ⟨⟩) fun admits => absurd admits refused,
      by rintro output s' ⟨⟩⟩

theorem cmdGet_cases (bounded : Bounded s) (env : Environment) (req : RequestMsg) :
    cmdGet s env req ≠ .error .outOfBounds ∧
      ∀ output s', cmdGet s env req = .ok (output, s') → s' = s := by
  unfold cmdGet
  rcases bounded.values.lookup_cases req.key env.lookup with
    ⟨p, text, call, _, content, _⟩ | ⟨_, call | call⟩
  · have stored : s.heap.string p = .ok text := by rw [Heap.string, content]
    simp only [call, ok_bind, stored]
    rw [if_neg (by decide)]
    refine ⟨by rintro ⟨⟩, ?_⟩
    rintro output s' ⟨⟩
    rfl
  · simp only [call, ok_bind, Status.failure_rv, if_true]
    refine ⟨by rintro ⟨⟩, ?_⟩
    rintro output s' ⟨⟩
    rfl
  · simp only [call, error_bind]
    exact ⟨by rintro ⟨⟩, by rintro output s' ⟨⟩⟩

/-! ### Requests and runs -/

theorem orFault_ne {α : Type} {call : Except Fault α} :
    orFault call ≠ .error (.fault .outOfBounds) ↔ call ≠ .error .outOfBounds := by
  cases call <;> simp [orFault, Except.mapError]

theorem orFault_ok {α : Type} {call : Except Fault α} {a : α} :
    orFault call = .ok a ↔ call = .ok a := by
  cases call <;> simp [orFault, Except.mapError]

theorem handle_cases (bounded : Bounded s) (env : Environment) (req : RequestMsg) :
    (handle s env req ≠ .error (.fault .outOfBounds) ↔ InBounds s env req) ∧
      ∀ output s', handle s env req = .ok (output, s') → Bounded s' := by
  unfold handle
  by_cases add : req.command.1 = CMD_ADD
  · rw [if_pos add]
    exact cmdAdd_cases bounded env add
  rw [if_neg add]
  have inBounds (modify : req.command.1 = CMD_MOD → s.Admits req →
      req.key.text ∈ s.tree.root.keys → req.value.terminated = true) : InBounds s env req :=
    { value := fun command => absurd command add
      key := fun command => absurd command add
      password := fun command => absurd command add
      passwordKey := fun command => absurd command add
      modify := modify }
  by_cases delete : req.command.1 = CMD_DEL
  · have notModify : req.command.1 ≠ CMD_MOD := by rw [delete]; decide
    obtain ⟨inside, keeps⟩ := cmdDel_cases bounded env req
    rw [if_pos delete, orFault_ne]
    refine ⟨iff_of_true inside (inBounds fun modify => absurd modify notModify), fun output s' call => ?_⟩
    exact keeps output s' (orFault_ok.mp call)
  rw [if_neg delete]
  by_cases modify : req.command.1 = CMD_MOD
  · obtain ⟨inside, keeps⟩ := cmdMod_cases bounded env req
    rw [if_pos modify, orFault_ne, inside]
    refine ⟨⟨fun good => inBounds fun _ => good, fun good => good.modify modify⟩, fun output s' call => ?_⟩
    exact keeps output s' (orFault_ok.mp call)
  rw [if_neg modify]
  have fine := inBounds fun command => absurd command modify
  by_cases get : req.command.1 = CMD_GET
  · obtain ⟨inside, keeps⟩ := cmdGet_cases bounded env req
    rw [if_pos get, orFault_ne]
    refine ⟨iff_of_true inside fine, fun output s' call => ?_⟩
    rw [keeps output s' (orFault_ok.mp call)]
    exact bounded
  · rw [if_neg get]
    refine ⟨iff_of_true nofun fine, ?_⟩
    rintro output s' ⟨⟩
    exact bounded

end Step

/-- A turn of the loop without what it prints. -/
def turn (s : Server) (connection : Connection) : Except End Server :=
  (serve s connection).map Prod.snd

theorem runFrom_eq (s : Server) (connections : List Connection) :
    runFrom s connections = Runs.run turn s connections := by
  induction connections generalizing s with
  | nil => rfl
  | cons connection connections ih =>
    rw [runFrom, Runs.run, turn]
    cases serve s connection with
    | error ended => rfl
    | ok result => exact ih result.2

theorem turn_cases {s : Server} (bounded : Bounded s) (connection : Connection) :
    (turn s connection ≠ .error (.fault .outOfBounds) ↔ connection.InBounds s) ∧
      ∀ s', turn s connection = .ok s' → Bounded s' := by
  have printed (result : Except End (List Output × Server)) (s' : Server)
      (call : result.map Prod.snd = .ok s') : ∃ output, result = .ok (output, s') := by
    cases result with
    | error ended => cases call
    | ok pair => exact ⟨pair.1, by cases call; rfl⟩
  have failed (result : Except End (List Output × Server)) :
      result.map Prod.snd ≠ .error (.fault .outOfBounds) ↔ result ≠ .error (.fault .outOfBounds) := by
    cases result <;> simp [Except.map]
  cases connection with
  | failed => exact ⟨iff_of_true nofun trivial, by rintro s' ⟨⟩; exact bounded⟩
  | dropped => exact ⟨iff_of_true nofun trivial, by rintro s' ⟨⟩; exact bounded⟩
  | request env req =>
    obtain ⟨inside, keeps⟩ := handle_cases bounded env req
    refine ⟨(failed _).trans inside, fun s' call => ?_⟩
    obtain ⟨output, result⟩ := printed _ s' call
    exact keeps output s' result

/-- No request of a run leaves its fields, or a buffer, exactly when each one meets the condition
in the state it comes to. -/
theorem run_inBounds_iff (connections : List Connection) :
    run connections ≠ .error (.fault .outOfBounds) ↔
      Runs.Each turn (fun s connection => connection.InBounds s) .initial connections := by
  rw [run, runFrom_eq]
  exact Runs.never_iff (fun s connection bounded => (turn_cases bounded connection).1)
    (fun s connection s' bounded call => (turn_cases bounded connection).2 s' call) bounded_initial

/-- A CMD_ADD whose value field is full. -/
def fullRequest : RequestMsg :=
  ⟨⟨CMD_ADD, by decide⟩, ⟨List.replicate PAS_LEN 0, rfl⟩, ⟨List.replicate MAX_KEY 0, rfl⟩,
    ⟨List.replicate MAX_VAL 118, rfl⟩⟩

theorem full_value_overruns :
    ¬ ∀ connections s, run connections = .ok s →
      ∀ env req, handle s env req ≠ .error (.fault .outOfBounds) := by
  intro inside
  exact inside [] .initial rfl ⟨true, .succeed, true, .succeed, 0, 0⟩ fullRequest rfl

end Tlpi.NameValue
