import TlpiExercises.NameValue.Bindings

/-!
# Who may change a binding

`Store` is what the clients may rely on: each bound key has its value and the password of the
request that created the binding. The server keeps to it until a binding is deleted, since its
password stays in the second tree.
-/

namespace Tlpi.NameValue

open Tlpi.BinaryTree LinkTree

structure Binding where
  value : CStr
  password : CStr

abbrev Store := CStr → Option Binding

namespace Store

def empty : Store := fun _ => none

def values (store : Store) : CStr → Option CStr := Option.map Binding.value ∘ store

def passwords (store : Store) : CStr → Option CStr := Option.map Binding.password ∘ store

/-- The request has the password of the request that created its key's binding. -/
def Authorised (store : Store) (req : RequestMsg) : Prop :=
  ∃ b, store req.key.text = some b ∧ b.password = req.password.text

def handle (store : Store) (req : RequestMsg) : Store :=
  match store req.key.text with
  | none =>
    if req.command.1 = CMD_ADD then
      Function.update store req.key.text (some ⟨req.value.text, req.password.text⟩)
    else store
  | some b =>
    if b.password ≠ req.password.text then store
    else if req.command.1 = CMD_DEL then Function.update store req.key.text none
    else if req.command.1 = CMD_MOD then
      Function.update store req.key.text (some { b with value := req.value.text })
    else store

def serve (store : Store) : Connection → Store
  | .request _ req => store.handle req
  | _ => store

def after (connections : List Connection) : Store := connections.foldl serve empty

/-- The keys that `bt_lookup` can be asked for. -/
def Answers (store : Store) (key : CStr) : Prop := (∃ b, store key = some b) ∨ store = empty

theorem values_bound {store : Store} {key : CStr} {b : Binding} (h : store key = some b) :
    store.values key = some b.value := by
  rw [values, Function.comp_apply, h, Option.map_some]

theorem passwords_bound {store : Store} {key : CStr} {b : Binding} (h : store key = some b) :
    store.passwords key = some b.password := by
  rw [passwords, Function.comp_apply, h, Option.map_some]

theorem values_update (store : Store) (key : CStr) (b : Option Binding) :
    values (Function.update store key b) =
      Function.update store.values key (b.map Binding.value) := Function.comp_update _ _ _ _

theorem passwords_update (store : Store) (key : CStr) (b : Option Binding) :
    passwords (Function.update store key b) =
      Function.update store.passwords key (b.map Binding.password) := Function.comp_update _ _ _ _

end Store

/-! ### The requests that keep the trees together -/

/-- `delete` leaves out the CMD_DEL that takes effect and `find` the lookups that follow a NULL
pointer; the others leave out copies beyond a field and allocations that fail inside `bt_add`. -/
structure Meets (store : Store) (env : Environment) (req : RequestMsg) : Prop where
  value : req.command.1 = CMD_ADD → env.value = true → req.value.terminated = true
  password : req.command.1 = CMD_ADD → env.value = true → env.password = true →
    req.password.terminated = true
  newValue : req.command.1 = CMD_ADD → env.value = true → store req.key.text = none →
    req.key.terminated = true ∧ env.valueNode = .succeed
  newPassword : req.command.1 = CMD_ADD → env.value = true → env.password = true →
    store req.key.text = none → env.passwordNode = .succeed
  delete : req.command.1 = CMD_DEL → ¬ store.Authorised req
  modify : req.command.1 = CMD_MOD → store.Authorised req → req.value.terminated = true
  find : req.command.1 = CMD_DEL ∨ req.command.1 = CMD_MOD ∨ req.command.1 = CMD_GET →
    store.Answers req.key.text

def Connection.Meets (store : Store) : Connection → Prop
  | .request env req => NameValue.Meets store env req
  | _ => True

def AllMeet (store : Store) : List Connection → Prop
  | [] => True
  | connection :: connections =>
    connection.Meets store ∧ AllMeet (store.serve connection) connections

/-! ### The invariant -/

structure Represents (s : Server) (store : Store) : Prop where
  values : Holds s.heap s.tree store.values
  passwords : Holds s.heap s.authTree store.passwords
  passwordShort : ∀ key b, store key = some b → b.password.length < PAS_LEN
  alone : ∀ key key' p, (key, p) ∈ s.tree.root.entries → (key', p) ∈ s.tree.root.entries → key' = key
  apart : ∀ key key' p, (key, p) ∈ s.tree.root.entries → (key', p) ∉ s.authTree.root.entries

theorem represents_initial : Represents .initial Store.empty where
  values := holds_empty []
  passwords := holds_empty []
  passwordShort := by simp [Store.empty]
  alone := by simp [Server.initial, btInitialize]
  apart := by simp [Server.initial, btInitialize]

theorem Represents.keys {s : Server} {store : Store} (represents : Represents s store)
    (key : CStr) : key ∈ s.tree.root.keys ↔ key ∈ s.authTree.root.keys := by
  rw [represents.values.mem_keys_iff, represents.passwords.mem_keys_iff]
  simp [Store.values, Store.passwords]

theorem Represents.passwordShort_update {s : Server} {store : Store}
    (represents : Represents s store) {key : CStr} {b : Binding}
    (short : b.password.length < PAS_LEN) (key' : CStr) (b' : Binding)
    (bound : Function.update store key (some b) key' = some b') :
    b'.password.length < PAS_LEN := by
  by_cases same : key' = key
  · rw [same, Function.update_self] at bound
    obtain rfl := Option.some.inj bound
    exact short
  · rw [Function.update_of_ne same] at bound
    exact represents.passwordShort key' b' bound

/-! ### CMD_ADD -/

section AddEntry

variable {heap : Heap} {tree : BTree Pointer} {bound : CStr → Option CStr} {key : CharArray MAX_KEY}
  {n : Nat} {source : CharArray n}

theorem addEntry_bound (holds : Holds heap tree bound) {text : CStr}
    (h : bound key.text = some text) (terminated : source.terminated = true) (m : Mallocs)
    (message : String) :
    addEntry true m heap tree key source message =
      .ok ([.errMsg message], heap ++ [none], tree) := by
  have freed : (heap ++ [some source.text]).set heap.length none = heap ++ [none] := by simp
  unfold addEntry
  rw [if_neg Bool.true_eq_false_eq_False, CharArray.strcpy_fits terminated]
  simp only [orFault, Except.mapError, ok_bind, holds.addKey_bound h]
  rw [if_pos (by rfl), Heap.free, freed]
  rfl

theorem addEntry_absent (holds : Holds heap tree bound) (h : bound key.text = none)
    (keyTerminated : key.terminated = true) (terminated : source.terminated = true)
    (message : String) :
    ∃ tree', addEntry true .succeed heap tree key source message =
        .ok ([], heap ++ [some source.text], tree') ∧
      Holds (heap ++ [some source.text]) tree'
        (Function.update bound key.text (some source.text)) ∧
      ∀ e, e ∈ tree'.root.entries ↔ e = (key.text, heap.length) ∨ e ∈ tree.root.entries := by
  have content : (heap ++ [some source.text])[heap.length]? = some (some source.text) := by simp
  obtain ⟨tree', call, holds', entries⟩ :=
    (holds.allocate (some source.text)).addKey_absent h keyTerminated content
  refine ⟨tree', ?_, holds', entries⟩
  unfold addEntry
  rw [if_neg Bool.true_eq_false_eq_False, CharArray.strcpy_fits terminated]
  simp only [orFault, Except.mapError, ok_bind, call]
  rw [if_neg (by decide)]
  rfl

end AddEntry

variable {s : Server} {store : Store} {env : Environment} {req : RequestMsg}

theorem cmdAdd_bound (represents : Represents s store) (meets : Meets store env req)
    (command : req.command.1 = CMD_ADD) {b : Binding} (bound : store req.key.text = some b) :
    cmdAdd s env req = .error .exit ∨
      ∃ output s', cmdAdd s env req = .ok (output, s') ∧ Represents s' store := by
  unfold cmdAdd
  cases malloc : env.value with
  | false => exact Or.inl rfl
  | true =>
    rw [addEntry_bound represents.values (Store.values_bound bound) (meets.value command malloc)]
    cases malloc' : env.password with
    | false => exact Or.inl rfl
    | true =>
      simp only [ok_bind]
      rw [addEntry_bound (represents.passwords.allocate none) (Store.passwords_bound bound)
        (meets.password command malloc malloc')]
      refine Or.inr ⟨_, _, rfl, ?_⟩
      exact
        { values := (represents.values.allocate none).allocate none
          passwords := (represents.passwords.allocate none).allocate none
          passwordShort := represents.passwordShort
          alone := represents.alone
          apart := represents.apart }

theorem cmdAdd_absent (represents : Represents s store) (meets : Meets store env req)
    (command : req.command.1 = CMD_ADD) (absent : store req.key.text = none) :
    cmdAdd s env req = .error .exit ∨
      ∃ output s', cmdAdd s env req = .ok (output, s') ∧
        Represents s' (Function.update store req.key.text
          (some ⟨req.value.text, req.password.text⟩)) := by
  have noValue : store.values req.key.text = none := by simp [Store.values, absent]
  have noPassword : store.passwords req.key.text = none := by simp [Store.passwords, absent]
  unfold cmdAdd
  cases malloc : env.value with
  | false => exact Or.inl rfl
  | true =>
    obtain ⟨keyTerminated, succeed⟩ := meets.newValue command malloc absent
    obtain ⟨tree, first, values, entries⟩ := addEntry_absent represents.values noValue keyTerminated
      (meets.value command malloc) "Duplicate key entered"
    rw [succeed, first]
    cases malloc' : env.password with
    | false => exact Or.inl rfl
    | true =>
      have terminated := meets.password command malloc malloc'
      obtain ⟨authTree, second, passwords, authEntries⟩ :=
        addEntry_absent (represents.passwords.allocate (some req.value.text)) noPassword
          keyTerminated terminated "Couldn't add password"
      simp only [ok_bind]
      rw [meets.newPassword command malloc malloc' absent, second]
      refine Or.inr ⟨_, _, rfl, ?_⟩
      constructor
      case values =>
        rw [Store.values_update]
        exact values.allocate (some req.password.text)
      case passwords =>
        rw [Store.passwords_update]
        exact passwords
      case passwordShort =>
        apply represents.passwordShort_update
        exact CharArray.text_length terminated
      case alone =>
        intro key key' p entry entry'
        rcases (entries (key, p)).mp entry with new | there
        · obtain ⟨rfl, rfl⟩ := Prod.mk.inj new
          rcases (entries (key', s.heap.length)).mp entry' with new' | there'
          · exact (Prod.mk.inj new').1
          · exact absurd (represents.values.inHeap there') (lt_irrefl _)
        · rcases (entries (key', p)).mp entry' with new' | there'
          · obtain ⟨rfl, rfl⟩ := Prod.mk.inj new'
            exact absurd (represents.values.inHeap there) (lt_irrefl _)
          · exact represents.alone key key' p there there'
      case apart =>
        intro key key' p entry entry'
        have fresh : (s.heap ++ [some req.value.text]).length = s.heap.length + 1 := by simp
        rw [fresh] at authEntries
        rcases (entries (key, p)).mp entry with new | there
        · obtain ⟨rfl, rfl⟩ := Prod.mk.inj new
          rcases (authEntries (key', s.heap.length)).mp entry' with new' | there'
          · exact absurd (Prod.mk.inj new').2 (Nat.ne_of_lt (Nat.lt_succ_self _))
          · exact absurd (represents.passwords.inHeap there') (lt_irrefl _)
        · rcases (authEntries (key', p)).mp entry' with new' | there'
          · obtain ⟨rfl, rfl⟩ := Prod.mk.inj new'
            exact absurd (represents.values.inHeap there) (Nat.not_lt.mpr (Nat.le_succ _))
          · exact represents.apart key key' p there there'

theorem cmdAdd_represents (represents : Represents s store) (meets : Meets store env req)
    (command : req.command.1 = CMD_ADD) :
    cmdAdd s env req = .error .exit ∨
      ∃ output s', cmdAdd s env req = .ok (output, s') ∧ Represents s' (store.handle req) := by
  cases bound : store req.key.text with
  | none =>
    have new : store.handle req = Function.update store req.key.text
        (some ⟨req.value.text, req.password.text⟩) := by simp [Store.handle, bound, command]
    rw [new]
    exact cmdAdd_absent represents meets command bound
  | some b =>
    have same : store.handle req = store := by
      simp [Store.handle, bound, command, CMD_ADD, CMD_DEL, CMD_MOD]
    rw [same]
    exact cmdAdd_bound represents meets command bound

/-! ### CMD_DEL, CMD_MOD and CMD_GET -/

theorem authenticate_iff (env : Environment) (represents : Represents s store)
    (answers : store.Answers req.key.text) :
    ∃ verdict, authenticate s env req = .ok verdict ∧
      (verdict = none ↔ store.Authorised req) := by
  unfold authenticate
  rcases answers with ⟨b, bound⟩ | rfl
  · obtain ⟨p, call, _, content⟩ :=
      represents.passwords.lookup_bound (Store.passwords_bound bound) env.lookupPass
    have compared := CharArray.strcmp_short req.password (represents.passwordShort _ _ bound)
    have authorised : store.Authorised req ↔ b.password = req.password.text := by
      simp [Store.Authorised, bound]
    simp only [call, content, compared, ok_bind]
    rw [if_neg (by decide), authorised]
    by_cases same : b.password = req.password.text
    · refine ⟨none, ?_, by simp [same]⟩
      rw [if_neg (not_not_intro (strcmp_eq_zero.mpr same))]
      rfl
    · refine ⟨some (.errMsg "Couldn't authenticate"), ?_, by simp [same]⟩
      rw [if_pos (mt strcmp_eq_zero.mp same)]
      rfl
  · rw [represents.passwords.lookup_empty (fun _ => rfl)]
    refine ⟨some (.errMsg "Key doesn't exist"), rfl, by simp [Store.Authorised, Store.empty]⟩

theorem cmdDel_effect (represents : Represents s store) (answers : store.Answers req.key.text) :
    ∃ output s', cmdDel s env req = .ok (output, s') ∧
      (store.Authorised req →
        Holds s'.heap s'.tree (Function.update store.values req.key.text none)) ∧
      (¬ store.Authorised req → s' = s) := by
  obtain ⟨verdict, checked, authorised⟩ := authenticate_iff env represents answers
  unfold cmdDel
  rw [checked]
  cases verdict with
  | some message =>
    refine ⟨_, _, rfl, fun allowed => ?_, fun _ => rfl⟩
    exact absurd (authorised.mpr allowed) (Option.some_ne_none _)
  | none =>
    have allowed := authorised.mp rfl
    have ⟨b, bound, _⟩ := allowed
    obtain ⟨tree, call, holds⟩ := represents.values.delete_bound (Store.values_bound bound)
    simp only [ok_bind, call]
    exact ⟨_, _, rfl, fun _ => holds, fun refused => absurd allowed refused⟩

theorem cmdMod_effect (represents : Represents s store) (answers : store.Answers req.key.text)
    (terminated : store.Authorised req → req.value.terminated = true) :
    ∃ output s', cmdMod s env req = .ok (output, s') ∧
      (∀ b, store req.key.text = some b → b.password = req.password.text →
        Represents s' (Function.update store req.key.text
          (some { b with value := req.value.text }))) ∧
      (¬ store.Authorised req → s' = s) := by
  obtain ⟨verdict, checked, authorised⟩ := authenticate_iff env represents answers
  unfold cmdMod
  rw [checked]
  cases verdict with
  | some message =>
    refine ⟨_, _, rfl, fun b bound same => ?_, fun _ => rfl⟩
    exact absurd (authorised.mpr ⟨b, bound, same⟩) (Option.some_ne_none _)
  | none =>
    have allowed := authorised.mp rfl
    have ⟨b, bound, _⟩ := allowed
    obtain ⟨p, call, entry, content⟩ :=
      represents.values.lookup_bound (Store.values_bound bound) env.lookup
    have inHeap := represents.values.inHeap entry
    have written : Heap.string (s.heap.set p (some req.value.text)) p = .ok req.value.text := by
      rw [Heap.string, List.getElem?_set_self inHeap]
    have copy : s.heap.strcpy p MAX_VAL req.value =
        .ok (s.heap.set p (some req.value.text)) := by
      rw [Heap.strcpy, content, CharArray.strcpy_fits (terminated allowed)]
      rfl
    simp only [ok_bind, call, content, copy, written]
    rw [if_neg (by decide)]
    refine ⟨_, _, rfl, fun b' bound' _ => ?_, fun refused => absurd allowed refused⟩
    rw [bound] at bound'
    obtain rfl := Option.some.inj bound'
    constructor
    case values =>
      rw [Store.values_update]
      apply represents.values.overwrite entry
      intro key there
      exact represents.alone _ key p entry there
    case passwords =>
      have kept : Function.update store.passwords req.key.text (some b.password) =
          store.passwords := by
        apply Function.update_eq_self_iff.mpr
        rw [Store.passwords_bound bound]
      rw [Store.passwords_update, Option.map_some, kept]
      apply represents.passwords.frame
      intro key q there
      apply List.getElem?_set_ne
      rintro rfl
      exact represents.apart _ key p entry there
    case passwordShort =>
      apply represents.passwordShort_update
      exact represents.passwordShort _ b bound
    case alone => exact represents.alone
    case apart => exact represents.apart

theorem cmdGet_answer (represents : Represents s store) (answers : store.Answers req.key.text) :
    ∃ output, cmdGet s env req = .ok (output, s) ∧
      ∀ b, store req.key.text = some b → output = [.value b.value] := by
  unfold cmdGet
  rcases answers with ⟨b, bound⟩ | rfl
  · obtain ⟨p, call, _, content⟩ :=
      represents.values.lookup_bound (Store.values_bound bound) env.lookup
    simp only [call, content, ok_bind]
    rw [if_neg (by decide)]
    refine ⟨_, rfl, fun b' bound' => ?_⟩
    rw [bound] at bound'
    rw [Option.some.inj bound']
  · rw [represents.values.lookup_empty (fun _ => rfl)]
    exact ⟨_, rfl, fun b bound => by cases bound⟩

/-! ### Runs -/

theorem Store.handle_refused {store : Store} {req : RequestMsg} (refused : ¬ store.Authorised req)
    (command : req.command.1 ≠ CMD_ADD) : store.handle req = store := by
  unfold Store.handle
  cases bound : store req.key.text with
  | none => exact if_neg command
  | some b => exact if_pos (fun same => refused ⟨b, bound, same⟩)

theorem handle_represents (represents : Represents s store) (meets : Meets store env req) :
    handle s env req = .error .exit ∨
      ∃ output s', handle s env req = .ok (output, s') ∧ Represents s' (store.handle req) := by
  unfold handle
  by_cases add : req.command.1 = CMD_ADD
  · rw [if_pos add]
    exact cmdAdd_represents represents meets add
  · rw [if_neg add]
    right
    by_cases delete : req.command.1 = CMD_DEL
    · have refused := meets.delete delete
      obtain ⟨output, s', call, _, same⟩ := cmdDel_effect represents (meets.find (Or.inl delete))
      rw [if_pos delete, call, store.handle_refused refused add, same refused]
      exact ⟨output, s, rfl, represents⟩
    · rw [if_neg delete]
      by_cases modify : req.command.1 = CMD_MOD
      · obtain ⟨output, s', call, modified, same⟩ :=
          cmdMod_effect represents (meets.find (Or.inr (Or.inl modify))) (meets.modify modify)
        rw [if_pos modify, call]
        refine ⟨output, s', rfl, ?_⟩
        by_cases authorised : store.Authorised req
        · obtain ⟨b, bound, password⟩ := authorised
          have new : store.handle req = Function.update store req.key.text
              (some { b with value := req.value.text }) := by
            simp [Store.handle, bound, password, modify, CMD_MOD, CMD_DEL]
          rw [new]
          exact modified b bound password
        · rw [store.handle_refused authorised add, same authorised]
          exact represents
      · rw [if_neg modify]
        have kept : store.handle req = store := by
          unfold Store.handle
          cases store req.key.text with
          | none => exact if_neg add
          | some b => simp [delete, modify]
        rw [kept]
        by_cases get : req.command.1 = CMD_GET
        · obtain ⟨output, call, _⟩ :=
            cmdGet_answer represents (meets.find (Or.inr (Or.inr get)))
          rw [if_pos get, call]
          exact ⟨output, s, rfl, represents⟩
        · rw [if_neg get]
          exact ⟨[], s, rfl, represents⟩

theorem serve_represents (represents : Represents s store) {connection : Connection}
    (meets : connection.Meets store) :
    serve s connection = .error .exit ∨
      ∃ output s', serve s connection = .ok (output, s') ∧
        Represents s' (store.serve connection) := by
  cases connection with
  | failed => exact Or.inr ⟨_, s, rfl, represents⟩
  | dropped => exact Or.inr ⟨_, s, rfl, represents⟩
  | request env req => exact handle_represents represents meets

theorem runFrom_represents (represents : Represents s store) {connections : List Connection}
    (meets : AllMeet store connections) :
    runFrom s connections = .error .exit ∨
      ∃ s', runFrom s connections = .ok s' ∧
        Represents s' (connections.foldl Store.serve store) := by
  induction connections generalizing s store with
  | nil => exact Or.inr ⟨s, rfl, represents⟩
  | cons connection connections ih =>
    obtain ⟨first, rest⟩ := meets
    rcases serve_represents represents first with exits | ⟨output, next, call, represents'⟩
    · left
      rw [runFrom, exits, error_bind]
    · rw [runFrom, call, ok_bind]
      exact ih represents' rest

def Server.Binds (s : Server) (values : CStr → Option CStr) : Prop :=
  ∀ key text, (∃ p, (key, p) ∈ s.tree.root.entries ∧ s.heap[p]? = some (some text)) ↔
    values key = some text

/-- What a CMD_DEL or CMD_MOD does when it takes effect. -/
def effect (values : CStr → Option CStr) (req : RequestMsg) : CStr → Option CStr :=
  if req.command.1 = CMD_DEL then Function.update values req.key.text none
  else Function.update values req.key.text (some req.value.text)

/-- What the clients may rely on in a state of the server: the trees bind the same keys, and a
CMD_DEL or CMD_MOD takes effect exactly when its key is bound and it has the password of the
request that created the binding. -/
structure Authenticated (s : Server) (store : Store) : Prop where
  values : s.Binds store.values
  keys : ∀ key, key ∈ s.tree.root.keys ↔ key ∈ s.authTree.root.keys
  changes : ∀ env req, req.command.1 = CMD_DEL ∨ req.command.1 = CMD_MOD →
    store.Answers req.key.text → (req.command.1 = CMD_MOD → req.value.terminated = true) →
    ∃ output s', handle s env req = .ok (output, s') ∧
      (store.Authorised req → s'.Binds (effect store.values req)) ∧
      (¬ store.Authorised req → s'.Binds store.values)

theorem represents_authenticated (represents : Represents s store) : Authenticated s store where
  values := represents.values.binds_iff
  keys := represents.keys
  changes := by
    intro env req command answers terminated
    unfold handle effect
    rcases command with delete | modify
    · have notAdd : req.command.1 ≠ CMD_ADD := by rw [delete]; decide
      obtain ⟨output, s', call, deleted, same⟩ := cmdDel_effect represents answers
      rw [if_neg notAdd, if_pos delete, call, if_pos delete]
      refine ⟨output, s', rfl, fun authorised => (deleted authorised).binds_iff, fun refused => ?_⟩
      rw [same refused]
      exact represents.values.binds_iff
    · have notAdd : req.command.1 ≠ CMD_ADD := by rw [modify]; decide
      have notDelete : req.command.1 ≠ CMD_DEL := by rw [modify]; decide
      obtain ⟨output, s', call, modified, same⟩ :=
        cmdMod_effect represents answers (fun _ => terminated modify)
      rw [if_neg notAdd, if_neg notDelete, if_pos modify, call, if_neg notDelete]
      refine ⟨output, s', rfl, fun authorised => ?_, fun refused => ?_⟩
      · obtain ⟨b, bound, password⟩ := authorised
        have values := (modified b bound password).values
        rw [Store.values_update] at values
        exact values.binds_iff
      · rw [same refused]
        exact represents.values.binds_iff

/-- The server keeps to the store for as long as the requests keep the trees together. -/
theorem run_authenticated {connections : List Connection} (meets : AllMeet .empty connections) :
    (∀ fault, run connections ≠ .error (.fault fault)) ∧
      ∀ s, run connections = .ok s → Authenticated s (.after connections) := by
  rcases runFrom_represents represents_initial meets with exits | ⟨last, result, represents⟩
  · have ended : run connections = .error .exit := exits
    rw [ended]
    constructor
    · intro fault same
      cases same
    · intro s same
      cases same
  · have ended : run connections = .ok last := result
    rw [ended]
    constructor
    · intro fault same
      cases same
    · intro s same
      obtain rfl := Except.ok.inj same
      exact represents_authenticated represents

def letter (c : UInt8) (n : Nat) : CharArray (n + 1) := ⟨c :: List.replicate n 0, by simp⟩

def sampleRequest (command : CInt) (value : UInt8) : Connection :=
  .request ⟨true, .succeed, true, .succeed, 0, 0⟩
    ⟨command, letter 112 29, letter 97 29, letter value 99⟩

/-- `a` is added and modified. -/
theorem run_authenticated_sample : ∃ s,
    run [sampleRequest ⟨1, by decide⟩ 118, sampleRequest ⟨2, by decide⟩ 119] = .ok s ∧
      ∀ key, key ∈ s.tree.root.keys ↔ key ∈ s.authTree.root.keys := by
  have meets : AllMeet .empty
      [sampleRequest ⟨1, by decide⟩ 118, sampleRequest ⟨2, by decide⟩ 119] := by
    refine ⟨?_, ?_, trivial⟩
    · constructor
      case value => exact fun _ _ => rfl
      case password => exact fun _ _ _ => rfl
      case newValue => exact fun _ _ _ => ⟨rfl, rfl⟩
      case newPassword => exact fun _ _ _ _ => rfl
      case delete => exact fun h => absurd h (by decide)
      case modify => exact fun h => absurd h (by decide)
      case find => exact fun h => absurd h (by decide)
    · constructor
      case value => exact fun h => absurd h (by decide)
      case password => exact fun h => absurd h (by decide)
      case newValue => exact fun h => absurd h (by decide)
      case newPassword => exact fun h => absurd h (by decide)
      case delete => exact fun h => absurd h (by decide)
      case modify => exact fun _ _ => rfl
      case find => exact fun _ => Or.inl ⟨_, rfl⟩
  obtain ⟨_, states⟩ := run_authenticated meets
  have served : ∃ s, run [sampleRequest ⟨1, by decide⟩ 118, sampleRequest ⟨2, by decide⟩ 119] =
      .ok s := ⟨_, rfl⟩
  obtain ⟨s, result⟩ := served
  exact ⟨s, result, (states s result).keys⟩

/-- `a` is added and deleted: its password stays. -/
theorem deleted_key_keeps_password :
    ¬ ∀ connections s, run connections = .ok s →
      ∀ key, key ∈ s.tree.root.keys ↔ key ∈ s.authTree.root.keys := by
  intro same
  have keys := same [sampleRequest ⟨1, by decide⟩ 118, sampleRequest ⟨0, by decide⟩ 0] _ rfl
    (.ofBytes [97])
  exact absurd keys (by decide)

end Tlpi.NameValue
