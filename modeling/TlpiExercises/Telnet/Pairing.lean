import TlpiExercises.BinaryTree.Operations
import TlpiExercises.Telnet.Server

/-!
# Who is paired with whom

The tree sees an id up to its first NUL. While a session waits for its second connection the tree
has one cell, and any other id ends the server in `bt_lookup`.
-/

namespace Tlpi.Telnet

open Tlpi.BinaryTree

variable {Client : Type}

def conns : List (Arrival Client) → List (Conn Client)
  | [] => []
  | .failed :: rest => conns rest
  | .short conn :: rest => conn :: conns rest
  | .id conn _ :: rest => conn :: conns rest

/-- A handler has the two connections of one client. -/
def SameClient (handler : Option (Conn Client) × Option (Conn Client)) : Prop :=
  ∃ a b : Conn Client, handler = (some a, some b) ∧ a.client = b.client ∧ a ≠ b

/-- Two ids that contain a NUL differ before it. -/
def Distinguished (sessionId : Client → CharArray ID_LEN) : Prop :=
  ∀ a b, (sessionId a).terminated = true → (sessionId b).terminated = true →
    (sessionId a).text = (sessionId b).text → a = b

theorem key_terminated {id : CharArray ID_LEN} (h : id.terminated = true) (behind : List UInt8) :
    key id behind = id.text := by
  apply CStr.ext
  show (id.1 ++ behind).takeWhile (· ≠ 0) = id.1.takeWhile (· ≠ 0)
  have short := CharArray.text_length h
  rw [List.takeWhile_append, if_neg]
  intro whole
  rw [id.2] at whole
  exact absurd whole (Nat.ne_of_lt short)

theorem key_unterminated {id : CharArray ID_LEN} (h : id.terminated = false) (behind : List UInt8) :
    (key id behind).bytes = id.1 ++ behind.takeWhile (· ≠ 0) := by
  apply List.takeWhile_append_of_pos
  intro c member
  apply decide_eq_true
  rintro rfl
  have terminated : id.terminated = true := List.contains_iff_mem.mpr member
  rw [h] at terminated
  cases terminated

theorem key_client {sessionId : Client → CharArray ID_LEN} (distinct : Function.Injective sessionId)
    (distinguished : Distinguished sessionId) {a b : Client} {behindA behindB : List UInt8}
    (same : key (sessionId a) behindA = key (sessionId b) behindB) : a = b := by
  cases termA : (sessionId a).terminated with
  | true =>
    rw [key_terminated termA] at same
    cases termB : (sessionId b).terminated with
    | true =>
      rw [key_terminated termB] at same
      exact distinguished a b termA termB same
    | false =>
      have short := CharArray.text_length termA
      have bytes := key_unterminated termB behindB
      rw [← same] at bytes
      have length := congrArg List.length bytes
      rw [List.length_append, (sessionId b).2] at length
      unfold CStr.length at short
      omega
  | false =>
    have bytes := key_unterminated termA behindA
    cases termB : (sessionId b).terminated with
    | true =>
      have short := CharArray.text_length termB
      rw [same, key_terminated termB] at bytes
      have length := congrArg List.length bytes
      rw [List.length_append, (sessionId a).2] at length
      unfold CStr.length at short
      omega
    | false =>
      have ids := (congrArg CStr.bytes same).symm.trans bytes
      rw [key_unterminated termB] at ids
      have equal : (sessionId b).1.length = (sessionId a).1.length := by
        rw [(sessionId a).2, (sessionId b).2]
      exact distinct (Subtype.ext (List.append_inj_left ids equal).symm)

theorem accept_spec (conn : Conn Client) (fds : List (Option (Conn Client))) :
    (accept conn fds).2[(accept conn fds).1]? = some (some conn) ∧
      ∀ (fd : Nat) (other : Conn Client), fds[fd]? = some (some other) →
        (accept conn fds).2[fd]? = some (some other) := by
  induction fds with
  | nil => simp [accept]
  | cons first rest ih =>
    cases first with
    | none =>
      refine ⟨rfl, fun fd other used => ?_⟩
      cases fd with
      | zero => simp at used
      | succ fd => exact used
    | some taken =>
      refine ⟨ih.1, fun fd other used => ?_⟩
      cases fd with
      | zero => exact used
      | succ fd => exact ih.2 fd other used

/-! ### The tree with one cell -/

theorem btLookup_null (k : CStr) (value : Pointer) :
    btLookup ⟨.null⟩ k value = .ok (.failure none, value) := rfl

theorem btFindNode_cell {k : CStr} {slotKey : Option CStr} {p : Pointer} :
    btFindNode (.node .null .null slotKey p) k =
      match slotKey with
      | none => .error .nullDereference
      | some k' => .ok (if k = k' then some [] else none) := by
  cases slotKey with
  | none => rfl
  | some k' =>
    by_cases same : k = k'
    · rw [btFindNode_here (strcmp_eq_zero.mpr same)]
      simp [same]
    · have differ : strcmp k k' ≠ 0 := fun zero => same (strcmp_eq_zero.mp zero)
      unfold btFindNode
      simp only [fromPointer_some, ok_bind, LinkTree.isNull_null, if_true, pure_eq_ok, if_neg same]
      split_ifs <;> first | rfl | omega

theorem btLookup_cell {k : CStr} {slotKey : Option CStr} {p value : Pointer} {result : Status × Pointer}
    (h : btLookup ⟨.node .null .null slotKey p⟩ k value = .ok result) :
    slotKey = some k ∧ result = (.success, p) := by
  unfold btLookup at h
  simp only [LinkTree.isNull_node, Bool.false_eq_true, if_false] at h
  rw [btFindNode_cell] at h
  cases slotKey with
  | none => cases h
  | some k' =>
    by_cases same : k = k'
    · simp only [if_pos same] at h
      cases h
      exact ⟨by rw [same], rfl⟩
    · simp only [if_neg same] at h
      cases h

theorem btDelete_cell (k : CStr) (p : Pointer) :
    btDelete ⟨.node .null .null (some k) p⟩ k = .ok (.success, ⟨.null⟩) := by
  unfold btDelete
  simp only [LinkTree.isNull_node, Bool.false_eq_true, if_false]
  rw [btFindNode_cell]
  simp only [if_true]
  rfl

theorem btAdd_null {m : Mallocs} {k : CStr} {p : Pointer} {status : Status} {tree : BTree Pointer}
    (h : btAdd m ⟨.null⟩ k p = .ok (status, tree)) :
    tree.root = .node .null .null none p ∨ tree.root = .node .null .null (some k) p := by
  obtain ⟨⟨status', root⟩, created, result⟩ := bind_ok h
  cases result
  rcases btCreateNode_ok created with ⟨_, _, cell⟩ | ⟨_, _, cell⟩
  · exact Or.inr cell
  · exact Or.inl cell

/-- The session in the tree's only cell: its first connection is open, or both have been used up by
a `fork` that failed. -/
def Waiting (sessionId : Client → CharArray ID_LEN) (seen : List (Conn Client)) (s : Server Client)
    (k : CStr) (p : Pointer) : Prop :=
  ∃ (conn : Conn Client) (behind : List UInt8) (session : Session), conn ∈ seen ∧
    k = key (sessionId conn.client) behind ∧ s.heap[p]? = some session ∧
    (s.fds[session.clfd]? = some (some conn) ∨
      ∃ second ∈ seen, second.client = conn.client ∧ second ≠ conn)

/-- The tree is empty, or has one cell. The cell has no key when that could not be allocated. -/
def Inv (sessionId : Client → CharArray ID_LEN) (seen : List (Conn Client)) (s : Server Client) : Prop :=
  s.sessions.root = .null ∨ (∃ p, s.sessions.root = .node .null .null none p) ∨
    ∃ k p, s.sessions.root = .node .null .null (some k) p ∧ Waiting sessionId seen s k p

theorem inv_accept {sessionId : Client → CharArray ID_LEN} {seen : List (Conn Client)}
    {s : Server Client} (inv : Inv sessionId seen s) (conn : Conn Client) (session : Pointer) :
    Inv sessionId (seen ++ [conn]) { s with fds := (accept conn s.fds).2, session } := by
  rcases inv with empty | keyless | ⟨k, p, root, first, behind, session, member, same, stored, waits⟩
  · exact Or.inl empty
  · exact Or.inr (Or.inl keyless)
  · refine Or.inr (Or.inr ⟨k, p, root, first, behind, session, List.mem_append_left _ member, same,
      stored, ?_⟩)
    rcases waits with opened | ⟨second, member', client, other⟩
    · exact Or.inl ((accept_spec conn s.fds).2 _ _ opened)
    · exact Or.inr ⟨second, List.mem_append_left _ member', client, other⟩

theorem newSession_inv {sessionId : Client → CharArray ID_LEN} {seen : List (Conn Client)}
    {s next : Server Client} {conn : Conn Client} {clfd : Nat} {env : Environment}
    (empty : s.sessions.root = .null) (opened : s.fds[clfd]? = some (some conn))
    (h : newSession s (key (sessionId conn.client) env.behind) clfd env = .ok next) :
    Inv sessionId (seen ++ [conn]) next := by
  unfold newSession at h
  split at h
  · cases h
  · obtain ⟨⟨status, sessions⟩, added, result⟩ := bind_ok h
    cases result
    have tree : s.sessions = ⟨.null⟩ := by rw [← empty]
    rw [tree] at added
    cases call : btAdd env.node ⟨.null⟩ (key (sessionId conn.client) env.behind) s.heap.length with
    | error fault =>
      rw [call] at added
      cases added
    | ok result =>
      rw [call] at added
      cases added
      rcases btAdd_null call with keyless | cell
      · exact Or.inr (Or.inl ⟨_, keyless⟩)
      · exact Or.inr (Or.inr ⟨_, _, cell, conn, env.behind, ⟨clfd, none⟩,
          List.mem_append_right _ List.mem_cons_self, rfl, List.getElem?_concat_length, Or.inl opened⟩)

theorem two_connections {a b c : Conn Client} (ab : a.client = b.client) (bc : b.client = c.client)
    (ne : a ≠ b) : c = a ∨ c = b := by
  obtain ⟨client, x⟩ := a
  obtain ⟨_, y⟩ := b
  obtain ⟨_, z⟩ := c
  cases ab
  cases bc
  cases x <;> cases y <;> cases z <;> simp_all

theorem without_handler {next : Except End (Server Client)} {P : Server Client → Prop}
    (keeps : ∀ t, next = .ok t → P t) :
    (∀ h, (Turn.mk none next).handler = some h → SameClient h) ∧
      ∀ t, (Turn.mk none next).next = .ok t → P t := by
  refine ⟨fun h forked => ?_, keeps⟩
  cases forked

theorem forkHandler_inv {sessionId : Client → CharArray ID_LEN} {seen : List (Conn Client)}
    {s : Server Client} {conn first : Conn Client} {k : CStr} {session : Session} {clfd : Nat}
    {env : Environment} (root : s.sessions.root = .node .null .null (some k) s.session)
    (member : first ∈ seen) (client : first.client = conn.client) (ne : first ≠ conn)
    {behind : List UInt8} (same : k = key (sessionId first.client) behind)
    (stored : s.heap[s.session]? = some session) (waits : s.fds[session.clfd]? = some (some first))
    (opened : s.fds[clfd]? = some (some conn)) :
    (∀ h, (forkHandler s k clfd env).handler = some h → SameClient h) ∧
      ∀ next, (forkHandler s k clfd env).next = .ok next → Inv sessionId (seen ++ [conn]) next := by
  have tree : s.sessions = ⟨.node .null .null (some k) s.session⟩ := by rw [← root]
  unfold forkHandler
  rw [stored]
  dsimp only
  split
  · apply without_handler
    intro next result
    cases result
    obtain ⟨inside, _⟩ := List.getElem?_eq_some_iff.mp stored
    refine Or.inr (Or.inr ⟨k, s.session, root, first, behind, { session with clfdP := some clfd },
      List.mem_append_left _ member, same, List.getElem?_set_self inside, Or.inr ?_⟩)
    exact ⟨conn, List.mem_append_right _ List.mem_cons_self, client.symm, ne.symm⟩
  · refine ⟨fun h forked => ?_, fun next result => ?_⟩
    · cases forked
      rw [waits, opened]
      exact ⟨first, conn, rfl, client, ne⟩
    · rw [tree, btDelete_cell] at result
      cases result
      exact Or.inl rfl

theorem serve_inv {sessionId : Client → CharArray ID_LEN}
    (distinct : Function.Injective sessionId) (distinguished : Distinguished sessionId)
    {seen : List (Conn Client)} {s : Server Client} (inv : Inv sessionId seen s)
    (arrival : Arrival Client) (fresh : ∀ conn ∈ conns [arrival], conn ∉ seen) :
    (∀ h, (serve sessionId s arrival).handler = some h → SameClient h) ∧
      ∀ next, (serve sessionId s arrival).next = .ok next →
        Inv sessionId (seen ++ conns [arrival]) next := by
  cases arrival with
  | failed =>
    apply without_handler
    intro next result
    cases result
    rw [conns, conns, List.append_nil]
    exact inv
  | short conn =>
    apply without_handler
    intro next result
    cases result
    exact inv_accept inv conn s.session
  | id conn env =>
    have new : conn ∉ seen := fresh conn List.mem_cons_self
    obtain ⟨opened, kept⟩ := accept_spec conn s.fds
    unfold serve
    dsimp only
    rcases inv with empty | ⟨p, keyless⟩ | ⟨k, p, root, first, behind, session, member, same, stored, waits⟩
    · have tree : s.sessions = ⟨.null⟩ := by rw [← empty]
      rw [tree, btLookup_null]
      exact without_handler fun next result =>
        newSession_inv (s := { s with sessions := ⟨.null⟩, fds := (accept conn s.fds).2 }) rfl opened result
    · have tree : s.sessions = ⟨.node .null .null none p⟩ := by rw [← keyless]
      cases lookup : btLookup s.sessions (key (sessionId conn.client) env.behind) s.session with
      | error fault =>
        apply without_handler
        intro next result
        cases result
      | ok result =>
        rw [tree] at lookup
        cases (btLookup_cell lookup).1
    · have tree : s.sessions = ⟨.node .null .null (some k) p⟩ := by rw [← root]
      cases lookup : btLookup s.sessions (key (sessionId conn.client) env.behind) s.session with
      | error fault =>
        apply without_handler
        intro next result
        cases result
      | ok result =>
        rw [tree] at lookup
        obtain ⟨found, rfl⟩ := btLookup_cell lookup
        have matched := Option.some.inj found
        rw [matched] at same root
        have client : first.client = conn.client := (key_client distinct distinguished same).symm
        have ne : first ≠ conn := fun equal => new (equal ▸ member)
        rcases waits with waits | ⟨second, member', client', other⟩
        · exact forkHandler_inv root member client ne same stored (kept _ _ waits) opened
        · rcases two_connections client'.symm (client'.trans client) other.symm with rfl | rfl
          · exact absurd rfl ne
          · exact absurd member' new

theorem handlers_sameClient {sessionId : Client → CharArray ID_LEN}
    (distinct : Function.Injective sessionId) (distinguished : Distinguished sessionId)
    {seen : List (Conn Client)} {s : Server Client} {arrivals : List (Arrival Client)}
    (inv : Inv sessionId seen s) (nodup : (seen ++ conns arrivals).Nodup) :
    ∀ h ∈ handlers sessionId s arrivals, SameClient h := by
  induction arrivals generalizing seen s with
  | nil => simp [handlers]
  | cons arrival rest ih =>
    have split : conns (arrival :: rest) = conns [arrival] ++ conns rest := by
      cases arrival <;> rfl
    rw [split, ← List.append_assoc] at nodup
    have fresh : ∀ conn ∈ conns [arrival], conn ∉ seen := by
      intro conn here before
      have apart := (List.nodup_append.mp (List.nodup_append.mp nodup).1).2.2
      exact apart conn before conn here rfl
    obtain ⟨served, kept⟩ := serve_inv distinct distinguished inv arrival fresh
    intro h member
    rw [handlers, List.mem_append] at member
    rcases member with now | later
    · exact served h (Option.mem_toList.mp now)
    · cases next : (serve sessionId s arrival).next with
      | error _ =>
        rw [next] at later
        cases later
      | ok s' =>
        rw [next] at later
        exact ih (kept s' next) nodup h later

/-- Everything succeeds, and NULs stand behind the id. -/
def calm : Environment where
  behind := []
  malloc := true
  node := .succeed
  fork := true

theorem newSession_calm {s : Server Client} {k : CStr} (empty : s.sessions = ⟨.null⟩)
    (short : k.length ≤ BT_KEY_MAX) (clfd : Nat) :
    newSession s k clfd calm = .ok { s with
      sessions := ⟨.node .null .null (some k) s.heap.length⟩
      heap := s.heap ++ [⟨clfd, none⟩]
      session := s.heap.length } := by
  have copied : strcpy (BT_KEY_MAX + 1) k = .ok k := strcpy_fits (Nat.lt_succ_of_le short)
  unfold newSession
  rw [empty]
  simp [calm, btAdd, btCreateNode, Mallocs.succeed, copied, orFault, Except.mapError]

theorem btLookup_found (k : CStr) (p value : Pointer) :
    btLookup ⟨.node .null .null (some k) p⟩ k value = .ok (.success, p) := by
  unfold btLookup
  simp only [LinkTree.isNull_node, Bool.false_eq_true, if_false]
  rw [btFindNode_cell]
  simp only [if_true]
  rfl

/-- The first connections of two clients whose ids are the same text. -/
theorem handlers_confused {sessionId : Client → CharArray ID_LEN} {a b : Client}
    (termA : (sessionId a).terminated = true) (termB : (sessionId b).terminated = true)
    (same : (sessionId a).text = (sessionId b).text) (session : Pointer) :
    handlers sessionId (.initial session) [.id ⟨a, false⟩ calm, .id ⟨b, false⟩ calm] =
      [(some ⟨a, false⟩, some ⟨b, false⟩)] := by
  have short : (sessionId a).text.length ≤ BT_KEY_MAX :=
    ((CharArray.text_length termA).trans (by decide : ID_LEN < BT_KEY_MAX)).le
  have keyA : key (sessionId a) calm.behind = (sessionId a).text := key_terminated termA _
  have keyB : key (sessionId b) calm.behind = (sessionId a).text := (key_terminated termB _).trans same.symm
  have first : serve sessionId (.initial session) (.id ⟨a, false⟩ calm) =
      ⟨none, .ok ⟨⟨.node .null .null (some (sessionId a).text) 0⟩, [⟨0, none⟩], 0,
        [some ⟨a, false⟩]⟩⟩ := by
    unfold serve
    dsimp only
    rw [keyA]
    show Turn.mk none (newSession _ _ _ _) = _
    rw [newSession_calm rfl short]
    rfl
  have second : serve sessionId ⟨⟨.node .null .null (some (sessionId a).text) 0⟩, [⟨0, none⟩], 0,
      [some ⟨a, false⟩]⟩ (.id ⟨b, false⟩ calm) =
      ⟨some (some ⟨a, false⟩, some ⟨b, false⟩),
        .ok ⟨⟨.null⟩, [⟨0, some 1⟩], 0, [none, none]⟩⟩ := by
    unfold serve
    dsimp only
    rw [keyB, btLookup_found]
    dsimp only
    rw [if_neg (by decide)]
    unfold forkHandler
    simp only [List.getElem?_cons_zero, btDelete_cell]
    rfl
  simp [handlers, first, second]

/-- In every interleaving each handler has both connections of one client exactly when no two ids
with a NUL agree before it. -/
theorem handlers_sameClient_iff {sessionId : Client → CharArray ID_LEN}
    (distinct : Function.Injective sessionId) :
    (∀ (session : Pointer) (arrivals : List (Arrival Client)), (conns arrivals).Nodup →
      ∀ h ∈ handlers sessionId (.initial session) arrivals, SameClient h) ↔
      Distinguished sessionId := by
  constructor
  · intro all a b termA termB same
    by_contra differ
    have nodup : (conns [.id ⟨a, false⟩ calm, .id ⟨b, false⟩ calm]).Nodup := by
      simp [conns, differ]
    have paired := all 0 _ nodup (some ⟨a, false⟩, some ⟨b, false⟩)
      (by rw [handlers_confused termA termB same]; exact List.mem_cons_self)
    obtain ⟨_, _, pair, client, _⟩ := paired
    cases pair
    exact differ client
  · intro distinguished session arrivals nodup
    have start : Inv sessionId [] (.initial session) := Or.inl rfl
    exact handlers_sameClient distinct distinguished start nodup

/-- Ids that start with different bytes. -/
def sampleIds (client : Bool) : CharArray ID_LEN :=
  ⟨(if client then 1 else 2) :: List.replicate 15 0, rfl⟩

theorem sampleIds_distinguished : Distinguished sampleIds := by
  unfold Distinguished
  decide

theorem handlers_sameClient_iff_sample : Distinguished sampleIds ∧
    ∀ (session : Pointer) (arrivals : List (Arrival Bool)), (conns arrivals).Nodup →
      ∀ h ∈ handlers sampleIds (.initial session) arrivals, SameClient h := by
  have distinct : Function.Injective sampleIds := by decide
  exact ⟨sampleIds_distinguished, (handlers_sameClient_iff distinct).mpr sampleIds_distinguished⟩

/-- Ids that start with a NUL. -/
def nulIds (client : Bool) : CharArray ID_LEN :=
  ⟨0 :: (if client then 1 else 2) :: List.replicate 14 0, rfl⟩

theorem ids_confused :
    ¬ ∀ sessionId : Bool → CharArray ID_LEN, Function.Injective sessionId →
      ∀ (session : Pointer) (arrivals : List (Arrival Bool)), (conns arrivals).Nodup →
        ∀ h ∈ handlers sessionId (.initial session) arrivals, SameClient h := by
  intro all
  have same : (nulIds true).text = (nulIds false).text := rfl
  have confused : handlers nulIds (.initial 0) [.id ⟨true, false⟩ calm, .id ⟨false, false⟩ calm] =
      [(some ⟨true, false⟩, some ⟨false, false⟩)] := handlers_confused rfl rfl same 0
  have nodup : (conns [.id (⟨true, false⟩ : Conn Bool) calm, .id ⟨false, false⟩ calm]).Nodup := by
    simp [conns]
  have paired := all nulIds (by decide) 0 _ nodup (some ⟨true, false⟩, some ⟨false, false⟩)
    (by rw [confused]; exact List.mem_cons_self)
  obtain ⟨_, _, pair, client, _⟩ := paired
  cases pair
  cases client

end Tlpi.Telnet
