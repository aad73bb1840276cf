import TlpiExercises.C.Stdio
import TlpiExercises.NameValue.Bounds

/-!
# 59_Sockets_Internet_Domain/nv_cl.c

What the client sends, up to its `write`. A request lies in memory that holds anything before its fields
are written. What `--help` and the usage message print is left out, as is the socket.
-/

namespace Tlpi.NameValue

open Tlpi.BinaryTree LinkTree

def typed (junk : CharArray PAS_LEN) (stdin : List UInt8) : CharArray PAS_LEN :=
  match fgets (PAS_LEN - 1) stdin with
  | none => junk
  | some line => junk.overwrite line.1 line.2

theorem del_fits : INT_MIN ≤ CMD_DEL ∧ CMD_DEL ≤ INT_MAX := by decide

theorem add_fits : INT_MIN ≤ CMD_ADD ∧ CMD_ADD ≤ INT_MAX := by decide

theorem mod_fits : INT_MIN ≤ CMD_MOD ∧ CMD_MOD ≤ INT_MAX := by decide

theorem get_fits : INT_MIN ≤ CMD_GET ∧ CMD_GET ≤ INT_MAX := by decide

def commandOf (letter : Option UInt8) : Option CInt :=
  if letter = some 100 then some ⟨CMD_DEL, del_fits⟩
  else if letter = some 97 then some ⟨CMD_ADD, add_fits⟩
  else if letter = some 109 then some ⟨CMD_MOD, mod_fits⟩
  else if letter = some 103 then some ⟨CMD_GET, get_fits⟩
  else none

inductive Outcome where
  | help
  | usageErr
  | cmdLineErr (text : String)
  | sends (req : RequestMsg)

def client (argv : List CStr) (stdin : List UInt8) (junk : RequestMsg) : Except Fault Outcome :=
  if argv[1]?.map CStr.bytes = some HELP then .ok .help
  else
    match argv with
    | _ :: letter :: key :: rest => do
      let password ← (typed junk.password stdin).withoutNewline
      match commandOf letter.bytes.head? with
      | none => return .usageErr
      | some command =>
        if fitsKey : key.length < MAX_KEY then
          let req := { junk with command, password, key := junk.key.overwrite key.bytes fitsKey }
          match rest with
          | [value] =>
            if fitsValue : value.length < MAX_VAL then
              return .sends { req with value := junk.value.overwrite value.bytes fitsValue }
            else return .cmdLineErr "Value len must be less then 100"
          | _ => return .sends req
        else return .cmdLineErr "Key len must be less then 30"
    | _ => .ok .usageErr

/-- What a request of the client is made of. The value is there where it has been given. -/
theorem client_sends {argv : List CStr} {stdin : List UInt8} {junk req : RequestMsg}
    (sent : client argv stdin junk = .ok (.sends req)) :
    req.password.terminated = true ∧ req.key.terminated = true ∧ argv[2]? = some req.key.text ∧
    (argv.length = 4 → req.value.terminated = true ∧ argv[3]? = some req.value.text) := by
  unfold client at sent
  split at sent
  · cases sent
  · split at sent
    · rename_i letter key rest _
      obtain ⟨password, read, sent⟩ := bind_ok sent
      have terminated := CharArray.withoutNewline_terminated read
      split at sent
      · cases sent
      · split at sent
        · rename_i fitsKey
          obtain ⟨keyTerminated, keyText⟩ := CharArray.overwrite_text junk.key key fitsKey
          split at sent
          · rename_i value _ _
            split at sent
            · rename_i fitsValue
              cases sent
              obtain ⟨valueTerminated, valueText⟩ := CharArray.overwrite_text junk.value value fitsValue
              exact ⟨terminated, keyTerminated, congrArg some keyText.symm,
                fun _ => ⟨valueTerminated, congrArg some valueText.symm⟩⟩
            · cases sent
          · rename_i _ other
            cases sent
            refine ⟨terminated, keyTerminated, congrArg some keyText.symm, fun four => ?_⟩
            obtain ⟨value, one⟩ := List.length_eq_one_iff.mp
              (show rest.length = 1 by simp only [List.length_cons] at four; omega)
            exact absurd one (other value)
        · cases sent
    · cases sent

/-! ### A server and its clients -/

/-- One run of the client, and what `malloc` does when its request is served. -/
structure Invocation where
  argv : List CStr
  stdin : List UInt8
  junk : RequestMsg
  env : Environment

/-- The connection that the server sees, if any. -/
def Invocation.connection (i : Invocation) : Except Fault (Option Connection) := do
  match ← client i.argv i.stdin i.junk with
  | .sends req => return some (.request i.env req)
  | .help | .usageErr | .cmdLineErr _ => return none

/-- The clients, and the server that hears from them alone. -/
def serveClients (invocations : List Invocation) : Except End Server := do
  let connections ← orFault (invocations.mapM Invocation.connection)
  run (connections.filterMap id)

/-- It asks for the password. -/
def Invocation.asks (i : Invocation) : Prop :=
  i.argv[1]?.map CStr.bytes ≠ some HELP ∧ 3 ≤ i.argv.length

/-- The array of the password holds a string that is not empty, as it does after a line that does not start
with a NUL. At the end of the input it is what was there before. -/
def Invocation.hasPassword (i : Invocation) : Prop :=
  (typed i.junk.password i.stdin).terminated = true ∧ (typed i.junk.password i.stdin).text.bytes ≠ []

/-- The letters that need a value. -/
def Invocation.needsValue (i : Invocation) : Prop :=
  ∃ letter, i.argv[1]? = some letter ∧ (letter.bytes.head? = some 97 ∨ letter.bytes.head? = some 109)

theorem commandOf_letter {letter : Option UInt8} {command : CInt} (h : commandOf letter = some command)
    (changes : command.1 = CMD_ADD ∨ command.1 = CMD_MOD) : letter = some 97 ∨ letter = some 109 := by
  unfold commandOf at h
  split at h
  · obtain rfl := Option.some.inj h
    exact absurd changes (by decide)
  · split at h
    · exact Or.inl ‹_›
    · split at h
      · exact Or.inr ‹_›
      · split at h
        · obtain rfl := Option.some.inj h
          exact absurd changes (by decide)
        · cases h

theorem client_command {argv : List CStr} {stdin : List UInt8} {junk req : RequestMsg}
    (sent : client argv stdin junk = .ok (.sends req)) :
    ∃ letter, argv[1]? = some letter ∧ commandOf letter.bytes.head? = some req.command := by
  unfold client at sent
  split at sent
  · cases sent
  · split at sent
    · obtain ⟨password, _, sent⟩ := bind_ok sent
      split at sent
      · cases sent
      · rename_i command known
        refine ⟨_, rfl, known.trans ?_⟩
        split at sent
        · split at sent
          · split at sent
            · cases sent
              rfl
            · cases sent
          · cases sent
            rfl
        · cases sent
    · cases sent

theorem sent_inBounds {i : Invocation} {connection : Connection} (sent : i.connection = .ok (some connection))
    (given : i.needsValue → i.argv.length = 4) (s : Server) : connection.InBounds s := by
  unfold Invocation.connection at sent
  obtain ⟨outcome, call, sent⟩ := bind_ok sent
  cases outcome with
  | help | usageErr | cmdLineErr => cases sent
  | sends req =>
    cases sent
    obtain ⟨password, key, _, value⟩ := client_sends call
    obtain ⟨letter, second, command⟩ := client_command call
    have whole (changes : req.command.1 = CMD_ADD ∨ req.command.1 = CMD_MOD) :
        req.value.terminated = true :=
      (value (given ⟨letter, second, commandOf_letter command changes⟩)).1
    exact ⟨fun add _ => whole (Or.inl add), fun _ _ _ => key, fun _ _ _ _ => password,
      fun _ _ _ _ _ => key, fun modify _ _ => whole (Or.inr modify)⟩

/-- A line that has been typed. -/
theorem typed_password (i : Invocation) {c : UInt8} {rest : List UInt8} (line : i.stdin = c :: rest)
    (nonzero : c ≠ 0) : i.hasPassword := by
  obtain ⟨stored, found, text⟩ : ∃ stored : { line : List UInt8 // line.length < PAS_LEN - 1 + 1 },
      fgets (PAS_LEN - 1) i.stdin = some stored ∧ stored.1.takeWhile (· ≠ 0) ≠ [] := by
    have first : (c :: rest).take (PAS_LEN - 1) = c :: rest.take (PAS_LEN - 2) := rfl
    have keeps (u : List UInt8) : (c :: u).takeWhile (· ≠ 0) ≠ [] := by
      rw [List.takeWhile_cons_of_pos (by simpa using nonzero)]
      exact List.cons_ne_nil _ _
    rw [fgets, line, if_neg (List.cons_ne_nil c rest)]
    dsimp only
    split
    · refine ⟨_, rfl, ?_⟩
      dsimp only
      rw [first, List.take_succ_cons]
      exact keeps _
    · refine ⟨_, rfl, ?_⟩
      dsimp only
      rw [first]
      exact keeps _
  have stores : typed i.junk.password i.stdin = i.junk.password.overwrite stored.1 stored.2 := by
    rw [typed, found]
  obtain ⟨terminated, bytes⟩ := CharArray.overwrite_line i.junk.password stored.1 stored.2
  rw [Invocation.hasPassword, stores]
  refine ⟨terminated, ?_⟩
  rw [bytes]
  exact text

theorem client_stays_inside (i : Invocation) (password : i.asks → i.hasPassword) :
    ∃ connection, i.connection = .ok connection := by
  obtain ⟨outcome, call⟩ : ∃ outcome, client i.argv i.stdin i.junk = .ok outcome := by
    unfold client
    by_cases help : i.argv[1]?.map CStr.bytes = some HELP
    · exact ⟨_, if_pos help⟩
    · rw [if_neg help]
      split
      next letter key rest argv =>
        have three : 3 ≤ i.argv.length := by
          rw [argv]
          exact Nat.le_add_left 3 _
        obtain ⟨terminated, some_password⟩ := password ⟨help, three⟩
        obtain ⟨_, read, _⟩ := CharArray.withoutNewline_ok terminated some_password
        rw [read, ok_bind]
        split
        · exact ⟨_, rfl⟩
        · split
          · split
            · split
              · exact ⟨_, rfl⟩
              · exact ⟨_, rfl⟩
            · exact ⟨_, rfl⟩
          · exact ⟨_, rfl⟩
      next => exact ⟨_, rfl⟩
  unfold Invocation.connection
  rw [call, ok_bind]
  cases outcome with
  | help | usageErr | cmdLineErr | sends => exact ⟨_, rfl⟩

theorem connections_inBounds {invocations : List Invocation}
    (password : ∀ i ∈ invocations, i.asks → i.hasPassword)
    (given : ∀ i ∈ invocations, i.needsValue → i.argv.length = 4) :
    ∃ connections, invocations.mapM Invocation.connection = .ok connections ∧
      ∀ connection, some connection ∈ connections → ∀ s, connection.InBounds s := by
  induction invocations with
  | nil => exact ⟨[], List.mapM_nil, fun _ member => absurd member List.not_mem_nil⟩
  | cons i invocations ih =>
    rw [List.forall_mem_cons] at password given
    obtain ⟨first, call⟩ := client_stays_inside i password.1
    obtain ⟨connections, calls, inside⟩ := ih password.2 given.2
    refine ⟨first :: connections, ?_, fun connection member s => ?_⟩
    · rw [List.mapM_cons, call, ok_bind, calls, ok_bind]
      rfl
    · rcases List.mem_cons.mp member with here | later
      · rw [← here] at call
        exact sent_inBounds call given.1 s
      · exact inside connection later s

/-- Neither a client nor the server that hears from the clients alone leaves a buffer, where each client gets
a password, and a value for each command that takes one. -/
theorem clients_stay_inside (invocations : List Invocation)
    (password : ∀ i ∈ invocations, i.asks → i.hasPassword)
    (given : ∀ i ∈ invocations, i.needsValue → i.argv.length = 4) :
    serveClients invocations ≠ .error (.fault .outOfBounds) := by
  obtain ⟨connections, calls, inside⟩ := connections_inBounds password given
  have all : ∀ connection ∈ connections.filterMap id, ∀ s, connection.InBounds s := by
    intro connection member s
    obtain ⟨_, member, rfl⟩ := List.mem_filterMap.mp member
    exact inside connection member s
  have served : serveClients invocations = run (connections.filterMap id) := by
    unfold serveClients
    rw [calls, orFault, Except.mapError, ok_bind]
  rw [served, run, runFrom_eq]
  refine (Runs.never_iff (fun s connection bounded => (turn_cases bounded connection).1)
    (fun s connection s' bounded call => (turn_cases bounded connection).2 s' call) bounded_initial).mpr ?_
  exact Runs.each_imp (fun s connection inside => inside s) (Runs.each_of_all all)

/-- `nv_cl add k v` with a password, in memory without a NUL. -/
def addInvocation : Invocation where
  argv := [⟨[110, 118], by decide⟩, ⟨[97, 100, 100], by decide⟩, ⟨[107], by decide⟩, ⟨[118], by decide⟩]
  stdin := [112, 10]
  junk := ⟨⟨CMD_DEL, del_fits⟩, ⟨List.replicate PAS_LEN 255, rfl⟩, ⟨List.replicate MAX_KEY 255, rfl⟩,
    ⟨List.replicate MAX_VAL 255, rfl⟩⟩
  env := ⟨true, .succeed, true, .succeed, 0, 0⟩

/-- `nv_cl get k` with the same password. -/
def getInvocation : Invocation :=
  { addInvocation with argv := [⟨[110, 118], by decide⟩, ⟨[103, 101, 116], by decide⟩, ⟨[107], by decide⟩] }

theorem clients_stay_inside_sample :
    serveClients [addInvocation, getInvocation] ≠ .error (.fault .outOfBounds) := by
  refine clients_stay_inside _ (fun i member _ => ?_) fun i member needs => ?_
  · rcases List.mem_pair.mp member with rfl | rfl
    · exact typed_password _ rfl (by decide)
    · exact typed_password _ rfl (by decide)
  · rcases List.mem_pair.mp member with rfl | rfl
    · rfl
    · obtain ⟨letter, second, either⟩ := needs
      cases second
      exact absurd either (by decide)

end Tlpi.NameValue
