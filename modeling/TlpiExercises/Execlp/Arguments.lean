import TlpiExercises.DynamicArray.Representation
import TlpiExercises.Execlp.Search

/-!
# 27_Program_Execution/imp_execlp.c: the argument vector

The arguments are collected in a growing array, whose storage every reallocation may move. The pointer
to its first element is taken when the first element is pushed.
-/

namespace Tlpi.Execlp

open DynamicArray
open FileSystem (slash)

def PATH_MAX : Nat := 4096

/-- A pointer that is not NULL. -/
abbrev Argument := { pointer : Pointer // pointer ≠ NULL }

/-- The bytes of a pointer in memory. -/
def pointerBytes (pointer : Pointer) : Element 8 where
  val := (List.range 8).map fun k => UInt8.ofNat (pointer / 256 ^ k)
  property := by rw [List.length_map, List.length_range]

structure Attempt where
  pathname : List Byte
  argv : Pointer

/-- The calls of `execve`, with the array and the string of `procName` at that time. -/
structure Exec where
  attempts : List Attempt
  argvList : DynArray
  procName : CStr

/-- The loop over the variadic arguments; `outcomes i` is what push number `i` is given when it
reallocates. `none` is the exit after a failed push. -/
def collect (outcomes : Nat → Allocation) : Nat → List Pointer → DynArray → Except Fault (Option DynArray)
  | _, [], _ => .error .outOfBounds
  | i, argument :: rest, argvList =>
    let (element, argvList) := daPush (some (outcomes i)) argvList
    if element = NULL then .ok none
    else do
      let argvList ← argvList.store element (pointerBytes argument).1
      if argument = NULL then .ok (some argvList) else collect outcomes (i + 1) rest argvList

/-- `imp_execlp`; `procName` is the address of the local buffer. `none` where the search has no end. -/
def impExeclp (place : Allocation) (outcomes : Nat → Allocation) (pathEnv : Option CStr)
    (file arg : CStr) (procName : Pointer) (args : List Argument) : Except Fault (Option Exec) := do
  let (_, argvList) := daInit (some place) ⟨none, 0, 0, 0⟩ 0 8
  let name ← strcpy PATH_MAX arg
  let (first, argvList) := daPush (some (outcomes 0)) argvList
  let argvList ← argvList.store first (pointerBytes procName).1
  match ← collect outcomes 1 (args.map Subtype.val ++ [NULL]) argvList with
  | none => .ok (some ⟨[], argvList, name⟩)
  | some argvList =>
    .ok ((search pathEnv file).map fun tried => ⟨tried.map fun path => ⟨path, first⟩, argvList, name⟩)

/-! ### The pushes -/

variable {outcomes : Nat → Allocation} {argvList grown : DynArray} {xs : List (Element 8)}
  {i k : Nat}

theorem push_call {outcome : Option Allocation} {value : Element 8} :
    (Op.push value outcome).call argvList =
      if (daPush outcome argvList).1 = NULL then .ok (.pointer NULL, (daPush outcome argvList).2)
      else
        (daPush outcome argvList).2.store (daPush outcome argvList).1 value.1 >>= fun next =>
          .ok (.pointer (daPush outcome argvList).1, next) := rfl

/-- Where there is room, the pushed element can be written, and is the last one then. -/
theorem push_stores (rep : Represents argvList xs) (value : Element 8) {outcome : Allocation}
    (room : makeRoom (some outcome) argvList = some grown) :
    ∃ element pushed next, daPush (some outcome) argvList = (element, pushed) ∧ element ≠ NULL ∧
      element = daGet grown argvList.size ∧ pushed.store element value.1 = .ok next ∧
      Represents next (xs ++ [value]) ∧ next.capacity = grown.capacity ∧
      next.address = grown.address := by
  have call : daPush (some outcome) argvList =
      (daGet { grown with size := sizeT (grown.size + 1) } (sizeT (grown.size + 1) - 1),
        { grown with size := sizeT (grown.size + 1) }) := by
    rw [daPush, room]
  obtain ⟨rep', free⟩ := makeRoom_represents rep (by decide) (by decide) room
  have al := rep'.allocated
  have bytes := al.room.trans al.bound
  have size : grown.size = argvList.size := rep'.size.trans rep.size.symm
  have next : sizeT (grown.size + 1) = grown.size + 1 := by
    unfold PTRDIFF_MAX at bytes
    exact sizeT_small (by omega)
  rw [next, Nat.add_sub_cancel] at call
  have element : daGet { grown with size := grown.size + 1 } grown.size = daGet grown grown.size := rfl
  have notNull : daGet grown grown.size ≠ NULL := by
    obtain ⟨block, data⟩ := al.block (by decide) free
    rw [daGet_block al data free]
    exact fun zero => al.notNull block data (Nat.add_eq_zero_iff.mp zero).1
  rw [element] at call
  have pushes := daPush_cases (some outcome) value rep (by decide) (by decide)
  rw [push_call, call] at pushes
  dsimp only at pushes
  rw [if_neg notNull] at pushes
  rcases pushes with failed | ⟨pointer, argvList', _, stored, after⟩
  · obtain ⟨_, _, failed⟩ := bind_ok failed
    have same := congrArg Prod.fst (Except.ok.inj failed)
    exact absurd (Returned.pointer.inj same) notNull
  · obtain ⟨stored', store, same⟩ := bind_ok stored
    obtain rfl := congrArg Prod.snd (Except.ok.inj same)
    obtain ⟨capacity, _, address⟩ := store_keeps store
    exact ⟨_, _, _, call, notNull, by rw [size], store, after, capacity, address⟩

/-- The storage after `i` pushes, the last of which that has moved it was number `2 ^ (k - 1)`. -/
structure Placed (outcomes : Nat → Allocation) (i k : Nat) (argvList : DynArray) : Prop where
  capacity : argvList.capacity = 2 ^ k
  upper : i ≤ 2 ^ k
  lower : 2 ^ k < 2 * i
  bound : k ≤ 59
  address : argvList.address = (outcomes (if k = 0 then 0 else 2 ^ (k - 1))).addr

theorem makeRoom_free (outcome : Option Allocation) (free : argvList.size < argvList.capacity) :
    makeRoom outcome argvList = some argvList := by
  rw [makeRoom, if_neg (by omega)]

theorem makeRoom_full (al : Allocated 8 argvList) (outcome : Allocation)
    (full : argvList.capacity ≤ argvList.size) (capacity : argvList.capacity = 2 ^ k) (bound : k ≤ 59) :
    (k = 59 ∧ makeRoom (some outcome) argvList = none) ∨
    (k < 59 ∧ ∃ grown, makeRoom (some outcome) argvList = some grown ∧
      grown.capacity = 2 ^ (k + 1) ∧ grown.address = outcome.addr) := by
  obtain ⟨_, bytes⟩ := grown_capacity al (by decide) (by decide)
  have positive : 0 < 2 ^ k := Nat.two_pow_pos k
  have doubled : (if argvList.capacity = 0 then 1 else sizeT (argvList.capacity * 2)) = 2 ^ (k + 1) := by
    rw [if_neg (by omega), capacity, ← Nat.pow_succ]
    exact sizeT_small (Nat.pow_lt_pow_right (by decide) (by omega))
  rw [doubled] at bytes
  rw [makeRoom, if_pos full]
  dsimp only
  rw [doubled, bytes, realloc]
  by_cases last : k = 59
  · refine Or.inl ⟨last, ?_⟩
    rw [last, if_neg (by decide)]
  · have small : 2 ^ (k + 1) ≤ 2 ^ 59 := Nat.pow_le_pow_right (by decide) (by omega)
    have fits : 2 ^ (k + 1) * 8 ≤ PTRDIFF_MAX := by
      unfold PTRDIFF_MAX
      omega
    rw [if_pos fits]
    exact Or.inr ⟨by omega, _, rfl, rfl, rfl⟩

/-- A push, which may move the storage. Number 2^59 fails. -/
theorem push_placed (rep : Represents argvList xs) (value : Element 8)
    (placed : Placed outcomes i k argvList) (length : xs.length = i) :
    (i = 2 ^ 59 ∧ (daPush (some (outcomes i)) argvList).1 = NULL) ∨
    (i < 2 ^ 59 ∧ ∃ element pushed next k', daPush (some (outcomes i)) argvList = (element, pushed) ∧
      element ≠ NULL ∧ pushed.store element value.1 = .ok next ∧
      Represents next (xs ++ [value]) ∧ Placed outcomes (i + 1) k' next) := by
  have size : argvList.size = i := rep.size.trans length
  have limit : 2 ^ k ≤ 2 ^ 59 := Nat.pow_le_pow_right (by decide) placed.bound
  have upper := placed.upper
  have lower := placed.lower
  have capacity := placed.capacity
  by_cases free : argvList.size < argvList.capacity
  · obtain ⟨element, pushed, next, call, notNull, _, store, after, same, address⟩ :=
      push_stores rep value (makeRoom_free (some (outcomes i)) free)
    refine Or.inr ⟨by omega, element, pushed, next, k, call, notNull, store, after, ?_⟩
    exact ⟨same.trans capacity, by omega, by omega, placed.bound, address.trans placed.address⟩
  · have full : i = 2 ^ k := by omega
    rcases makeRoom_full rep.allocated (outcomes i) (Nat.not_lt.mp free) capacity placed.bound with
      ⟨last, fails⟩ | ⟨more, grown, room, doubled, moved⟩
    · rw [last] at full
      exact Or.inl ⟨full, by rw [daPush, fails]⟩
    · obtain ⟨element, pushed, next, call, notNull, _, store, after, same, address⟩ :=
        push_stores rep value room
      have below : 2 ^ (k + 1) ≤ 2 ^ 59 := Nat.pow_le_pow_right (by decide) more
      have twice : 2 ^ (k + 1) = 2 ^ k * 2 := Nat.pow_succ 2 k
      refine Or.inr ⟨by omega, element, pushed, next, k + 1, call, notNull, store, after, ?_⟩
      refine ⟨same.trans doubled, by omega, by omega, more, ?_⟩
      rw [address, moved, if_neg (Nat.succ_ne_zero k), Nat.add_sub_cancel, ← full]

theorem collect_cases (rep : Represents argvList xs) (placed : Placed outcomes i k argvList)
    (length : xs.length = i) (args : List Argument) :
    (2 ^ 59 < i + args.length + 1 ∧
      collect outcomes i (args.map Subtype.val ++ [NULL]) argvList = .ok none) ∨
    (i + args.length + 1 ≤ 2 ^ 59 ∧ ∃ last k',
      collect outcomes i (args.map Subtype.val ++ [NULL]) argvList = .ok (some last) ∧
      Represents last (xs ++ (args.map Subtype.val ++ [NULL]).map pointerBytes) ∧
      Placed outcomes (i + args.length + 1) k' last) := by
  induction args generalizing i k argvList xs with
  | nil =>
    rw [List.map_nil, List.nil_append, collect]
    rcases push_placed rep (pointerBytes NULL) placed length with
      ⟨full, fails⟩ | ⟨more, element, pushed, next, k', call, notNull, store, after, placed'⟩
    · refine Or.inl ⟨by rw [List.length_nil]; omega, ?_⟩
      dsimp only
      rw [if_pos fails]
    · refine Or.inr ⟨by rw [List.length_nil]; omega, next, k', ?_, after, placed'⟩
      rw [call]
      dsimp only
      rw [if_neg notNull, store]
      rfl
  | cons argument rest ih =>
    rw [List.map_cons, List.cons_append, collect]
    rcases push_placed rep (pointerBytes argument.1) placed length with
      ⟨full, fails⟩ | ⟨more, element, pushed, next, k', call, notNull, store, after, placed'⟩
    · refine Or.inl ⟨by rw [List.length_cons]; omega, ?_⟩
      dsimp only
      rw [if_pos fails]
    · have goes_on : (if argument.1 = NULL then .ok (some next) else
          collect outcomes (i + 1) (rest.map Subtype.val ++ [NULL]) next) =
          collect outcomes (i + 1) (rest.map Subtype.val ++ [NULL]) next := if_neg argument.2
      rw [call]
      dsimp only
      rw [if_neg notNull, store, ok_bind, goes_on]
      have longer : (xs ++ [pointerBytes argument.1]).length = i + 1 := by
        rw [List.length_append, List.length_singleton, length]
      have count : i + 1 + rest.length + 1 = i + (argument :: rest).length + 1 := by
        rw [List.length_cons]
        omega
      have cells : xs ++ [pointerBytes argument.1] ++
          (rest.map Subtype.val ++ [NULL]).map pointerBytes =
          xs ++ (argument.1 :: (rest.map Subtype.val ++ [NULL])).map pointerBytes := by
        rw [List.append_assoc]
        rfl
      have later := ih after placed' longer
      rw [count, cells] at later
      exact later

/-! ### The attempts -/

/-- The vector of a call of `execve` is the current storage, with all arguments and NULL in it. -/
structure Passed (exec : Exec) (arg : CStr) (procName : Pointer) (args : List Argument)
    (attempt : Attempt) : Prop where
  current : attempt.argv = exec.argvList.address
  content : ∀ i value, (procName :: (args.map Subtype.val ++ [NULL]))[i]? = some value →
    exec.argvList.load (attempt.argv + i * 8) 8 = .ok (pointerBytes value).1
  name : exec.procName = arg

section Call

variable {place : Allocation} {outcomes : Nat → Allocation} {arg : CStr} {procName : Pointer}

/-- The first push places the storage. -/
theorem first_push (place : Allocation) (outcomes : Nat → Allocation) (procName : Pointer) :
    ∃ pushed next, daPush (some (outcomes 0)) (daInit (some place) ⟨none, 0, 0, 0⟩ 0 8).2 =
        ((outcomes 0).addr, pushed) ∧
      pushed.store (outcomes 0).addr (pointerBytes procName).1 = .ok next ∧
      Represents next [pointerBytes procName] ∧ Placed outcomes 1 0 next := by
  have rep : Represents (daInit (some place) ⟨none, 0, 0, 0⟩ 0 8).2 ([] : List (Element 8)) :=
    represents_empty (some place) rfl rfl rfl rfl
  have room : makeRoom (some (outcomes 0)) (daInit (some place) ⟨none, 0, 0, 0⟩ 0 8).2 =
      some ⟨some ⟨(outcomes 0).addr, Buffer.resize [] 8 (outcomes 0).junk⟩, 0, 1, 8⟩ := by
    rfl
  obtain ⟨element, pushed, next, call, _, first, store, after, capacity, address⟩ :=
    push_stores rep (pointerBytes procName) room
  have here : element = (outcomes 0).addr := first
  subst here
  exact ⟨pushed, next, call, store, after, capacity, by omega, by omega, by omega, address⟩

/-- `2 ^ (k - 1)` is the largest power of two below the number of pushes. -/
theorem Placed.last_move {n k : Nat} {argvList : DynArray}
    (placed : Placed outcomes (n + 2) k argvList) :
    argvList.address = (outcomes (2 ^ Nat.log 2 (n + 1))).addr := by
  have upper := placed.upper
  have lower := placed.lower
  obtain ⟨j, rfl⟩ : ∃ j, k = j + 1 := by
    cases k with
    | zero => omega
    | succ j => exact ⟨j, rfl⟩
  rw [Nat.pow_succ] at upper lower
  have log : Nat.log 2 (n + 1) = j :=
    Nat.log_eq_of_pow_le_of_lt_pow (by omega) (by rw [Nat.pow_succ]; omega)
  rw [placed.address, if_neg (Nat.succ_ne_zero j), Nat.add_sub_cancel, log]

variable {pathEnv : Option CStr} {file : CStr}

/-- The pathnames that are tried, whatever the arguments are. -/
abbrev tries (pathEnv : Option CStr) (file : CStr) : List (List Byte) :=
  (Pathnames.names COLON (searchPath pathEnv).bytes).map (· ++ [slash] ++ file.bytes)

theorem impExeclp_cases (place : Allocation) (outcomes : Nat → Allocation) (pathEnv : Option CStr)
    (file arg : CStr) (procName : Pointer) (fits : arg.length < PATH_MAX) (args : List Argument) :
    (2 ^ 59 < args.length + 2 ∧ ∃ argvList,
      impExeclp place outcomes pathEnv file arg procName args = .ok (some ⟨[], argvList, arg⟩)) ∨
    (args.length + 2 ≤ 2 ^ 59 ∧ ∃ last k,
      impExeclp place outcomes pathEnv file arg procName args =
        .ok (some ⟨(tries pathEnv file).map fun path => ⟨path, (outcomes 0).addr⟩, last, arg⟩) ∧
      Represents last ((procName :: (args.map Subtype.val ++ [NULL])).map pointerBytes) ∧
      Placed outcomes (args.length + 2) k last) := by
  obtain ⟨pushed, next, call, store, rep, placed⟩ := first_push place outcomes procName
  unfold impExeclp
  rw [strcpy_fits fits]
  dsimp only [ok_bind]
  rw [call]
  dsimp only
  rw [store]
  dsimp only [ok_bind]
  have count : 1 + args.length + 1 = args.length + 2 := by omega
  rcases collect_cases rep placed rfl args with ⟨many, fails⟩ | ⟨few, last, k, collected, after, at_end⟩
  · rw [fails]
    exact Or.inl ⟨by omega, next, rfl⟩
  · rw [collected]
    refine Or.inr ⟨by omega, last, k, ?_, after, count ▸ at_end⟩
    rw [ok_bind, search_names]
    dsimp only
    rw [Option.map_some]

theorem impExeclp_overflow (long : PATH_MAX ≤ arg.length) (args : List Argument) :
    impExeclp place outcomes pathEnv file arg procName args = .error .outOfBounds := by
  unfold impExeclp
  rw [strcpy_overflow long]
  rfl

/-- What stands in the storage can be read there. -/
theorem load_cells {cells : List Pointer} {last : DynArray}
    (rep : Represents last (cells.map pointerBytes)) {i : Nat} {value : Pointer}
    (cell : cells[i]? = some value) :
    last.load (last.address + i * 8) 8 = .ok (pointerBytes value).1 := by
  have al := rep.allocated
  obtain ⟨inside, rfl⟩ := List.getElem?_eq_some_iff.mp cell
  have slot : i < (cells.map pointerBytes).length := by
    rw [List.length_map]
    exact inside
  have free : i < last.capacity := by
    have fits := al.fits
    rw [rep.size] at fits
    omega
  have stored := rep.slots i slot
  rw [List.getElem_map] at stored
  have loaded := load_slot al (by decide) free stored
  rw [daGet, al.offset free] at loaded
  exact loaded

theorem tries_nil : tries pathEnv file = [] ↔
    ∀ element ∈ Pathnames.fields COLON (searchPath pathEnv).bytes, element = [] := by
  rw [tries, List.map_eq_nil_iff, Pathnames.names_eq_fields, List.filter_eq_nil_iff]
  simp

/-- The storage must be where it was when the first element was pushed. -/
theorem passes_argv_iff (place : Allocation) (outcomes : Nat → Allocation) (pathEnv : Option CStr)
    (file arg : CStr) (procName : Pointer) (args : List Argument) :
    (∃ exec, impExeclp place outcomes pathEnv file arg procName args = .ok (some exec) ∧
      ∀ attempt ∈ exec.attempts, Passed exec arg procName args attempt) ↔
      arg.length < PATH_MAX ∧
        ((∀ element ∈ Pathnames.fields COLON (searchPath pathEnv).bytes, element = []) ∨
          2 ^ 59 < args.length + 2 ∨
          (outcomes (2 ^ Nat.log 2 (args.length + 1))).addr = (outcomes 0).addr) := by
  by_cases fits : arg.length < PATH_MAX
  case neg =>
    refine iff_of_false ?_ fun condition => fits condition.1
    rintro ⟨exec, call, _⟩
    rw [impExeclp_overflow (Nat.not_lt.mp fits)] at call
    cases call
  rw [and_iff_right fits]
  rcases impExeclp_cases place outcomes pathEnv file arg procName fits args with
    ⟨many, argvList, call⟩ | ⟨few, last, k, call, rep, placed⟩
  · refine iff_of_true ⟨_, call, ?_⟩ (Or.inr (Or.inl many))
    exact fun _ member => by cases member
  rw [call, or_iff_right (Nat.not_lt.mpr few), ← tries_nil, ← placed.last_move]
  constructor
  · rintro ⟨exec, same, passed⟩
    obtain rfl := Option.some.inj (Except.ok.inj same)
    cases found : tries pathEnv file with
    | nil => exact Or.inl rfl
    | cons path rest =>
      rw [found] at passed
      exact Or.inr (passed _ List.mem_cons_self).current.symm
  · intro condition
    refine ⟨_, rfl, fun attempt member => ?_⟩
    obtain ⟨path, tried, rfl⟩ := List.mem_map.mp member
    have stays : last.address = (outcomes 0).addr := by
      rcases condition with none | stays
      · rw [none] at tried
        cases tried
      · exact stays
    refine ⟨stays.symm, fun i value cell => ?_, rfl⟩
    dsimp only
    rw [← stays]
    exact load_cells rep cell

/-- The second push moves the storage, and `execve` is given the old one. -/
theorem moved_storage : ¬ ∀ (place : Allocation) (outcomes : Nat → Allocation)
    (pathEnv : Option CStr) (file arg : CStr) (procName : Pointer) (args : List Argument),
    ∃ exec, impExeclp place outcomes pathEnv file arg procName args = .ok (some exec) ∧
      ∀ attempt ∈ exec.attempts, Passed exec arg procName args attempt := by
  intro all
  let place : Allocation := ⟨64, by decide, fun _ => 0⟩
  let outcomes : Nat → Allocation := fun i => ⟨64 * i + 128, Nat.succ_ne_zero (64 * i + 127), fun _ => 0⟩
  let name : CStr := ⟨[108, 115], by decide⟩
  obtain ⟨exec, call, passed⟩ := all place outcomes none name name 4096 []
  rcases impExeclp_cases place outcomes none name name 4096 (by decide) [] with
    ⟨many, _⟩ | ⟨few, last, k, call', rep, placed⟩
  · exact absurd many (by decide)
  · rw [call'] at call
    obtain rfl := Option.some.inj (Except.ok.inj call)
    cases found : tries none name with
    | nil => exact absurd (tries_nil.mp found) (by decide)
    | cons path rest =>
      rw [found] at passed
      have current := (passed _ List.mem_cons_self).current
      rw [placed.last_move] at current
      have addresses : 64 * 0 + 128 = 64 * 2 ^ Nat.log 2 1 + 128 := current
      exact absurd addresses (by decide)

end Call

end Tlpi.Execlp
