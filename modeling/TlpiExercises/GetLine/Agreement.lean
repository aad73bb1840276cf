import TlpiExercises.DynamicArray.Representation
import TlpiExercises.GetLine.Reader

/-!
# The two readers return the same line

`getline_clone` doubles its buffer before the terminator would not fit, and `fgetstr` pushes a slot before
it reads. Both are readers, which differ in the length that they can reach.
-/

namespace Tlpi.GetLine

open Loop DynamicArray

/-! ### Powers of two -/

/-- A power of two below 2^62 can be doubled. -/
theorem double_fits {j : Nat} (small : 2 ^ j < 2 ^ 62) : 2 ^ j * 2 ≤ PTRDIFF_MAX := by
  have exponent : j + 1 ≤ 62 := (Nat.pow_lt_pow_iff_right (Nat.one_lt_two)).mp small
  have doubled := Nat.pow_le_pow_right Nat.two_pos exponent
  rw [Nat.pow_succ] at doubled
  unfold PTRDIFF_MAX
  omega

theorem power_bound {j : Nat} (possible : 2 ^ j ≤ PTRDIFF_MAX) : 2 ^ j ≤ 2 ^ 62 := by
  have below : 2 ^ j < 2 ^ 63 := by
    unfold PTRDIFF_MAX at possible
    omega
  have exponent : j < 63 := (Nat.pow_lt_pow_iff_right (Nat.one_lt_two)).mp below
  exact Nat.pow_le_pow_right Nat.two_pos (Nat.le_of_lt_succ exponent)

/-! ### getline_clone -/

/-- The buffer has `size` bytes, a power of two, and there is room for the terminator. -/
structure Room (s : State) : Prop where
  length : s.line.length = s.size
  fits : s.totalRead + 1 ≤ s.size
  power : ∃ j, s.size = 2 ^ j
  bound : s.size ≤ PTRDIFF_MAX

theorem size_le {s : State} (room : Room s) : s.size ≤ 2 ^ 62 := by
  obtain ⟨j, power⟩ := room.power
  have bound := room.bound
  rw [power] at bound ⊢
  exact power_bound bound

theorem growLine_cases (outcome : Option Allocation) {s : State} (room : Room s) :
    growLine outcome s = none ∧ s.totalRead + 1 = s.size ∧ (outcome = none ∨ PTRDIFF_MAX < s.size * 2) ∨
      ∃ t, growLine outcome s = some t ∧ Room t ∧ t.totalRead + 1 < t.size ∧
        t.totalRead = s.totalRead ∧ t.consumed = s.consumed ∧
        t.line.take s.totalRead = s.line.take s.totalRead := by
  have fits := room.fits
  have small := size_le room
  have doubled : sizeT (s.size * 2) = s.size * 2 := by
    rw [sizeT_small]
    omega
  unfold growLine reallocLine
  rw [doubled]
  by_cases full : s.totalRead + 1 ≥ s.size
  · rw [if_pos full]
    by_cases possible : s.size * 2 ≤ PTRDIFF_MAX
    · rw [if_pos possible]
      cases outcome with
      | none => exact Or.inl ⟨rfl, Nat.le_antisymm fits full, Or.inl rfl⟩
      | some allocation =>
        have length := Buffer.resize_length s.line (s.size * 2) allocation.junk
        obtain ⟨j, power⟩ := room.power
        refine Or.inr ⟨_, rfl, ⟨length, by dsimp only; omega, ⟨j + 1, ?_⟩, possible⟩, ?_, rfl, rfl, ?_⟩
        · rw [Nat.pow_succ, ← power]
        · dsimp only
          omega
        · exact Buffer.take_resize (by rw [room.length]; omega) (by omega)
    · rw [if_neg possible]
      exact Or.inl ⟨rfl, Nat.le_antisymm fits full, Or.inr (Nat.not_le.mp possible)⟩
  · rw [if_neg full]
    exact Or.inr ⟨s, rfl, room, Nat.not_le.mp full, rfl, rfl, rfl⟩

/-- `text` is what has been read into the buffer. -/
structure HasRead (text : List UInt8) (s : State) : Prop where
  room : Room s
  consumed : s.consumed = text.length
  total : s.totalRead = text.length
  line : s.line.take text.length = text

theorem endLine_text {text : List UInt8} {s : State} (inside : text.length < s.line.length)
    (total : s.totalRead = text.length) (line : s.line.take text.length = text) :
    endLine s = .ok ⟨some (text.takeWhile (· ≠ 0)), s.consumed⟩ := by
  unfold endLine
  rw [total, Buffer.write_eq inside, line, List.append_assoc]
  exact stringAt_nul text _ s.consumed

/-- A round that has grown the buffer, or did not need to. -/
theorem readCharacter_grown {alloc : Allocator} {input : Input} {text : List UInt8} {s t : State}
    (now : HasRead text s) (grown : growLine (alloc (s.consumed + 1)) s = some t) (room : Room t)
    (more : t.totalRead + 1 < t.size) (total : t.totalRead = s.totalRead)
    (consumed : t.consumed = s.consumed) (line : t.line.take s.totalRead = s.line.take s.totalRead) :
    Proceeds input (readCharacter alloc input) HasRead text s := by
  rw [now.total] at total line
  rw [now.consumed] at consumed
  rw [now.line] at line
  have length := room.length
  have inside : text.length < t.line.length := by omega
  unfold Proceeds readCharacter
  rw [grown]
  dsimp only
  rw [consumed]
  cases input.read text.length with
  | failed => rfl
  | eof =>
    dsimp only
    rw [endLine_text inside total line, consumed]
  | byte c =>
    dsimp only
    by_cases newline : c = NEWLINE
    · rw [if_pos newline, if_pos newline]
      exact congrArg Except.error (endLine_text (s := { t with consumed := text.length + 1 }) inside total line)
    · rw [if_neg newline, if_neg newline]
      have space : text.length + [c].length ≤ t.line.length := inside
      obtain ⟨written, write⟩ := Buffer.write_fits space
      have bound := room.bound
      have next : sizeT (text.length + 1) = text.length + 1 := by
        unfold PTRDIFF_MAX at bound
        rw [sizeT_small]
        omega
      rw [total, write, next]
      refine ⟨_, rfl, ⟨?_, ?_, room.power, bound⟩, ?_, ?_, ?_⟩
      · exact (Buffer.write_length write).trans length
      · dsimp only
        omega
      · rw [List.length_append]
        rfl
      · rw [List.length_append]
        rfl
      · have taken := Buffer.take_write write
        rw [line] at taken
        rw [List.length_append]
        exact taken

theorem readCharacter_refuses {alloc : Allocator} (input : Input) {text : List UInt8} {s : State}
    (now : HasRead text s) (refused : growLine (alloc (s.consumed + 1)) s = none) :
    Refuses (readCharacter alloc input) text s := by
  unfold Refuses readCharacter
  rw [refused, now.consumed]

theorem readCharacter_reader (alloc : Allocator) (input : Input) (text : List UInt8) (s : State)
    (now : HasRead text s) : Refuses (readCharacter alloc input) text s ∨
      Proceeds input (readCharacter alloc input) HasRead text s := by
  rcases growLine_cases (alloc (s.consumed + 1)) now.room with
    ⟨refused, _⟩ | ⟨t, grown, room, more, total, consumed, line⟩
  · exact Or.inl (readCharacter_refuses input now refused)
  · exact Or.inr (readCharacter_grown now grown room more total consumed line)

theorem readCharacter_room {alloc : Allocator} (input : Input) (grants : Grants alloc) (text : List UInt8)
    (s : State) (now : HasRead text s) (short : text.length < 2 ^ 62 - 1) :
    Proceeds input (readCharacter alloc input) HasRead text s := by
  rcases growLine_cases (alloc (s.consumed + 1)) now.room with
    ⟨_, full, refused⟩ | ⟨t, grown, room, more, total, consumed, line⟩
  · exfalso
    rcases refused with none_left | large
    · have granted := grants (s.consumed + 1)
      rw [none_left] at granted
      cases granted
    · obtain ⟨j, power⟩ := now.room.power
      rw [now.total] at full
      rw [power] at full large
      exact Nat.not_lt.mpr (double_fits (by omega)) large
  · exact readCharacter_grown now grown room more total consumed line

theorem readCharacter_full (alloc : Allocator) (input : Input) (text : List UInt8) (s : State)
    (now : HasRead text s) (full : text.length = 2 ^ 62 - 1) :
    Refuses (readCharacter alloc input) text s := by
  have small := size_le now.room
  rcases growLine_cases (alloc (s.consumed + 1)) now.room with
    ⟨refused, _⟩ | ⟨t, grown, room, more, total, consumed, line⟩
  · exact readCharacter_refuses input now refused
  · have larger := size_le room
    rw [total, now.total] at more
    omega

/-- The call from its first allocation on. -/
theorem getlineClone_start (alloc : Allocator) (input : Input) :
    (∀ fuel, getlineClone alloc input fuel = some (.ok ⟨none, 0⟩)) ∧ alloc 0 = none ∨
      ∃ s, HasRead [] s ∧ ∀ fuel, getlineClone alloc input fuel = loop (readCharacter alloc input) fuel s := by
  unfold getlineClone
  cases allocated : malloc (alloc 0) 64 with
  | none =>
    refine Or.inl ⟨fun _ => rfl, ?_⟩
    unfold malloc at allocated
    rw [if_pos (by decide)] at allocated
    exact Option.map_eq_none_iff.mp allocated
  | some block =>
    obtain ⟨length, _, _⟩ := malloc_length allocated
    have bound : 64 ≤ PTRDIFF_MAX := by decide
    exact Or.inr ⟨_, ⟨⟨length, Nat.le_of_ble_eq_true rfl, ⟨6, rfl⟩, bound⟩, rfl, rfl, rfl⟩, fun _ => rfl⟩

theorem getlineClone_granted {alloc : Allocator} (input : Input) (grants : Grants alloc) :
    ∃ s, HasRead [] s ∧ ∀ fuel, getlineClone alloc input fuel = loop (readCharacter alloc input) fuel s := by
  rcases getlineClone_start alloc input with ⟨_, refused⟩ | started
  · have granted := grants 0
    rw [refused] at granted
    cases granted
  · exact started

/-! ### fgetstr -/

/-- The elements of an array of characters. -/
def cells (text : List UInt8) : List (Element 1) := text.map fun c => ⟨[c], rfl⟩

theorem cells_length (text : List UInt8) : (cells text).length = text.length := List.length_map ..

theorem cells_append (text : List UInt8) (c : UInt8) : cells (text ++ [c]) = cells text ++ [⟨[c], rfl⟩] :=
  List.map_append

/-- The block begins with the text. -/
theorem cells_bytes {text : List UInt8} {arr : DynArray} (rep : Represents arr (cells text)) :
    ∃ rest, arr.bytes = text ++ rest := by
  have al := rep.allocated
  have room := al.room.trans' (Nat.mul_le_mul_right 1 al.fits)
  rw [rep.size, cells_length, Nat.mul_one] at room
  have same : arr.bytes.take text.length = text := by
    refine List.ext_getElem? fun i => ?_
    by_cases inside : i < text.length
    · have slot := rep.slots i (by rwa [cells_length])
      unfold Buffer.read at slot
      rw [if_pos (by omega), Nat.mul_one] at slot
      have first := congrArg (fun value => value[0]?) (Option.some.inj slot)
      rw [List.getElem?_take_of_lt Nat.one_pos, List.getElem?_drop, Nat.add_zero] at first
      rw [List.getElem?_take_of_lt inside, first, List.getElem?_eq_getElem inside]
      simp [cells]
    · rw [List.getElem?_eq_none (by rw [List.length_take]; omega), List.getElem?_eq_none (by omega)]
  refine ⟨arr.bytes.drop text.length, (List.take_append_drop text.length arr.bytes).symm.trans ?_⟩
  rw [same]

/-- An array with a slot behind the text. -/
structure Slot (text : List UInt8) (arr : DynArray) : Prop where
  allocated : Allocated 1 arr
  size : arr.size = (cells text).length + 1
  slots : ∀ i (h : i < (cells text).length), Buffer.read arr.bytes (i * 1) 1 = some (cells text)[i].1

theorem slot_of_represents {text : List UInt8} {c : UInt8} {arr : DynArray}
    (rep : Represents arr (cells (text ++ [c]))) : Slot text arr := by
  rw [cells_append] at rep
  refine ⟨rep.allocated, ?_, fun i inside => ?_⟩
  · rw [rep.size, List.length_append]
    rfl
  · rw [rep.slots i (by rw [List.length_append]; omega), List.getElem_append_left inside]

theorem store_daGet {arr arr' : DynArray} {pointer : Pointer} {value : List UInt8}
    (stored : arr.store pointer value = .ok arr') (i : Nat) :
    daGet arr' i = daGet arr i ∧ arr'.capacity = arr.capacity := by
  obtain ⟨capacity, dataSize, address⟩ := store_keeps stored
  unfold daGet
  rw [dataSize, address]
  exact ⟨rfl, capacity⟩

theorem store_char {text : List UInt8} {arr : DynArray} (slot : Slot text arr) (c : UInt8) :
    ∃ arr', arr.store (daGet arr text.length) [c] = .ok arr' ∧ Represents arr' (cells (text ++ [c])) ∧
      daGet arr' text.length = daGet arr text.length ∧ arr'.capacity = arr.capacity := by
  obtain ⟨arr', stored, rep⟩ :=
    represents_stored slot.allocated Nat.one_pos slot.size slot.slots (⟨[c], rfl⟩ : Element 1)
  rw [cells_length] at stored
  rw [← cells_append] at rep
  exact ⟨arr', stored, rep, store_daGet stored text.length⟩

theorem endString_text {text : List UInt8} {arr : DynArray} (slot : Slot text arr) (consumed : Nat) :
    endString ⟨arr, consumed⟩ (daGet arr text.length) =
      .ok ⟨some (text.takeWhile (· ≠ 0)), consumed⟩ := by
  obtain ⟨arr', stored, rep, _⟩ := store_char slot 0
  obtain ⟨rest, bytes⟩ := cells_bytes rep
  unfold endString
  rw [stored]
  dsimp only
  rw [bytes, List.append_assoc]
  exact stringAt_nul text rest consumed

/-- No capacity, or a power of two. -/
def Power (capacity : Nat) : Prop := capacity = 0 ∨ ∃ j, capacity = 2 ^ j

structure HasChars (text : List UInt8) (s : Chars) : Prop where
  represents : Represents s.chars (cells text)
  consumed : s.consumed = text.length
  power : Power s.chars.capacity

theorem readChar_slot {alloc : Allocator} {input : Input} {text : List UInt8} {s : Chars} {arr : DynArray}
    (now : HasChars text s) (slot : Slot text arr) (power : Power arr.capacity)
    (pushed : daPush (alloc (s.consumed + 1)) s.chars = (daGet arr text.length, arr))
    (notNull : daGet arr text.length ≠ NULL) :
    Proceeds input (readChar alloc input) HasChars text s := by
  unfold Proceeds readChar
  rw [pushed]
  dsimp only
  rw [if_neg notNull, now.consumed]
  cases input.read text.length with
  | failed => rfl
  | eof =>
    dsimp only
    rw [endString_text slot]
  | byte c =>
    obtain ⟨arr', stored, rep, same, capacity⟩ := store_char slot c
    have length : text.length < (cells (text ++ [c])).length := by
      rw [cells_length, List.length_append]
      exact Nat.lt_succ_self _
    have inside : text.length < arr'.capacity := by
      have fits := rep.allocated.fits
      rw [rep.size] at fits
      omega
    have loaded := load_slot rep.allocated Nat.one_pos inside (rep.slots text.length length)
    have value : (cells (text ++ [c]))[text.length].1 = [c] := by simp [cells]
    rw [same, value] at loaded
    dsimp only
    rw [stored]
    dsimp only
    rw [loaded]
    dsimp only
    by_cases newline : c = NEWLINE
    · rw [if_pos newline, if_pos (congrArg (fun c => [c]) newline), ← same,
        endString_text (slot_of_represents rep)]
    · rw [if_neg newline, if_neg (fun one => newline (List.cons.inj one).1)]
      refine ⟨_, rfl, rep, ?_, ?_⟩
      · rw [List.length_append]
        rfl
      · exact capacity.symm ▸ power

theorem daPush_capacity (outcome : Option Allocation) {arr : DynArray} (power : Power arr.capacity)
    (bound : arr.capacity ≤ PTRDIFF_MAX) : Power (daPush outcome arr).2.capacity := by
  have grown : Power (if arr.capacity = 0 then 1 else sizeT (arr.capacity * 2)) := by
    rcases power with empty | ⟨j, power⟩
    · rw [if_pos empty]
      exact Or.inr ⟨0, rfl⟩
    · have some_slot : arr.capacity ≠ 0 := power ▸ Nat.ne_of_gt (Nat.two_pow_pos j)
      unfold PTRDIFF_MAX at bound
      rw [if_neg some_slot, sizeT_small (by omega), power]
      exact Or.inr ⟨j + 1, (Nat.pow_succ 2 j).symm⟩
  unfold daPush makeRoom
  by_cases full : arr.size ≥ arr.capacity
  · rw [if_pos full]
    dsimp only
    cases realloc outcome arr
        (sizeT ((if arr.capacity = 0 then 1 else sizeT (arr.capacity * 2)) * arr.dataSize)) with
    | none => exact power
    | some temp => exact grown
  · rw [if_neg full]
    exact power

/-- Below 2^62 elements there is room for one more. -/
theorem makeRoom_some {allocation : Allocation} {text : List UInt8} {arr : DynArray}
    (rep : Represents arr (cells text)) (power : Power arr.capacity) (short : text.length < 2 ^ 62) :
    makeRoom (some allocation) arr ≠ none := by
  intro refused
  have size := rep.size
  rw [cells_length] at size
  have fits := rep.allocated.fits
  unfold makeRoom at refused
  by_cases full : arr.size ≥ arr.capacity
  · have possible : sizeT ((if arr.capacity = 0 then 1 else sizeT (arr.capacity * 2)) * arr.dataSize) ≤
        PTRDIFF_MAX := by
      rw [rep.allocated.element, Nat.mul_one]
      rcases power with empty | ⟨j, power⟩
      · rw [if_pos empty]
        decide
      · have some_slot : arr.capacity ≠ 0 := power ▸ Nat.ne_of_gt (Nat.two_pow_pos j)
        have room := double_fits (j := j) (by omega)
        rw [if_neg some_slot, power]
        unfold PTRDIFF_MAX at room ⊢
        rw [sizeT_small (n := 2 ^ j * 2) (by omega), sizeT_small (by omega)]
        exact room
    rw [if_pos full] at refused
    dsimp only at refused
    rw [realloc, if_pos possible] at refused
    cases refused
  · rw [if_neg full] at refused
    cases refused

theorem readChar_reader (alloc : Allocator) (input : Input) (text : List UInt8) (s : Chars)
    (now : HasChars text s) :
    makeRoom (alloc (s.consumed + 1)) s.chars = none ∧ Refuses (readChar alloc input) text s ∨
      Proceeds input (readChar alloc input) HasChars text s := by
  have bound : s.chars.capacity ≤ PTRDIFF_MAX := by
    have room := now.represents.allocated.room.trans now.represents.allocated.bound
    rwa [Nat.mul_one] at room
  have power := daPush_capacity (alloc (s.consumed + 1)) now.power bound
  rcases daPush_slot (alloc (s.consumed + 1)) now.represents Nat.one_pos (by decide) with
    ⟨refused, pushed⟩ | ⟨arr, pushed, notNull, al, size, slots⟩
  · refine Or.inl ⟨refused, ?_⟩
    unfold Refuses readChar
    rw [pushed]
    dsimp only
    rw [if_pos rfl, now.consumed]
  · rw [pushed] at power
    rw [cells_length] at pushed notNull
    exact Or.inr (readChar_slot now ⟨al, size, slots⟩ power pushed notNull)

theorem readChar_room {alloc : Allocator} (input : Input) (grants : Grants alloc) (text : List UInt8)
    (s : Chars) (now : HasChars text s) (short : text.length < 2 ^ 62) :
    Proceeds input (readChar alloc input) HasChars text s := by
  obtain ⟨allocation, granted⟩ := Option.isSome_iff_exists.mp (grants (s.consumed + 1))
  rcases readChar_reader alloc input text s now with ⟨refused, _⟩ | proceeds
  · rw [granted] at refused
    exact absurd refused (makeRoom_some now.represents now.power short)
  · exact proceeds

theorem fgetstr_start (alloc : Allocator) (uninitialised : DynArray) :
    HasChars [] ⟨(daInit (alloc 0) uninitialised 0 1).2, 0⟩ :=
  ⟨represents_empty (alloc 0) rfl rfl rfl rfl, rfl, Or.inl rfl⟩

/-! ### Both -/

theorem isLine_nulFree {input : Input} {body : List UInt8} (nulFree : ∀ n, input.stream n ≠ some 0)
    (line : IsLine input body) : 0 ∉ body := by
  intro member
  obtain ⟨k, inside, nul⟩ := List.getElem_of_mem member
  have read := line.bytes k inside
  unfold Input.read at read
  rw [nul] at read
  split at read
  · cases read
  · split at read
    · cases read
    · rename_i c found
      obtain rfl := Read.byte.inj read
      exact nulFree _ found

/-- Both calls return, with the same string after the same number of bytes. -/
def SameLine (alloc alloc' : Allocator) (uninitialised : DynArray) (input : Input) : Prop :=
  ∃ returned fuel fuel', getlineClone alloc input fuel = some (.ok returned) ∧
    fgetstr alloc' uninitialised input fuel' = some (.ok returned)

theorem getlineClone_line {alloc : Allocator} {input : Input} {body : List UInt8} (grants : Grants alloc)
    (nulFree : 0 ∉ body) (line : IsLine input body) (short : body.length < 2 ^ 62 - 1) :
    ∃ fuel, getlineClone alloc input fuel = some (.ok (lineResult input body)) := by
  obtain ⟨s, start, call⟩ := getlineClone_granted input grants
  obtain ⟨fuel, ended⟩ := reader_line (readCharacter_room input grants) line nulFree short start
  exact ⟨fuel, (call fuel).trans ended⟩

theorem getlineClone_text {alloc : Allocator} {input : Input} {body : List UInt8} (grants : Grants alloc)
    (line : IsLine input body) (short : body.length < 2 ^ 62 - 1) :
    ∃ fuel, getlineClone alloc input fuel = some (.ok (textResult input body)) := by
  obtain ⟨s, start, call⟩ := getlineClone_granted input grants
  obtain ⟨fuel, ended⟩ := reader_text (readCharacter_room input grants) line short start
  exact ⟨fuel, (call fuel).trans ended⟩

/-- The call returns whatever the allocator does. -/
theorem getlineClone_returns (alloc : Allocator) {input : Input} {body : List UInt8}
    (line : IsLine input body) :
    ∃ fuel returned, getlineClone alloc input fuel = some (.ok returned) ∧
      (returned.string = none ∨ body.length < 2 ^ 62 - 1 ∧ returned = textResult input body) := by
  rcases getlineClone_start alloc input with ⟨call, _⟩ | ⟨s, start, call⟩
  · exact ⟨0, _, call 0, Or.inl rfl⟩
  · obtain ⟨fuel, returned, ended, result⟩ := reader_returns (readCharacter_reader alloc input)
      (readCharacter_full alloc input) line (Nat.zero_le _) (Nat.zero_le _) start
    exact ⟨fuel, returned, (call fuel).trans ended, result⟩

theorem getlineClone_more {alloc : Allocator} {input : Input} {fuel more : Nat}
    {result : Except Fault Returned} (ended : getlineClone alloc input fuel = some result)
    (enough : fuel ≤ more) : getlineClone alloc input more = some result := by
  obtain ⟨extra, rfl⟩ := Nat.exists_eq_add_of_le enough
  rcases getlineClone_start alloc input with ⟨call, _⟩ | ⟨s, _, call⟩
  · rw [call] at ended ⊢
    exact ended
  · rw [call] at ended ⊢
    exact loop_more ended

theorem getlineClone_long {alloc : Allocator} {input : Input} {body : List UInt8} (grants : Grants alloc)
    (line : IsLine input body) (long : 2 ^ 62 - 1 ≤ body.length) :
    ∃ fuel, getlineClone alloc input fuel = some (.ok ⟨none, 2 ^ 62 - 1⟩) := by
  obtain ⟨s, start, call⟩ := getlineClone_granted input grants
  obtain ⟨fuel, ended⟩ := reader_refuses (readCharacter_room input grants)
    (readCharacter_full alloc input) line long start
  exact ⟨fuel, (call fuel).trans ended⟩

theorem fgetstr_line {alloc : Allocator} (uninitialised : DynArray) {input : Input} {body : List UInt8}
    (grants : Grants alloc) (nulFree : 0 ∉ body) (line : IsLine input body)
    (short : body.length < 2 ^ 62) :
    ∃ fuel, fgetstr alloc uninitialised input fuel = some (.ok (lineResult input body)) :=
  reader_line (readChar_room input grants) line nulFree short (fgetstr_start alloc uninitialised)

theorem getlineClone_unique {alloc : Allocator} {input : Input} {fuel more : Nat}
    {first second : Except Fault Returned} (one : getlineClone alloc input fuel = some first)
    (other : getlineClone alloc input more = some second) : first = second := by
  rcases getlineClone_start alloc input with ⟨call, _⟩ | ⟨s, _, call⟩
  · exact Option.some.inj ((one.symm.trans (call fuel)).trans ((call more).symm.trans other))
  · exact loop_unique ((call fuel).symm.trans one) ((call more).symm.trans other)

theorem getlineClone_inside (alloc : Allocator) (input : Input) (fuel : Nat) (fault : Fault) :
    getlineClone alloc input fuel ≠ some (.error fault) := by
  intro ended
  rcases getlineClone_start alloc input with ⟨call, _⟩ | ⟨s, start, call⟩
  · cases (call fuel).symm.trans ended
  · exact reader_safe (readCharacter_reader alloc input) start fault ((call fuel).symm.trans ended)

theorem fgetstr_inside (alloc : Allocator) (uninitialised : DynArray) (input : Input) (fuel : Nat)
    (fault : Fault) : fgetstr alloc uninitialised input fuel ≠ some (.error fault) :=
  reader_safe (fun text s now => (readChar_reader alloc input text s now).imp_left And.right)
    (fgetstr_start alloc uninitialised) fault

/-- No byte is stored outside, whatever the allocator does. Where it grants what it can, lines of up to
2^62 - 2 bytes are returned by both. -/
theorem readers_agree (alloc alloc' : Allocator) (uninitialised : DynArray) (input : Input)
    (nulFree : ∀ n, input.stream n ≠ some 0) :
    (∀ fuel fault, getlineClone alloc input fuel ≠ some (.error fault) ∧
      fgetstr alloc' uninitialised input fuel ≠ some (.error fault)) ∧
    ∀ body, IsLine input body → body.length ≤ 2 ^ 62 - 2 → Grants alloc → Grants alloc' →
      ∃ fuel fuel', getlineClone alloc input fuel = some (.ok (lineResult input body)) ∧
        fgetstr alloc' uninitialised input fuel' = some (.ok (lineResult input body)) := by
  refine ⟨fun fuel fault => ⟨getlineClone_inside alloc input fuel fault,
    fgetstr_inside alloc' uninitialised input fuel fault⟩, fun body line short grants grants' => ?_⟩
  have text := isLine_nulFree nulFree line
  obtain ⟨fuel, first⟩ := getlineClone_line grants text line (by omega)
  obtain ⟨fuel', second⟩ := fgetstr_line uninitialised grants' text line (by omega)
  exact ⟨fuel, fuel', first, second⟩

/-! ### Lines of one letter -/

def letters (n : Nat) : Input := ⟨fun k => if k < n then some 97 else none, 0, fun _ => false⟩

theorem letters_nulFree (n k : Nat) : (letters n).stream k ≠ some 0 := by
  unfold letters
  dsimp only
  split
  · decide
  · rintro ⟨⟩

theorem letters_read (n k : Nat) : (letters n).read k = if k < n then .byte 97 else .eof := by
  unfold Input.read letters
  dsimp only
  rw [if_neg Bool.false_ne_true, Nat.zero_add]
  by_cases inside : k < n
  · rw [if_pos inside, if_pos inside]
  · rw [if_neg inside, if_neg inside]

theorem letters_line (n : Nat) : IsLine (letters n) (List.replicate n 97) := by
  refine ⟨fun k inside => ?_, fun member => ?_, fun c read => ?_⟩
  · rw [List.length_replicate] at inside
    rw [letters_read, if_pos inside, List.getElem_replicate]
  · exact absurd (List.eq_of_mem_replicate member) (by decide)
  · rw [List.length_replicate, letters_read, if_neg (Nat.lt_irrefl n)] at read
    cases read

theorem letters_result (n : Nat) :
    lineResult (letters n) (List.replicate n 97) = ⟨some (List.replicate n 97), n⟩ := by
  unfold lineResult
  rw [List.length_replicate, letters_read, if_neg (Nat.lt_irrefl n)]

def granting : Allocator := fun _ => some ⟨8192, by decide, fun _ => 0⟩

/-- Both readers have grown their arrays several times at the 300th letter. -/
theorem readers_agree_letters : ∃ fuel fuel',
    getlineClone granting (letters 300) fuel = some (.ok ⟨some (List.replicate 300 97), 300⟩) ∧
      fgetstr granting ⟨none, 0, 0, 0⟩ (letters 300) fuel' =
        some (.ok ⟨some (List.replicate 300 97), 300⟩) := by
  have agree := (readers_agree granting granting ⟨none, 0, 0, 0⟩ (letters 300) (letters_nulFree 300)).2 _
    (letters_line 300) (List.length_replicate.trans_le (by decide)) (fun _ => rfl) fun _ => rfl
  rw [letters_result] at agree
  exact agree

/-- At 2^62 - 1 bytes `getline_clone` would have to get 2^63 bytes, and `fgetstr` has got 2^62. -/
theorem longest_line : ¬ ∀ (alloc alloc' : Allocator) (uninitialised : DynArray) (input : Input)
    (body : List UInt8), (∀ n, input.stream n ≠ some 0) → Grants alloc → Grants alloc' →
      IsLine input body → SameLine alloc alloc' uninitialised input := by
  intro all
  have line := letters_line (2 ^ 62 - 1)
  have length : (List.replicate (2 ^ 62 - 1) (97 : UInt8)).length = 2 ^ 62 - 1 := List.length_replicate
  have grants : Grants granting := fun _ => rfl
  obtain ⟨returned, fuel, fuel', first, second⟩ := all granting granting ⟨none, 0, 0, 0⟩
    (letters (2 ^ 62 - 1)) _ (letters_nulFree _) grants grants line
  obtain ⟨_, refused⟩ := getlineClone_long grants line (Nat.le_of_eq length.symm)
  obtain ⟨_, whole⟩ := fgetstr_line ⟨none, 0, 0, 0⟩ grants (isLine_nulFree (letters_nulFree _) line) line
    (length.trans_lt (by decide))
  rw [letters_result] at whole
  have null := Except.ok.inj (getlineClone_unique first refused)
  have text := Except.ok.inj (loop_unique second whole)
  cases null.symm.trans text

end Tlpi.GetLine
