import TlpiExercises.Setenv.Model

/-!
# What unsetenv_clone leaves

Every round of the outer loop removes the first entry of the name, with `index` an `int`.
-/

namespace Tlpi.Setenv

open Loop

variable {name : CStr} {index : Nat} {entry : CStr} {list before after : List CStr} {tail : Cells}
  {buf rest : List Byte}

/-- The memory that holds a list of entries. -/
def memory (list : List CStr) (tail : Cells) : Cells := list.map some ++ none :: tail

theorem entries_memory : entries (memory list tail) = list := by
  induction list with
  | nil => rfl
  | cons entry rest ih => exact congrArg (entry :: ·) ih

/-! ### The copy of a name -/

/-- The copy of the entry's name, with its NUL, fits into the local buffer. -/
def Short (entry : CStr) : Prop := (nameOf entry.bytes).length < BUF_SIZE

def Matches (name entry : CStr) : Prop := nameOf entry.bytes = name.bytes

instance : DecidablePred Short := fun entry => Nat.decLt (nameOf entry.bytes).length BUF_SIZE

instance : DecidablePred (Matches name) :=
  fun entry => inferInstanceAs (Decidable (nameOf entry.bytes = name.bytes))

theorem nameOf_equals : nameOf (equals :: rest) = [] := rfl

theorem nameOf_cons {c : Byte} (other : c ≠ equals) : nameOf (c :: rest) = c :: nameOf rest := by
  exact List.takeWhile_cons_of_pos (decide_eq_true other)

theorem copyName_short (named : equals ∈ rest)
    (fits : buf.length + (nameOf rest).length < BUF_SIZE) :
    copyName buf rest = .ok (buf ++ nameOf rest) := by
  induction rest generalizing buf with
  | nil => cases named
  | cons c rest ih =>
    rw [copyName, if_neg (by omega)]
    by_cases ends : c = equals
    · rw [if_pos ends, ends, nameOf_equals, List.append_nil]
    · rw [nameOf_cons ends] at fits ⊢
      rw [List.length_cons] at fits
      have later := (List.mem_cons.mp named).resolve_left (Ne.symm ends)
      rw [if_neg ends, ih later (by rw [List.length_append, List.length_singleton]; omega),
        List.append_assoc, List.singleton_append]

theorem copyName_long (named : equals ∈ rest)
    (long : BUF_SIZE ≤ buf.length + (nameOf rest).length) :
    copyName buf rest = .error .outOfBounds := by
  induction rest generalizing buf with
  | nil => cases named
  | cons c rest ih =>
    rw [copyName]
    by_cases full : BUF_SIZE ≤ buf.length
    · rw [if_pos full]
    rw [if_neg full]
    by_cases ends : c = equals
    · rw [ends, nameOf_equals] at long
      exact absurd long full
    · rw [nameOf_cons ends, List.length_cons] at long
      have later := (List.mem_cons.mp named).resolve_left (Ne.symm ends)
      rw [if_neg ends, ih later (by rw [List.length_append, List.length_singleton]; omega)]

theorem matches_iff : strcmpBytes (nameOf entry.bytes) name.bytes = 0 ↔ Matches name entry := by
  have free : (0 : Byte) ∉ nameOf entry.bytes :=
    fun member => entry.nulFree ((List.takeWhile_prefix _).subset member)
  exact strcmpBytes_eq_zero free name.nulFree

/-! ### The search -/

theorem search_long {cells : Cells} (named : equals ∈ entry.bytes) (long : ¬ Short entry) :
    search name index (some entry :: cells) = .error .outOfBounds := by
  have copy : copyName [] entry.bytes = .error .outOfBounds := by
    refine copyName_long named ?_
    rw [List.length_nil, Nat.zero_add]
    exact Nat.not_lt.mp long
  rw [search, copy, error_bind]

theorem search_short {cells : Cells} (named : equals ∈ entry.bytes) (short : Short entry) :
    search name index (some entry :: cells) =
      if Matches name entry then .ok (some index)
      else if INT_MAX < index + 1 then .error .overflow
      else search name (index + 1) cells := by
  have copy : copyName [] entry.bytes = .ok (nameOf entry.bytes) := by
    refine copyName_short named ?_
    rw [List.length_nil, Nat.zero_add]
    exact short
  rw [search, copy, ok_bind]
  by_cases here : Matches name entry
  · rw [if_pos (matches_iff.mpr here), if_pos here]
  · rw [if_neg (matches_iff.not.mpr here), if_neg here]

/-- The entries that are to stay. -/
def others (name : CStr) (list : List CStr) : List CStr := list.filter fun entry => ¬ Matches name entry

theorem others_cons_of_matches (here : Matches name entry) :
    others name (entry :: list) = others name list :=
  List.filter_cons_of_neg (by simpa using here)

theorem others_cons (other : ¬ Matches name entry) :
    others name (entry :: list) = entry :: others name list :=
  List.filter_cons_of_pos (decide_eq_true other)

/-- The first entry of the name is found, or there is none, or the search leaves what C defines. -/
theorem search_cases (name : CStr) (tail : Cells) (named : ∀ entry ∈ list, equals ∈ entry.bytes)
    (small : index ≤ INT_MAX) :
    (∃ before entry after, list = before ++ entry :: after ∧ Matches name entry ∧ Short entry ∧
      index + before.length ≤ INT_MAX ∧
      search name index (memory list tail) = .ok (some (index + before.length))) ∨
    ((∀ entry ∈ list, ¬ Matches name entry ∧ Short entry) ∧ index + list.length ≤ INT_MAX ∧
      search name index (memory list tail) = .ok none) ∨
    (((∃ entry ∈ list, ¬ Short entry) ∨ INT_MAX < index + (others name list).length) ∧
      ∃ undefined, search name index (memory list tail) = .error undefined) := by
  induction list generalizing index with
  | nil => exact Or.inr (Or.inl ⟨nofun, by simpa using small, rfl⟩)
  | cons entry rest ih =>
    rw [List.forall_mem_cons] at named
    have cells : memory (entry :: rest) tail = some entry :: memory rest tail := rfl
    rw [cells]
    by_cases short : Short entry
    case neg =>
      exact Or.inr (Or.inr ⟨Or.inl ⟨entry, List.mem_cons_self, short⟩, _,
        search_long named.1 short⟩)
    rw [search_short named.1 short]
    by_cases here : Matches name entry
    · rw [if_pos here]
      exact Or.inl ⟨[], entry, rest, rfl, here, short, by simpa using small, rfl⟩
    rw [if_neg here]
    by_cases last : INT_MAX < (index : Int) + 1
    · rw [if_pos last]
      refine Or.inr (Or.inr ⟨Or.inr ?_, _, rfl⟩)
      rw [others_cons here, List.length_cons]
      omega
    rw [if_neg last]
    have next : ((index + 1 : Nat) : Int) ≤ INT_MAX := by omega
    rcases ih named.2 next with
      ⟨before, found, after, rfl, same, fits, inside, call⟩ | ⟨none, inside, call⟩ | ⟨fails, call⟩
    · refine Or.inl ⟨entry :: before, found, after, rfl, same, fits, ?_, ?_⟩
      · rw [List.length_cons]
        omega
      · rw [call, List.length_cons, Nat.add_right_comm, Nat.add_assoc]
    · refine Or.inr (Or.inl ⟨List.forall_mem_cons.mpr ⟨⟨here, short⟩, none⟩, ?_, call⟩)
      rw [List.length_cons]
      omega
    · refine Or.inr (Or.inr ⟨?_, call⟩)
      rcases fails with ⟨long, member, not_short⟩ | many
      · exact Or.inl ⟨long, List.mem_cons_of_mem _ member, not_short⟩
      · rw [others_cons here, List.length_cons]
        exact Or.inr (by omega)

/-! ### The removal -/

theorem get_here {pre post : Cells} {x : Option CStr} : (pre ++ x :: post)[pre.length]? = some x := by
  simp

theorem get_next {pre post : Cells} {x y : Option CStr} :
    (pre ++ x :: y :: post)[pre.length + 1]? = some y := by
  simp

theorem set_here {pre post : Cells} {x y : Option CStr} :
    (pre ++ x :: post).set pre.length y = pre ++ y :: post := by
  simp

/-- Each element behind the first one is moved up, and the last one becomes NULL. -/
theorem shift_loop (entry : CStr) (after : List CStr) (tail : Cells) {pre : Cells}
    (small : pre.length ≤ INT_MAX) :
    loop shift (after.length + 1) ⟨pre.length, pre.length, pre ++ some entry :: memory after tail⟩ =
      if INT_MAX < pre.length + after.length then some (.error .overflow)
      else some (.ok (pre ++ memory after (none :: tail))) := by
  induction after generalizing pre entry with
  | nil =>
    have last : shift ⟨pre.length, pre.length, pre ++ some entry :: memory [] tail⟩ =
        .error (.ok (pre ++ memory [] (none :: tail))) := by
      unfold shift memory
      dsimp only
      rw [get_here]
      dsimp only
      rw [List.map_nil, List.nil_append, get_next, set_here]
      rfl
    rw [List.length_nil, Nat.cast_zero, add_zero, if_neg (by omega)]
    exact loop_error last
  | cons next rest ih =>
    have cells : memory (next :: rest) tail = some next :: memory rest tail := rfl
    rw [cells]
    have step : shift ⟨pre.length, pre.length, pre ++ some entry :: some next :: memory rest tail⟩ =
        if INT_MAX < (pre.length : Int) + 1 then .error (.error .overflow)
        else .ok ⟨pre.length + 1, pre.length + 1, pre ++ some next :: some next :: memory rest tail⟩ := by
      unfold shift
      dsimp only
      rw [get_here]
      dsimp only
      rw [get_next]
      dsimp only
      rw [set_here]
    rw [List.length_cons, Nat.cast_succ]
    by_cases last : INT_MAX < (pre.length : Int) + 1
    · rw [if_pos last] at step
      rw [if_pos (by omega)]
      have ended := loop_error step
      exact Nat.add_comm _ _ ▸ loop_more ended
    · rw [if_neg last] at step
      have moved : (pre ++ [some next]).length = pre.length + 1 := by
        rw [List.length_append, List.length_singleton]
      have later := @ih next (pre ++ [some next]) (by rw [moved]; omega)
      rw [moved, Nat.cast_succ, add_assoc, add_comm 1, List.append_assoc, List.append_assoc,
        List.singleton_append, List.singleton_append] at later
      by_cases many : INT_MAX < (pre.length : Int) + (rest.length + 1)
      · rw [if_pos many] at later ⊢
        exact loop_ok step later
      · rw [if_neg many] at later ⊢
        exact loop_ok step later

theorem memory_append : memory (before ++ after) tail = before.map some ++ memory after tail := by
  rw [memory, List.map_append, List.append_assoc]
  rfl

/-- A round that has found the name. -/
theorem round_found (small : before.length ≤ INT_MAX)
    (found : search name 0 (memory (before ++ entry :: after) tail) = .ok (some before.length)) :
    round name (memory (before ++ entry :: after) tail) =
      if INT_MAX < before.length + after.length then .error (.error .overflow)
      else .ok (memory (before ++ after) (none :: tail)) := by
  have cells : memory (before ++ entry :: after) tail =
      before.map some ++ some entry :: memory after tail := memory_append
  have length : (before.map some).length = before.length := List.length_map _
  have inside : ((before.map some).length : Int) ≤ INT_MAX := by
    rw [length]
    exact small
  have shifted := shift_loop entry after tail inside
  rw [length] at shifted
  obtain ⟨more, enough⟩ : ∃ more, (memory (before ++ entry :: after) tail).length + 1 =
      after.length + 1 + more := by
    refine ⟨before.length + 2 + tail.length, ?_⟩
    simp only [memory, List.length_append, List.length_cons, List.length_map]
    omega
  unfold round
  rw [found]
  dsimp only
  rw [enough, cells, memory_append]
  by_cases many : INT_MAX < (before.length : Int) + after.length
  · rw [if_pos many] at shifted ⊢
    rw [loop_more shifted]
  · rw [if_neg many] at shifted ⊢
    rw [loop_more shifted]

/-! ### The whole call -/

/-- `index` can count the entries, and the local buffer has room for each name. -/
structure Countable (name : CStr) (list : List CStr) : Prop where
  short : ∀ entry ∈ list, Short entry
  moved : list.length ≤ INT_MAX + 1
  counted : (others name list).length ≤ INT_MAX

theorem others_removed (here : Matches name entry) :
    others name (before ++ entry :: after) = others name (before ++ after) := by
  unfold others
  rw [List.filter_append, List.filter_append]
  exact congrArg _ (others_cons_of_matches here)

theorem countable_removed (here : Matches name entry) (fits : Short entry)
    (moved : before.length + after.length ≤ INT_MAX) :
    Countable name (before ++ entry :: after) ↔ Countable name (before ++ after) := by
  have stay : others name (before ++ entry :: after) = others name (before ++ after) :=
    others_removed here
  have shorts : (∀ e ∈ before ++ entry :: after, Short e) ↔ ∀ e ∈ before ++ after, Short e := by
    rw [List.forall_mem_append, List.forall_mem_append, List.forall_mem_cons, and_iff_right fits]
  constructor
  · rintro ⟨short, _, counted⟩
    refine ⟨shorts.mp short, ?_, stay ▸ counted⟩
    rw [List.length_append, Nat.cast_add]
    omega
  · rintro ⟨short, _, counted⟩
    refine ⟨shorts.mpr short, ?_, stay ▸ counted⟩
    rw [List.length_append, List.length_cons, Nat.cast_add, Nat.cast_succ]
    omega

/-- The loop removes all entries of the name, or leaves what C defines. -/
theorem unset_cases (name : CStr) (list : List CStr) (tail : Cells)
    (named : ∀ entry ∈ list, equals ∈ entry.bytes) :
    (Countable name list ∧ ∃ fuel tail', loop (round name) fuel (memory list tail) =
      some (.ok (memory (others name list) tail'))) ∨
    (¬ Countable name list ∧ ∃ fuel undefined, loop (round name) fuel (memory list tail) =
      some (.error undefined)) := by
  induction count : list.length using Nat.strongRecOn generalizing list tail with
  | _ n ih =>
    subst count
    have zero : ((0 : Nat) : Int) ≤ INT_MAX := by decide
    rcases search_cases name tail named zero with
      ⟨before, entry, after, rfl, here, fits, small, found⟩ | ⟨unmatched, counted, found⟩ |
        ⟨fails, undefined, found⟩
    · rw [Nat.zero_add] at found
      rw [Nat.cast_zero, zero_add] at small
      have whole := round_found small found
      by_cases many : INT_MAX < (before.length : Int) + after.length
      · rw [if_pos many] at whole
        refine Or.inr ⟨?_, 1, _, loop_error whole⟩
        rintro ⟨_, moved, _⟩
        rw [List.length_append, List.length_cons, Nat.cast_add, Nat.cast_succ] at moved
        omega
      · rw [if_neg many] at whole
        have stay : others name (before ++ entry :: after) = others name (before ++ after) :=
          others_removed here
        rw [countable_removed here fits (Int.not_lt.mp many), stay]
        have shorter : (before ++ after).length < (before ++ entry :: after).length := by
          rw [List.length_append, List.length_append, List.length_cons]
          omega
        have left : ∀ e ∈ before ++ after, equals ∈ e.bytes := by
          rw [List.forall_mem_append, List.forall_mem_cons] at named
          exact List.forall_mem_append.mpr ⟨named.1, named.2.2⟩
        rcases ih _ shorter (before ++ after) (none :: tail) left rfl with
          ⟨countable, fuel, tail', later⟩ | ⟨uncountable, fuel, undefined, later⟩
        · exact Or.inl ⟨countable, fuel + 1, tail', loop_ok whole later⟩
        · exact Or.inr ⟨uncountable, fuel + 1, undefined, loop_ok whole later⟩
    · have all : others name list = list :=
        List.filter_eq_self.mpr fun entry member => decide_eq_true (unmatched entry member).1
      rw [Nat.cast_zero, zero_add] at counted
      have last : round name (memory list tail) = .error (.ok (memory list tail)) := by
        rw [round, found]
      refine Or.inl ⟨⟨fun entry member => (unmatched entry member).2, by omega, ?_⟩, 1, tail, ?_⟩
      · rw [all]
        exact counted
      · rw [all]
        exact loop_error last
    · have last : round name (memory list tail) = .error (.error undefined) := by
        rw [round, found]
      refine Or.inr ⟨?_, 1, undefined, loop_error last⟩
      rintro ⟨short, _, counted⟩
      rcases fails with ⟨entry, member, long⟩ | many
      · exact long (short entry member)
      · rw [Nat.cast_zero, zero_add] at many
        omega

/-- The call ends, and leaves the entries of the other names in their order. -/
def Unsets (name : CStr) (list : List CStr) (tail : Cells) : Prop :=
  ∃ fuel cells, unsetenvClone name fuel (some (memory list tail)) = some (.ok (some cells)) ∧
    entries cells = list.filter fun entry => nameOf entry.bytes ≠ name.bytes

theorem unsets_countable (tail : Cells) (named : ∀ entry ∈ list, equals ∈ entry.bytes) :
    Unsets name list tail ↔ Countable name list := by
  constructor
  · rintro ⟨fuel, cells, call, _⟩
    rcases unset_cases name list tail named with ⟨countable, _⟩ | ⟨_, more, undefined, fails⟩
    · exact countable
    obtain ⟨ending, ended, result⟩ := Option.map_eq_some_iff.mp call
    obtain rfl := loop_unique ended fails
    cases result
  · intro countable
    rcases unset_cases name list tail named with ⟨_, fuel, left, call⟩ | ⟨uncountable, _⟩
    · refine ⟨fuel, memory (others name list) left, ?_, entries_memory⟩
      rw [unsetenvClone, call]
      rfl
    · exact absurd countable uncountable

theorem countable_iff :
    Countable name list ↔ (∀ entry ∈ list, Short entry) ∧ ((list.length : Int) ≤ INT_MAX ∨
      (list.length = INT_MAX + 1 ∧ ∃ entry ∈ list, Matches name entry)) := by
  have sublist : (others name list).length ≤ list.length := List.length_filter_le _ _
  constructor
  · rintro ⟨short, moved, counted⟩
    refine ⟨short, ?_⟩
    by_cases fits : (list.length : Int) ≤ INT_MAX
    · exact Or.inl fits
    refine Or.inr ⟨by omega, ?_⟩
    by_contra unmatched
    push Not at unmatched
    have all : others name list = list :=
      List.filter_eq_self.mpr fun entry member => decide_eq_true (unmatched entry member)
    rw [all] at counted
    exact fits counted
  · rintro ⟨short, fits | ⟨one_more, entry, member, here⟩⟩
    · exact ⟨short, by omega, by omega⟩
    · have fewer : (others name list).length < list.length :=
        List.length_filter_lt_length_iff_exists.mpr ⟨entry, member, by simpa using here⟩
      exact ⟨short, one_more.le, by omega⟩

/-- The call removes the name from every environment that `index` can count. -/
theorem unsets_iff (name : CStr) (list : List CStr) (tail : Cells)
    (named : ∀ entry ∈ list, equals ∈ entry.bytes) (short : ∀ entry ∈ list, Short entry) :
    Unsets name list tail ↔ (list.length : Int) ≤ INT_MAX ∨
      (list.length = INT_MAX + 1 ∧ ∃ entry ∈ list, nameOf entry.bytes = name.bytes) :=
  (unsets_countable tail named).trans (countable_iff.trans (and_iff_right short))

/-- `a=1`, `b=` and `a=` -/
theorem unsets_both : Unsets ⟨[97], by decide⟩
    [⟨[97, 61, 49], by decide⟩, ⟨[98, 61], by decide⟩, ⟨[97, 61], by decide⟩] [] :=
  (unsets_iff _ _ _ (by decide) (by decide)).mpr (Or.inl (by decide))

/-- As many entries as `int` has numbers from 0 on, and none of the name. -/
theorem too_many_entries : ¬ ∀ (name : CStr) (list : List CStr) (tail : Cells),
    (∀ entry ∈ list, equals ∈ entry.bytes) → (∀ entry ∈ list, Short entry) →
      Unsets name list tail := by
  intro all
  let entry : CStr := ⟨[98, 61], by decide⟩
  have only : ∀ n, ∀ e ∈ List.replicate n entry, e = entry :=
    fun n e member => List.eq_of_mem_replicate member
  have named : ∀ n, ∀ e ∈ List.replicate n entry, equals ∈ e.bytes :=
    fun n e member => only n e member ▸ (by decide)
  have short : ∀ n, ∀ e ∈ List.replicate n entry, Short e :=
    fun n e member => only n e member ▸ (by decide)
  have counted := countable_iff.mp ((unsets_countable [] (named _)).mp
    (all ⟨[97], by decide⟩ (List.replicate (INT_MAX.toNat + 1) entry) [] (named _) (short _)))
  rcases counted.2 with fits | ⟨_, e, member, here⟩
  · rw [List.length_replicate] at fits
    have limit : (0 : Int) ≤ INT_MAX := by decide
    omega
  · rw [only _ e member] at here
    exact absurd here (by decide)

end Tlpi.Setenv
