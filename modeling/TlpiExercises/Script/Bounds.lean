import TlpiExercises.Library.Fields
import TlpiExercises.Script.RoundTrip

/-!
# The bounds of the player

The player looks for no bound of `ms` and for no element before the one that it un-escapes. Where it
goes wrong is decided by the records of the file: `Reaches` follows those that it can play.
-/

namespace Tlpi.Script

open Fields

/-- What `ms` holds of the bytes before the space: a NUL is overwritten by the next byte. -/
def visible (text : List UInt8) : List UInt8 := text.filter (· ≠ 0)

/-- The number before a record. -/
def recordMs (text : List UInt8) : Option Int := GetNum.getInt (visible text) GetNum.GN_NONNEG

/-- The file from a later record on, and the time of the record before it. Every record on the way has
a number, which is not below the one before. -/
inductive Reaches (startMs : Int) (start : List UInt8) : Int → List UInt8 → Prop where
  | start : Reaches startMs start startMs start
  | next {lastMs ms : Int} {text string file : List UInt8}
      (reached : Reaches startMs start lastMs (text ++ SPACE :: (string ++ NEWLINE :: file)))
      (spaceFree : SPACE ∉ text) (lineFree : NEWLINE ∉ string) (number : recordMs text = some ms)
      (later : lastMs ≤ ms) : Reaches startMs start ms file

/-- There is a byte behind as many as `ms` holds. -/
def FillsMs (file : List UInt8) : Prop := 100 ≤ (visible (before SPACE file.dropLast)).length

/-- The string of a record that the player waits for starts with an 'n'. -/
def LeadsWithN (lastMs : Int) (file : List UInt8) : Prop :=
  ∃ (text rest : List UInt8) (ms : Int), file = text ++ SPACE :: LETTER_N :: rest ∧ SPACE ∉ text ∧
    recordMs text = some ms ∧ lastMs ≤ ms

/-- The player stays inside of `ms` and of its strings. -/
def InBounds (file : List UInt8) : Prop := ∀ fault, replayScript file ≠ .error (.fault fault)

/-! ### The number -/

theorem visible_cons (c : UInt8) (text : List UInt8) :
    visible (c :: text) = (if c = 0 then [] else [c]) ++ visible text := by
  unfold visible
  by_cases nul : c = 0
  · rw [if_pos nul, List.nil_append, List.filter_cons_of_neg (by simpa using nul)]
  · rw [if_neg nul, List.filter_cons_of_pos (by simpa using nul)]
    rfl

theorem appendMs_room {ms : List UInt8} (c : UInt8) (room : ms.length < 100) :
    appendMs ms c = .ok (ms ++ if c = 0 then [] else [c]) := by
  rw [appendMs, if_pos room]
  split
  · rw [List.append_nil]
  · rfl

theorem readMs_room {ms text : List UInt8} (rest : List UInt8) (free : SPACE ∉ text)
    (room : ms.length + (visible text).length < 100) :
    readMs ms (text ++ rest) = readMs (ms ++ visible text) rest := by
  induction text generalizing ms with
  | nil =>
    rw [visible, List.filter_nil, List.append_nil]
    rfl
  | cons c text ih =>
    rw [List.mem_cons, not_or] at free
    rw [visible_cons, List.length_append] at room
    rw [List.cons_append, readMs, if_neg (Ne.symm free.1), appendMs_room c (by omega)]
    dsimp only
    rw [ih free.2 (by rw [List.length_append]; omega), visible_cons, List.append_assoc]

/-- A full `ms` has no place for another byte, and none for the terminator. -/
theorem readMs_full {ms text : List UInt8} (c : UInt8) (rest : List UInt8) (free : SPACE ∉ text)
    (full : 100 ≤ ms.length + (visible text).length) :
    readMs ms (text ++ c :: rest) = .error .outOfBounds ∨
      ∃ filled, readMs ms (text ++ c :: rest) = .ok (some (filled, rest)) ∧ 100 ≤ filled.length := by
  induction text generalizing ms with
  | nil =>
    rw [List.nil_append, readMs]
    by_cases space : c = SPACE
    · rw [if_pos space]
      exact Or.inr ⟨ms, rfl, full⟩
    · have noRoom : ¬ ms.length < 100 := Nat.not_lt.mpr full
      rw [if_neg space, appendMs, if_neg noRoom]
      exact Or.inl rfl
  | cons d text ih =>
    rw [List.mem_cons, not_or] at free
    rw [visible_cons, List.length_append] at full
    rw [List.cons_append, readMs, if_neg (Ne.symm free.1)]
    by_cases room : ms.length < 100
    · rw [appendMs_room d room]
      exact ih free.2 (by rw [List.length_append]; omega)
    · rw [appendMs, if_neg room]
      exact Or.inl rfl

/-! ### The string -/

/-- Behind the first byte, the player always finds the element that it looks at. -/
theorem readString_safe (string : List UInt8) {file : List UInt8}
    (safe : string ≠ [] ∨ file.head? ≠ some LETTER_N) :
    ∃ s, readString string file = .ok (s, (after NEWLINE file).tail, decide (NEWLINE ∉ file)) := by
  induction file generalizing string with
  | nil => exact ⟨string, rfl⟩
  | cons c file ih =>
    by_cases newline : c = NEWLINE
    · rw [readString, if_pos newline, newline, after_sep]
      exact ⟨string, by simp⟩
    · have onward (string : List UInt8) (nonempty : string ≠ []) :
          ∃ s, readString string file =
            .ok (s, (after NEWLINE (c :: file)).tail, decide (NEWLINE ∉ c :: file)) := by
        have free : NEWLINE ∉ c :: file ↔ NEWLINE ∉ file := by
          rw [List.mem_cons, not_or]
          exact and_iff_right (Ne.symm newline)
        rw [after_cons newline, decide_eq_decide.mpr free]
        exact ih string (Or.inl nonempty)
      rw [readString, if_neg newline]
      split
      · rename_i isN
        cases present : string.getLast? with
        | none =>
          have empty : string = [] := List.getLast?_eq_none_iff.mp present
          exact absurd (congrArg some isN) (safe.resolve_left (not_not.mpr empty))
        | some last =>
          dsimp only
          split
          · exact onward _ (by simp)
          · exact onward _ (by simp)
      · exact onward _ (by simp)

/-! ### One record -/

theorem before_dropLast {text : List UInt8} (free : SPACE ∉ text) (rest : List UInt8) :
    before SPACE (text ++ SPACE :: rest).dropLast = text := by
  rw [List.dropLast_append_of_ne_nil (List.cons_ne_nil _ _)]
  cases rest with
  | nil =>
    rw [List.dropLast_singleton, List.append_nil]
    exact before_eq_self free
  | cons c rest =>
    rw [List.dropLast_cons_of_ne_nil (List.cons_ne_nil _ _)]
    exact before_append free _

/-- Bytes that fill `ms` end the player in one of its accesses. -/
theorem replay_fills (lastMs : Int) (printed : List UInt8) {file : List UInt8} (fills : FillsMs file) :
    ∃ fault, replay lastMs printed file = .error (.fault fault) := by
  have nonempty : file ≠ [] := by
    intro empty
    rw [FillsMs, empty] at fills
    exact absurd fills (by decide)
  have parts : file = before SPACE file.dropLast ++ (after SPACE file.dropLast ++ [file.getLast nonempty]) := by
    rw [← List.append_assoc, before_append_after, List.dropLast_append_getLast]
  obtain ⟨c, rest, behind⟩ := List.exists_cons_of_ne_nil
    (List.append_ne_nil_of_right_ne_nil (after SPACE file.dropLast) (List.cons_ne_nil (file.getLast nonempty) []))
  rw [behind] at parts
  have full : 100 ≤ ([] : List UInt8).length + (visible (before SPACE file.dropLast)).length := by
    rw [List.length_nil, Nat.zero_add]
    exact fills
  have read := readMs_full c rest (before_free _) full
  rw [← parts] at read
  rw [replay]
  rcases read with read | ⟨filled, read, long⟩
  · split
    · exact ⟨_, rfl⟩
    · rename_i other
      rw [read] at other
      cases other
    · rename_i other
      rw [read] at other
      cases other
  · split
    · exact ⟨_, rfl⟩
    · rename_i other
      rw [read] at other
      cases other
    · rename_i other
      rw [read] at other
      cases other
      have noRoom : ¬ filled.length < 100 := Nat.not_lt.mpr long
      rw [appendMs, if_neg noRoom]
      exact ⟨_, rfl⟩

/-- A file without another space ends the player. -/
theorem replay_last (lastMs : Int) (printed : List UInt8) {file : List UInt8} (free : SPACE ∉ file)
    (fits : ¬ FillsMs file) : replay lastMs printed file = .ok printed := by
  apply replay_of_eof
  rcases List.eq_nil_or_concat' file with rfl | ⟨text, c, rfl⟩
  · rfl
  · rw [List.mem_append, List.mem_singleton, not_or] at free
    rw [FillsMs, List.dropLast_concat, before_eq_self free.1] at fits
    have room : (visible text).length < 100 := Nat.not_le.mp fits
    rw [readMs_room [c] free.1 (by rw [List.length_nil]; omega), List.nil_append, readMs,
      if_neg (Ne.symm free.2), appendMs_room c room]
    rfl

theorem replay_number (lastMs : Int) (printed : List UInt8) {text : List UInt8} (free : SPACE ∉ text)
    (rest : List UInt8) (fits : ¬ FillsMs (text ++ SPACE :: rest)) :
    replay lastMs printed (text ++ SPACE :: rest) =
      match recordMs text with
      | none => .error (.exit printed)
      | some ms =>
        if lastMs ≤ ms then
          match readString [] rest with
          | .error fault => .error (.fault fault)
          | .ok (s, _, true) => .ok (printed ++ s)
          | .ok (s, rest, false) => replay ms (printed ++ s) rest
        else .error (.exit printed) := by
  rw [FillsMs, before_dropLast free] at fits
  have room : (visible text).length < 100 := Nat.not_le.mp fits
  have read : readMs [] (text ++ SPACE :: rest) = .ok (some (visible text, rest)) := by
    rw [readMs_room _ free (by rw [List.length_nil]; omega), List.nil_append, readMs, if_pos rfl]
  rw [replay_of_readMs read room]
  simp only [nanosleepValid_iff, sub_nonneg]
  rfl

/-- A record whose string starts with an 'n' is played into the access before the string. -/
theorem replay_leads {lastMs : Int} (printed : List UInt8) {file : List UInt8} (fits : ¬ FillsMs file)
    (leads : LeadsWithN lastMs file) : replay lastMs printed file = .error (.fault .outOfBounds) := by
  obtain ⟨text, rest, ms, rfl, free, number, later⟩ := leads
  have other : LETTER_N ≠ NEWLINE := by decide
  rw [replay_number lastMs printed free _ fits, number]
  dsimp only
  rw [if_pos later, readString, if_neg other, if_pos rfl]
  rfl

/-- A whole record is played, and the next one is next. -/
theorem replay_next {lastMs ms : Int} (printed : List UInt8) {text string : List UInt8} (file : List UInt8)
    (spaceFree : SPACE ∉ text) (lineFree : NEWLINE ∉ string) (number : recordMs text = some ms)
    (later : lastMs ≤ ms) (fits : ¬ FillsMs (text ++ SPACE :: (string ++ NEWLINE :: file)))
    (safe : ¬ LeadsWithN lastMs (text ++ SPACE :: (string ++ NEWLINE :: file))) :
    ∃ s, replay lastMs printed (text ++ SPACE :: (string ++ NEWLINE :: file)) =
      replay ms (printed ++ s) file := by
  have first : (string ++ NEWLINE :: file).head? ≠ some LETTER_N := by
    intro isN
    obtain ⟨rest, whole⟩ := List.head?_eq_some_iff.mp isN
    exact safe ⟨text, rest, ms, by rw [whole], spaceFree, number, later⟩
  obtain ⟨s, read⟩ := readString_safe [] (Or.inr first)
  have more : decide (NEWLINE ∉ string ++ NEWLINE :: file) = false := by simp
  rw [after_append lineFree, List.tail_cons, more] at read
  refine ⟨s, ?_⟩
  rw [replay_number lastMs printed spaceFree _ fits, number]
  dsimp only
  rw [if_pos later, read]

/-! ### The whole file -/

/-- No fault, whatever has been printed before. -/
def Inside (lastMs : Int) (file : List UInt8) : Prop :=
  ∃ printed, ∀ fault, replay lastMs printed file ≠ .error (.fault fault)

theorem inside_safe {lastMs : Int} {file : List UInt8} (inside : Inside lastMs file) :
    ¬ FillsMs file ∧ ¬ LeadsWithN lastMs file := by
  obtain ⟨printed, never⟩ := inside
  have fits : ¬ FillsMs file := by
    intro fills
    obtain ⟨fault, result⟩ := replay_fills lastMs printed fills
    exact never fault result
  exact ⟨fits, fun leads => never _ (replay_leads printed fits leads)⟩

/-- A file that is played inside the bounds is so from every record on. -/
theorem inside_reaches {startMs lastMs : Int} {start file : List UInt8} (inside : Inside startMs start)
    (reached : Reaches startMs start lastMs file) : Inside lastMs file := by
  induction reached with
  | start => exact inside
  | next reached spaceFree lineFree number later ih =>
    obtain ⟨fits, safe⟩ := inside_safe ih
    obtain ⟨printed, never⟩ := ih
    obtain ⟨s, played⟩ := replay_next printed _ spaceFree lineFree number later fits safe
    exact ⟨printed ++ s, fun fault => played ▸ never fault⟩

theorem reaches_trans {startMs lastMs ms : Int} {start file rest : List UInt8}
    (reached : Reaches startMs start lastMs file) (further : Reaches lastMs file ms rest) :
    Reaches startMs start ms rest := by
  induction further with
  | start => exact reached
  | next _ spaceFree lineFree number later ih => exact .next ih spaceFree lineFree number later

/-- The player ends at a record, or gets to the one behind it. -/
theorem replay_round {lastMs : Int} (printed : List UInt8) {file : List UInt8} (fits : ¬ FillsMs file)
    (safe : ¬ LeadsWithN lastMs file) :
    (∀ fault, replay lastMs printed file ≠ .error (.fault fault)) ∨
      ∃ ms s next, Reaches lastMs file ms next ∧ next.length < file.length ∧
        replay lastMs printed file = replay ms (printed ++ s) next := by
  by_cases ends : SPACE ∈ file
  · obtain ⟨text, rest, rfl, spaceFree⟩ := List.eq_append_cons_of_mem ends
    cases number : recordMs text with
    | none =>
      refine Or.inl fun fault same => ?_
      rw [replay_number lastMs printed spaceFree _ fits, number] at same
      cases same
    | some ms =>
      by_cases later : lastMs ≤ ms
      · by_cases line : NEWLINE ∈ rest
        · obtain ⟨string, next, rfl, lineFree⟩ := List.eq_append_cons_of_mem line
          obtain ⟨s, played⟩ := replay_next printed next spaceFree lineFree number later fits safe
          refine Or.inr ⟨ms, s, next, .next .start spaceFree lineFree number later, ?_, played⟩
          simp only [List.length_append, List.length_cons]
          omega
        · have first : rest.head? ≠ some LETTER_N := by
            intro isN
            obtain ⟨behind, rfl⟩ := List.head?_eq_some_iff.mp isN
            exact safe ⟨text, behind, ms, rfl, spaceFree, number, later⟩
          obtain ⟨s, read⟩ := readString_safe [] (Or.inr first)
          rw [decide_eq_true line] at read
          refine Or.inl fun fault same => ?_
          rw [replay_number lastMs printed spaceFree _ fits, number] at same
          dsimp only at same
          rw [if_pos later, read] at same
          cases same
      · refine Or.inl fun fault same => ?_
        rw [replay_number lastMs printed spaceFree _ fits, number] at same
        dsimp only at same
        rw [if_neg later] at same
        cases same
  · refine Or.inl fun fault same => ?_
    rw [replay_last lastMs printed ends fits] at same
    cases same

/-- Where every record that is reached is safe, the player ends without a fault. -/
theorem inside_of_safe {lastMs : Int} {file : List UInt8}
    (safe : ∀ ms rest, Reaches lastMs file ms rest → ¬ FillsMs rest ∧ ¬ LeadsWithN ms rest)
    (printed : List UInt8) (fault : Fault) : replay lastMs printed file ≠ .error (.fault fault) := by
  induction left : file.length using Nat.strongRecOn generalizing lastMs file printed with
  | _ k ih =>
    subst left
    obtain ⟨fits, noN⟩ := safe _ _ .start
    rcases replay_round printed fits noN with ended | ⟨ms, s, next, reached, shorter, played⟩
    · exact ended fault
    · rw [played]
      apply ih next.length shorter _ _ rfl
      intro ms' rest further
      exact safe _ _ (reaches_trans reached further)

/-- The player stays inside of its buffers exactly for the files in which no record that is reached has
too much before its space, or an 'n' as the first byte of a string that is to be shown. -/
theorem inBounds_iff (file : List UInt8) :
    InBounds file ↔
      ∀ lastMs rest, Reaches 0 file lastMs rest → ¬ FillsMs rest ∧ ¬ LeadsWithN lastMs rest :=
  ⟨fun inside _ _ reached => inside_safe (inside_reaches ⟨[], inside⟩ reached),
    fun safe => inside_of_safe safe []⟩

/-- The recorded output of a program that prints an 'n'. -/
theorem recorded_n_fails :
    ¬ InBounds (recordSession ⟨0, 0⟩ [(⟨0, 0⟩, ⟨[LETTER_N], by decide, by decide, by decide⟩)]) := by
  intro inside
  have now : elapsedMs ⟨0, 0⟩ ⟨0, 0⟩ = 0 := by decide
  have first : unescape [] [LETTER_N] = none := rfl
  apply inside .outOfBounds
  rw [recordSession, replayScript, replay_record, now, if_pos (by decide), first]

end Tlpi.Script
