import TlpiExercises.GetLine.Model

/-!
# Readers of lines

A reader holds the text that it has read, and takes the next byte if it gets room for it. What it returns
depends on the stream and on the number of bytes at which there is no more room.
-/

namespace Tlpi.GetLine

open Loop DynamicArray

/-- What is read before a newline, the end of the stream or a failure. -/
structure IsLine (input : Input) (body : List UInt8) : Prop where
  bytes : ∀ k (h : k < body.length), input.read k = .byte body[k]
  inside : NEWLINE ∉ body
  stop : ∀ c, input.read body.length = .byte c → c = NEWLINE

def lineResult (input : Input) (body : List UInt8) : Returned :=
  match input.read body.length with
  | .failed => ⟨none, body.length⟩
  | .eof => ⟨some body, body.length⟩
  | .byte _ => ⟨some body, body.length + 1⟩

/-- The same for any bytes: the string ends at its first NUL. -/
def textResult (input : Input) (body : List UInt8) : Returned :=
  { lineResult input body with
    string := (lineResult input body).string.map fun text => text.takeWhile (· ≠ 0) }

/-- Every request of at most `PTRDIFF_MAX` bytes is granted. -/
def Grants (alloc : Allocator) : Prop := ∀ n, (alloc n).isSome

/-! ### A reader -/

section

variable {S : Type} (input : Input) (round : S → Except (Except Fault Returned) S)
  (At : List UInt8 → S → Prop)

/-- A round with room for a byte more. -/
def Proceeds (text : List UInt8) (s : S) : Prop :=
  match input.read text.length with
  | .failed => round s = .error (.ok ⟨none, text.length⟩)
  | .eof => round s = .error (.ok ⟨some (text.takeWhile (· ≠ 0)), text.length⟩)
  | .byte c =>
    if c = NEWLINE then round s = .error (.ok ⟨some (text.takeWhile (· ≠ 0)), text.length + 1⟩)
    else ∃ t, round s = .ok t ∧ At (text ++ [c]) t

def Refuses (text : List UInt8) (s : S) : Prop := round s = .error (.ok ⟨none, text.length⟩)

variable {input round At}

/-- What is done with the room that there is stays in it. -/
theorem reader_safe (reader : ∀ text s, At text s → Refuses round text s ∨ Proceeds input round At text s)
    {text : List UInt8} {s : S} (start : At text s) {fuel : Nat} (fault : Fault) :
    loop round fuel s ≠ some (.error fault) := by
  intro ended
  have keeps : ∀ s t, (∃ text, At text s) → round s = .ok t → ∃ text, At text t := by
    rintro s t ⟨text, now⟩ next
    rcases reader text s now with refuses | proceeds
    · cases refuses.symm.trans next
    · unfold Proceeds at proceeds
      split at proceeds
      · cases proceeds.symm.trans next
      · cases proceeds.symm.trans next
      · split at proceeds
        · cases proceeds.symm.trans next
        · obtain ⟨u, same, later⟩ := proceeds
          obtain rfl := Except.ok.inj (same.symm.trans next)
          exact ⟨_, later⟩
  obtain ⟨t, ⟨text, now⟩, stops⟩ := loop_invariant keeps ⟨text, start⟩ ended
  rcases reader text t now with refuses | proceeds
  · cases refuses.symm.trans stops
  · unfold Proceeds at proceeds
    split at proceeds
    · cases proceeds.symm.trans stops
    · cases proceeds.symm.trans stops
    · split at proceeds
      · cases proceeds.symm.trans stops
      · obtain ⟨u, same, _⟩ := proceeds
        cases same.symm.trans stops

variable {limit : Nat} {body : List UInt8} {s : S}

theorem proceeds_next (line : IsLine input body) {k : Nat} (before : k < body.length)
    (proceeds : Proceeds input round At (body.take k) s) :
    ∃ t, round s = .ok t ∧ At (body.take (k + 1)) t := by
  have length : (body.take k).length = k := List.length_take_of_le (Nat.le_of_lt before)
  have ordinary : body[k] ≠ NEWLINE := fun newline => line.inside (newline ▸ List.getElem_mem before)
  unfold Proceeds at proceeds
  rw [length, line.bytes k before] at proceeds
  dsimp only at proceeds
  rw [if_neg ordinary, List.take_append_getElem before] at proceeds
  exact proceeds

theorem reader_next (room : ∀ text s, At text s → text.length < limit → Proceeds input round At text s)
    (line : IsLine input body) {k : Nat} (before : k < body.length) (possible : k < limit)
    (now : At (body.take k) s) : ∃ t, round s = .ok t ∧ At (body.take (k + 1)) t := by
  have length : (body.take k).length = k := List.length_take_of_le (Nat.le_of_lt before)
  exact proceeds_next line before (room (body.take k) s now (by omega))

/-- The round behind the last byte of a line. -/
theorem reader_end (line : IsLine input body) (proceeds : Proceeds input round At body s) :
    round s = .error (.ok (textResult input body)) := by
  unfold Proceeds at proceeds
  unfold textResult lineResult
  cases stop : input.read body.length with
  | failed =>
    rw [stop] at proceeds
    exact proceeds
  | eof =>
    rw [stop] at proceeds
    exact proceeds
  | byte c =>
    rw [stop] at proceeds
    exact (if_pos (line.stop c stop)).mp proceeds

/-- Below the limit the line is returned. -/
theorem reader_text (room : ∀ text s, At text s → text.length < limit → Proceeds input round At text s)
    (line : IsLine input body) (short : body.length < limit) (start : At [] s) :
    ∃ fuel, loop round fuel s = some (.ok (textResult input body)) := by
  have goes_on : ∀ k s, k < body.length → At (body.take k) s →
      ∃ t, round s = .ok t ∧ At (body.take (k + 1)) t :=
    fun k s before now => reader_next room line before (by omega) now
  refine loop_counts goes_on (fun s now => ?_) (Nat.zero_le body.length) start
  rw [List.take_length] at now
  exact reader_end line (room body s now short)

theorem textResult_nulFree (input : Input) {body : List UInt8} (nulFree : 0 ∉ body) :
    textResult input body = lineResult input body := by
  have whole : body.takeWhile (· ≠ 0) = body := CStr.ofBytes_free nulFree
  unfold textResult lineResult
  cases input.read body.length with
  | failed => rfl
  | eof => rw [Option.map_some, whole]
  | byte c => rw [Option.map_some, whole]

theorem reader_line (room : ∀ text s, At text s → text.length < limit → Proceeds input round At text s)
    (line : IsLine input body) (nulFree : 0 ∉ body) (short : body.length < limit) (start : At [] s) :
    ∃ fuel, loop round fuel s = some (.ok (lineResult input body)) := by
  rw [← textResult_nulFree input nulFree]
  exact reader_text room line short start

/-- Whatever is refused on the way, NULL or the line is returned. -/
theorem reader_returns
    (reader : ∀ text s, At text s → Refuses round text s ∨ Proceeds input round At text s)
    (full : ∀ text s, At text s → text.length = limit → Refuses round text s)
    (line : IsLine input body) {k : Nat} (below : k ≤ body.length) (possible : k ≤ limit)
    (now : At (body.take k) s) : ∃ fuel returned, loop round fuel s = some (.ok returned) ∧
      (returned.string = none ∨ body.length < limit ∧ returned = textResult input body) := by
  induction rest : body.length - k generalizing k s with
  | zero =>
    obtain rfl : k = body.length := by omega
    rw [List.take_length] at now
    by_cases last : body.length = limit
    · exact ⟨1, _, loop_error (full body s now last), Or.inl rfl⟩
    · rcases reader body s now with refuses | proceeds
      · exact ⟨1, _, loop_error refuses, Or.inl rfl⟩
      · exact ⟨1, _, loop_error (reader_end line proceeds), Or.inr ⟨by omega, rfl⟩⟩
  | succ n ih =>
    have before : k < body.length := by omega
    have length : (body.take k).length = k := List.length_take_of_le below
    by_cases last : k = limit
    · exact ⟨1, _, loop_error (full _ s now (length.trans last)), Or.inl rfl⟩
    · rcases reader (body.take k) s now with refuses | proceeds
      · exact ⟨1, _, loop_error refuses, Or.inl rfl⟩
      · obtain ⟨t, next, later⟩ := proceeds_next line before proceeds
        obtain ⟨fuel, returned, ended, result⟩ := ih (by omega) (by omega) later (by omega)
        exact ⟨fuel + 1, returned, loop_ok next ended, result⟩

/-- At the limit NULL is returned. -/
theorem reader_refuses (room : ∀ text s, At text s → text.length < limit → Proceeds input round At text s)
    (full : ∀ text s, At text s → text.length = limit → Refuses round text s)
    (line : IsLine input body) (long : limit ≤ body.length) (start : At [] s) :
    ∃ fuel, loop round fuel s = some (.ok ⟨none, limit⟩) := by
  have goes_on : ∀ k s, k < limit → At (body.take k) s →
      ∃ t, round s = .ok t ∧ At (body.take (k + 1)) t :=
    fun k s before now => reader_next room line (by omega) before now
  refine loop_counts goes_on (fun s now => ?_) (Nat.zero_le limit) start
  have length : (body.take limit).length = limit := List.length_take_of_le long
  have refuses := full (body.take limit) s now length
  unfold Refuses at refuses
  rwa [length] at refuses

end

/-! ### Strings -/

theorem takeWhile_nul (text rest : List UInt8) :
    (text ++ 0 :: rest).takeWhile (· ≠ 0) = text.takeWhile (· ≠ 0) := by
  induction text with
  | nil => rfl
  | cons c text ih =>
    rw [List.cons_append, List.takeWhile_cons, List.takeWhile_cons, ih]

theorem stringAt_nul (text rest : List UInt8) (consumed : Nat) :
    stringAt (text ++ 0 :: rest) consumed = .ok ⟨some (text.takeWhile (· ≠ 0)), consumed⟩ := by
  unfold stringAt
  rw [if_pos (List.mem_append_right text List.mem_cons_self), takeWhile_nul]

end Tlpi.GetLine
