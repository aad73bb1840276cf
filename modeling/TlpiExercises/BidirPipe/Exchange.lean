import TlpiExercises.BidirPipe.Model

/-!
# Lines there and back

Of parent and child just one can go on at a time, so that a pipe never holds more than one string. The
parent prints the letters of each line in upper case, up to a line that begins with a NUL.
-/

namespace Tlpi.BidirPipe

open Transitions CharArray

variable {s t : State} {text stdin : List UInt8}

/-- The input as the calls of `fgets` divide it. -/
def lines (stdin : List UInt8) : List (List UInt8) :=
  match _h : fgets (BUF_SIZE - 1) stdin with
  | none => []
  | some line => line.1 :: lines (stdin.drop line.1.length)
termination_by stdin.length
decreasing_by
  obtain ⟨some_, _, line⟩ := fgets_some _h
  have positive := List.length_pos_iff.mpr (line (by decide))
  have stdin := List.length_pos_iff.mpr some_
  rw [List.length_drop]
  omega

/-- What is printed for a line. -/
def answer (line : List UInt8) : List UInt8 := (lineOf (line.takeWhile (· ≠ 0))).map toupper

/-- A line that is not an empty string. -/
def text? (line : List UInt8) : Bool := decide (line.takeWhile (· ≠ 0) ≠ [])

def answers (stdin : List UInt8) : List (List UInt8) := ((lines stdin).takeWhile text?).map answer

def Clean (stdin : List UInt8) : Prop := ∀ line ∈ lines stdin, text? line = true

theorem lines_end : lines [] = [] := by
  rw [lines]
  rfl

theorem lines_line {line : { line : List UInt8 // line.length < BUF_SIZE - 1 + 1 }}
    (read : fgets (BUF_SIZE - 1) stdin = some line) :
    lines stdin = line.1 :: lines (stdin.drop line.1.length) := by
  rw [lines]
  split
  · rename_i none
    cases none.symm.trans read
  · rename_i other same
    obtain rfl := Option.some.inj (same.symm.trans read)
    rfl

theorem toupper_ne_zero {c : UInt8} (some_ : c ≠ 0) : toupper c ≠ 0 := by
  unfold toupper
  split
  · rename_i letter
    intro zero
    have low := UInt8.le_iff_toNat_le.mp letter.1
    have high := UInt8.le_iff_toNat_le.mp letter.2
    have difference := congrArg UInt8.toNat zero
    rw [UInt8.toNat_sub] at difference
    simp at low high difference
    omega
  · exact some_

theorem map_toupper (nulFree : (0 : UInt8) ∉ text) : (0 : UInt8) ∉ text.map toupper := by
  intro zero
  obtain ⟨c, member, same⟩ := List.mem_map.mp zero
  exact toupper_ne_zero (fun none => nulFree (none ▸ member)) same

/-- An array that holds a string. -/
structure Holds {n : Nat} (a : CharArray n) (text : List UInt8) : Prop where
  terminated : a.terminated = true
  bytes : a.text.bytes = text

theorem Holds.of {n : Nat} {a : CharArray n} {v : List UInt8} (nulFree : (0 : UInt8) ∉ text)
    (bytes : a.1 = text ++ 0 :: v) : Holds a text :=
  ⟨(CharArray.holds nulFree bytes).1, (CharArray.holds nulFree bytes).2⟩

theorem Holds.nulFree {n : Nat} {a : CharArray n} (holds : Holds a text) : (0 : UInt8) ∉ text :=
  holds.bytes ▸ a.text.nulFree

theorem Holds.take {n : Nat} {a : CharArray n} (holds : Holds a text) :
    a.1.take (text.length + 1) = text ++ [0] := by
  obtain ⟨rest, bytes⟩ := split_text holds.terminated
  rw [bytes, holds.bytes, List.take_append]
  simp

theorem Holds.short {n : Nat} {a : CharArray n} (holds : Holds a text) : text.length < n := by
  have short := text_length holds.terminated
  rw [CStr.length, holds.bytes] at short
  exact short

theorem upper_holds {n : Nat} {a : CharArray n} (holds : Holds a text) :
    ∃ b, upper a = some b ∧ Holds b (text.map toupper) := by
  obtain ⟨rest, bytes⟩ := split_text holds.terminated
  have tail : a.1.drop a.text.bytes.length = 0 :: rest := by rw [bytes, List.drop_left]
  rw [upper, if_pos holds.terminated]
  refine ⟨_, rfl, Holds.of (v := rest) (map_toupper holds.nulFree) ?_⟩
  rw [← tail, ← holds.bytes]

/-- Nothing is on its way. -/
structure Quiet (s : State) : Prop where
  child : s.child = .read
  ptoc : s.ptoc = []
  ctop : s.ctop = []

/-- How far the exchange of a line is, and what is still to be printed. -/
inductive Phase (s : State) : List (List UInt8) → Prop
  | line (at_ : s.parent = .fgets) (quiet : Quiet s) : Phase s (answers s.stdin)
  | asks {text : List UInt8} (at_ : s.parent = .write) (quiet : Quiet s) (buf : Holds s.p_io_buf text)
    (mes_len : s.mes_len = text.length + 1) : Phase s (text.map toupper :: answers s.stdin)
  | asked {text : List UInt8} (at_ : s.parent = .read) (nulFree : (0 : UInt8) ∉ text)
    (short : text.length < BUF_SIZE) (mes_len : s.mes_len = text.length + 1) (child : s.child = .read)
    (ptoc : s.ptoc = text ++ [0]) (ctop : s.ctop = []) : Phase s (text.map toupper :: answers s.stdin)
  | answering {text : List UInt8} (at_ : s.parent = .read) (mes_len : s.mes_len = text.length + 1)
    (child : s.child = .write) (ptoc : s.ptoc = []) (ctop : s.ctop = []) (buf : Holds s.c_io_buf text) :
    Phase s (text.map toupper :: answers s.stdin)
  | answered {text : List UInt8} (at_ : s.parent = .read) (nulFree : (0 : UInt8) ∉ text)
    (short : text.length < BUF_SIZE) (mes_len : s.mes_len = text.length + 1) (child : s.child = .read)
    (ptoc : s.ptoc = []) (ctop : s.ctop = text ++ [0]) : Phase s (text :: answers s.stdin)
  | close (at_ : s.parent = .close) (quiet : Quiet s) (stdin : s.stdin = []) : Phase s []
  | waits (at_ : s.parent = .waitpid) (quiet : Quiet s) (stdin : s.stdin = []) : Phase s []
  | reaps (at_ : s.parent = .waitpid) (child : s.child = .exited) (stdin : s.stdin = []) : Phase s []
  | ended (at_ : s.parent = .exited) (child : s.child = .exited) (stdin : s.stdin = []) : Phase s []
  | fault (at_ : s.parent = .fault) (quiet : Quiet s) (unclean : ¬ Clean s.stdin) : Phase s []

/-- Falls with each step: five of them for a line, and four for the end. -/
def State.left (s : State) : Nat :=
  5 * (lines s.stdin).length +
    match s.parent with
    | .fgets => 4
    | .write => 8
    | .read => if s.ptoc ≠ [] then 7 else if s.child = .write then 6 else 5
    | .close => 3
    | .waitpid => if s.child = .read then 2 else 1
    | .exited | .failed | .fault => 0

structure At (stdin : List UInt8) (s : State) : Prop where
  phase : ∃ owed, Phase s owed ∧ s.printed ++ owed = answers stdin
  clean : Clean stdin ↔ Clean s.stdin

theorem at_start (junk : CharArray BUF_SIZE × CharArray BUF_SIZE) (stdin : List UInt8) :
    At stdin (start junk stdin) :=
  ⟨⟨answers stdin, .line rfl ⟨rfl, rfl, rfl⟩, rfl⟩, Iff.rfl⟩

theorem Quiet.goes_on (quiet : Quiet s) (child : t.child = s.child) (ptoc : t.ptoc = s.ptoc)
    (ctop : t.ctop = s.ctop) : Quiet t :=
  ⟨child.trans quiet.child, ptoc.trans quiet.ptoc, ctop.trans quiet.ctop⟩

/-- What a `fgets` leaves. -/
theorem parentFgets_cases (s : State) :
    s.stdin = [] ∧ parentFgets s = { s with parent := .close } ∨
    (¬ Clean s.stdin ∧ answers s.stdin = []) ∧ parentFgets s = { s with parent := .fault } ∨
    ∃ text buf rest, Holds buf text ∧ lines rest = (lines s.stdin).tail ∧ lines s.stdin ≠ [] ∧
      answers s.stdin = text.map toupper :: answers rest ∧ (Clean s.stdin ↔ Clean rest) ∧
      parentFgets s = { s with parent := .write, p_io_buf := buf, mes_len := text.length + 1, stdin := rest } := by
  unfold parentFgets
  split
  · rename_i none
    exact Or.inl ⟨fgets_eq_none.mp none, rfl⟩
  · rename_i line read
    have divided := lines_line read
    have clean : Clean s.stdin ↔ text? line.1 = true ∧ Clean (s.stdin.drop line.1.length) := by
      rw [Clean, divided, List.forall_mem_cons]
      rfl
    obtain ⟨terminated, bytes⟩ := overwrite_line s.p_io_buf line.1 line.2
    by_cases some_ : line.1.takeWhile (· ≠ 0) = []
    · have unclean : text? line.1 = false := decide_eq_false (not_not.mpr some_)
      have nothing : answers s.stdin = [] := by simp [answers, divided, unclean]
      rw [withoutNewline_empty (bytes.trans some_)]
      exact Or.inr (Or.inl ⟨⟨fun all => by simp [clean, unclean] at all, nothing⟩, rfl⟩)
    · have clean_ : text? line.1 = true := decide_eq_true some_
      obtain ⟨buf, cut, holds, text⟩ := withoutNewline_ok terminated (by rwa [bytes])
      rw [cut]
      refine Or.inr (Or.inr ⟨_, buf, _, ⟨holds, rfl⟩, ?_, by simp [divided], ?_, ?_, rfl⟩)
      · rw [divided, List.tail_cons]
      · rw [text, bytes]
        simp [answers, divided, clean_, answer]
      · rw [clean, and_iff_right clean_]

/-! ### The calls that do not block -/

theorem parent_write (at_ : s.parent = .write) (child : s.child.holds = true)
    (room : s.ptoc.length + s.mes_len ≤ PIPE_CAPACITY) : stepParent s =
      some { s with parent := .read, ptoc := s.ptoc ++ s.p_io_buf.1.take s.mes_len } := by
  simp [stepParent, at_, child, room]

theorem parent_read (at_ : s.parent = .read) (some_ : s.ctop ≠ []) (length : s.ctop.length = s.mes_len)
    (fits : s.ctop.length ≤ BUF_SIZE) : stepParent s =
      some { s with parent := .fgets, p_io_buf := s.p_io_buf.fill s.ctop fits, ctop := [],
                    printed := s.printed ++ [(s.p_io_buf.fill s.ctop fits).text.bytes] } := by
  simp [stepParent, at_, some_, ← length, fits]

theorem child_read (at_ : s.child = .read) (some_ : s.ptoc ≠ []) (fits : s.ptoc.length ≤ BUF_SIZE) :
    stepChild s = some { s with child := .write, ptoc := [], c_io_buf := s.c_io_buf.fill s.ptoc fits } := by
  simp [stepChild, at_, some_, List.take_of_length_le fits, List.drop_of_length_le fits]

theorem child_write {buf : CharArray BUF_SIZE} (at_ : s.child = .write) (letters : upper s.c_io_buf = some buf)
    (parent : s.parent.holds = true) (room : s.ctop.length + (buf.text.length + 1) ≤ PIPE_CAPACITY) :
    stepChild s = some { s with child := .read, c_io_buf := buf,
                                ctop := s.ctop ++ buf.1.take (buf.text.length + 1) } := by
  simp [stepChild, at_, letters, parent, room]

theorem child_end (at_ : s.child = .read) (empty : s.ptoc = []) (parent : s.parent.holds = false) :
    stepChild s = some { s with child := .exited } := by
  simp [stepChild, at_, empty, parent]

/-! ### The calls that block -/

theorem quiet_child (quiet : Quiet s) (parent : s.parent.holds = true) : stepChild s = none := by
  simp [stepChild, quiet.child, quiet.ptoc, parent]

theorem awaits (at_ : s.parent = .read) (empty : s.ctop = []) (child : s.child.holds = true) :
    stepParent s = none := by
  simp [stepParent, at_, empty, child]

theorem line_step (at_ : s.parent = .fgets) (quiet : Quiet s) {whole : List (List UInt8)}
    (printed : s.printed ++ answers s.stdin = whole) (clean : Clean stdin ↔ Clean s.stdin) :
    (∃ owed, Phase (parentFgets s) owed ∧ (parentFgets s).printed ++ owed = whole) ∧
      (Clean stdin ↔ Clean (parentFgets s).stdin) ∧ (parentFgets s).left < s.left := by
  obtain ⟨empty, same⟩ | ⟨⟨unclean, nothing⟩, same⟩ |
    ⟨text, buf, rest, holds, tail, some_, first, more, same⟩ := parentFgets_cases s
  · rw [same]
    have nothing : answers s.stdin = [] := by simp [answers, empty, lines_end]
    refine ⟨⟨[], .close rfl (quiet.goes_on rfl rfl rfl) empty, nothing ▸ printed⟩, clean, ?_⟩
    simp [State.left, at_]
  · rw [same]
    refine ⟨⟨[], .fault rfl (quiet.goes_on rfl rfl rfl) unclean, nothing ▸ printed⟩, clean, ?_⟩
    simp [State.left, at_]
  · rw [same]
    refine ⟨⟨_, .asks rfl (quiet.goes_on rfl rfl rfl) holds rfl, first ▸ printed⟩, clean.trans more, ?_⟩
    have one := List.length_pos_iff.mpr some_
    simp only [State.left, at_, tail, List.length_tail]
    omega

section Step

variable {e : Event}

theorem fgets_step (at_ : s.parent = .fgets) (quiet : Quiet s)
    (printed : s.printed ++ answers s.stdin = answers stdin) (clean : Clean stdin ↔ Clean s.stdin)
    (h : step s e = some t) : At stdin t ∧ t.left < s.left := by
  cases e with
  | parent =>
    simp only [step, stepParent, at_] at h
    obtain rfl := Option.some.inj h
    obtain ⟨phase, clean, falls⟩ := line_step at_ quiet printed clean
    exact ⟨⟨phase, clean⟩, falls⟩
  | child => cases (quiet_child quiet (by simp [at_, ParentPc.holds])).symm.trans h

theorem asks_step (at_ : s.parent = .write) (quiet : Quiet s) (buf : Holds s.p_io_buf text)
    (mes_len : s.mes_len = text.length + 1)
    (printed : s.printed ++ (text.map toupper :: answers s.stdin) = answers stdin)
    (clean : Clean stdin ↔ Clean s.stdin) (h : step s e = some t) : At stdin t ∧ t.left < s.left := by
  cases e with
  | parent =>
    have room : s.ptoc.length + s.mes_len ≤ PIPE_CAPACITY := by
      have short := buf.short
      simp only [quiet.ptoc, mes_len, List.length_nil, PIPE_CAPACITY, BUF_SIZE] at short ⊢
      omega
    have child : s.child.holds = true := by rw [quiet.child]; rfl
    cases (parent_write at_ child room).symm.trans h
    refine ⟨⟨⟨_, .asked rfl buf.nulFree buf.short mes_len quiet.child ?_ quiet.ctop, printed⟩, clean⟩, ?_⟩
    · simp [quiet.ptoc, mes_len, buf.take]
    · simp [State.left, at_, mes_len, buf.take]
  | child => cases (quiet_child quiet (by simp [at_, ParentPc.holds])).symm.trans h

theorem asked_step (at_ : s.parent = .read) (nulFree : (0 : UInt8) ∉ text) (short : text.length < BUF_SIZE)
    (mes_len : s.mes_len = text.length + 1) (child : s.child = .read) (ptoc : s.ptoc = text ++ [0])
    (ctop : s.ctop = []) (printed : s.printed ++ (text.map toupper :: answers s.stdin) = answers stdin)
    (clean : Clean stdin ↔ Clean s.stdin) (h : step s e = some t) : At stdin t ∧ t.left < s.left := by
  cases e with
  | parent => cases (awaits at_ ctop (by simp [child, ChildPc.holds])).symm.trans h
  | child =>
    have some_ : s.ptoc ≠ [] := by simp [ptoc]
    have fits : s.ptoc.length ≤ BUF_SIZE := by simpa [ptoc] using short
    cases (child_read child some_ fits).symm.trans h
    have holds : Holds (s.c_io_buf.fill s.ptoc fits) text :=
      Holds.of nulFree (v := s.c_io_buf.1.drop s.ptoc.length) (by simp [fill, ptoc])
    refine ⟨⟨⟨_, .answering at_ mes_len rfl rfl ctop holds, printed⟩, clean⟩, ?_⟩
    simp [State.left, at_, ptoc]

theorem answering_step (at_ : s.parent = .read) (mes_len : s.mes_len = text.length + 1)
    (child : s.child = .write) (ptoc : s.ptoc = []) (ctop : s.ctop = []) (buf : Holds s.c_io_buf text)
    (printed : s.printed ++ (text.map toupper :: answers s.stdin) = answers stdin)
    (clean : Clean stdin ↔ Clean s.stdin) (h : step s e = some t) : At stdin t ∧ t.left < s.left := by
  cases e with
  | parent => cases (awaits at_ ctop (by simp [child, ChildPc.holds])).symm.trans h
  | child =>
    obtain ⟨upped, letters, holds⟩ := upper_holds buf
    have length : upped.text.length = text.length := by simp [CStr.length, holds.bytes]
    have short : text.length < 100 := buf.short
    have room : s.ctop.length + (upped.text.length + 1) ≤ PIPE_CAPACITY := by
      rw [ctop, length, List.length_nil, PIPE_CAPACITY]
      omega
    cases (child_write child letters (by simp [at_, ParentPc.holds]) room).symm.trans h
    have sent := holds.take
    rw [List.length_map] at sent
    refine ⟨⟨⟨_, .answered at_ holds.nulFree holds.short (by simpa using mes_len) rfl ptoc ?_,
      printed⟩, clean⟩, ?_⟩
    · rw [length, sent, ctop, List.nil_append]
    · simp [State.left, at_, ptoc, child]

theorem answered_step (at_ : s.parent = .read) (nulFree : (0 : UInt8) ∉ text) (short : text.length < BUF_SIZE)
    (mes_len : s.mes_len = text.length + 1) (child : s.child = .read) (ptoc : s.ptoc = [])
    (ctop : s.ctop = text ++ [0]) (printed : s.printed ++ (text :: answers s.stdin) = answers stdin)
    (clean : Clean stdin ↔ Clean s.stdin) (h : step s e = some t) : At stdin t ∧ t.left < s.left := by
  cases e with
  | parent =>
    have some_ : s.ctop ≠ [] := by simp [ctop]
    have length : s.ctop.length = s.mes_len := by simp [ctop, mes_len]
    have fits : s.ctop.length ≤ BUF_SIZE := by simpa [ctop] using short
    cases (parent_read at_ some_ length fits).symm.trans h
    have holds : Holds (s.p_io_buf.fill s.ctop fits) text :=
      Holds.of nulFree (v := s.p_io_buf.1.drop s.ctop.length) (by simp [fill, ctop])
    refine ⟨⟨⟨_, .line rfl ⟨child, ptoc, rfl⟩, ?_⟩, clean⟩, ?_⟩
    · rw [holds.bytes, ← printed, List.append_assoc, List.singleton_append]
    · simp [State.left, at_, ptoc, child]
  | child =>
    have blocked : stepChild s = none := by simp [stepChild, child, ptoc, at_, ParentPc.holds]
    cases blocked.symm.trans h

theorem close_step (at_ : s.parent = .close) (quiet : Quiet s) (empty : s.stdin = [])
    (printed : s.printed ++ [] = answers stdin) (clean : Clean stdin ↔ Clean s.stdin)
    (h : step s e = some t) : At stdin t ∧ t.left < s.left := by
  cases e with
  | parent =>
    simp only [step, stepParent, at_] at h
    obtain rfl := Option.some.inj h
    refine ⟨⟨⟨[], .waits rfl (quiet.goes_on rfl rfl rfl) empty, printed⟩, clean⟩, ?_⟩
    simp [State.left, at_, quiet.child]
  | child => cases (quiet_child quiet (by simp [at_, ParentPc.holds])).symm.trans h

theorem waits_step (at_ : s.parent = .waitpid) (quiet : Quiet s) (empty : s.stdin = [])
    (printed : s.printed ++ [] = answers stdin) (clean : Clean stdin ↔ Clean s.stdin)
    (h : step s e = some t) : At stdin t ∧ t.left < s.left := by
  cases e with
  | parent => simp [step, stepParent, at_, quiet.child, ChildPc.holds] at h
  | child =>
    cases (child_end quiet.child quiet.ptoc (by simp [at_, ParentPc.holds])).symm.trans h
    refine ⟨⟨⟨[], .reaps at_ rfl empty, printed⟩, clean⟩, ?_⟩
    simp [State.left, at_, quiet.child]

theorem reaps_step (at_ : s.parent = .waitpid) (child : s.child = .exited) (empty : s.stdin = [])
    (printed : s.printed ++ [] = answers stdin) (clean : Clean stdin ↔ Clean s.stdin)
    (h : step s e = some t) : At stdin t ∧ t.left < s.left := by
  cases e with
  | parent =>
    have reaps : stepParent s = some { s with parent := .exited } := by
      simp [stepParent, at_, child, ChildPc.holds]
    cases reaps.symm.trans h
    refine ⟨⟨⟨[], .ended rfl child empty, printed⟩, clean⟩, ?_⟩
    simp [State.left, at_, child]
  | child => simp [step, stepChild, child] at h

end Step

theorem at_step (s : State) (e : Event) (t : State) (inv : At stdin s) (h : step s e = some t) :
    At stdin t ∧ t.left < s.left := by
  obtain ⟨⟨owed, phase, printed⟩, clean⟩ := inv
  cases phase with
  | line at_ quiet => exact fgets_step at_ quiet printed clean h
  | asks at_ quiet buf mes_len => exact asks_step at_ quiet buf mes_len printed clean h
  | asked at_ nulFree short mes_len child ptoc ctop =>
    exact asked_step at_ nulFree short mes_len child ptoc ctop printed clean h
  | answering at_ mes_len child ptoc ctop buf =>
    exact answering_step at_ mes_len child ptoc ctop buf printed clean h
  | answered at_ nulFree short mes_len child ptoc ctop =>
    exact answered_step at_ nulFree short mes_len child ptoc ctop printed clean h
  | close at_ quiet empty => exact close_step at_ quiet empty printed clean h
  | waits at_ quiet empty => exact waits_step at_ quiet empty printed clean h
  | reaps at_ child empty => exact reaps_step at_ child empty printed clean h
  | ended at_ child empty => cases e <;> simp [step, stepParent, stepChild, at_, child] at h
  | fault at_ quiet unclean =>
    cases e with
    | parent => simp [step, stepParent, at_] at h
    | child => cases (quiet_child quiet (by simp [at_, ParentPc.holds])).symm.trans h

/-- Who is waited for can go on, but at the end. -/
theorem phase_stuck {owed : List (List UInt8)} (phase : Phase s owed) (stuck : ∀ e, step s e = none) :
    owed = [] ∧ (s.parent = .exited ∧ s.child = .exited ∧ s.stdin = [] ∨
      s.parent = .fault ∧ ¬ Clean s.stdin) := by
  have parent := stuck .parent
  have child_ := stuck .child
  cases phase with
  | line at_ quiet => simp [step, stepParent, at_] at parent
  | asks at_ quiet buf mes_len =>
    have short : _ < 100 := buf.short
    have room : s.ptoc.length + s.mes_len ≤ PIPE_CAPACITY := by
      rw [quiet.ptoc, mes_len, List.length_nil, PIPE_CAPACITY]
      omega
    cases parent.symm.trans (parent_write at_ (by simp [quiet.child, ChildPc.holds]) room)
  | asked at_ nulFree short mes_len child ptoc ctop => simp [step, stepChild, child, ptoc] at child_
  | answering at_ mes_len child ptoc ctop buf =>
    obtain ⟨upped, letters, holds⟩ := upper_holds buf
    have short : _ < 100 := holds.short
    have room : s.ctop.length + (upped.text.length + 1) ≤ PIPE_CAPACITY := by
      rw [ctop, CStr.length, holds.bytes, List.length_nil, PIPE_CAPACITY]
      omega
    cases child_.symm.trans (child_write child letters (by simp [at_, ParentPc.holds]) room)
  | answered at_ nulFree short mes_len child ptoc ctop =>
    have fits : s.ctop.length ≤ BUF_SIZE := by simpa [ctop] using short
    cases parent.symm.trans (parent_read at_ (by simp [ctop]) (by simp [ctop, mes_len]) fits)
  | close at_ quiet stdin => simp [step, stepParent, at_] at parent
  | waits at_ quiet stdin =>
    cases child_.symm.trans (child_end quiet.child quiet.ptoc (by simp [at_, ParentPc.holds]))
  | reaps at_ child stdin => simp [step, stepParent, at_, child, ChildPc.holds] at parent
  | ended at_ child stdin => exact ⟨rfl, Or.inl ⟨at_, child, stdin⟩⟩
  | fault at_ quiet unclean => exact ⟨rfl, Or.inr ⟨at_, unclean⟩⟩

theorem clean_end : Clean [] := by simp [Clean, lines_end]

/-- However the two are scheduled, no call fails, each line comes back in upper case and in order, and both
exit just where no line begins with a NUL. -/
theorem prints_each_line (junk : CharArray BUF_SIZE × CharArray BUF_SIZE) (stdin : List UInt8)
    {events : List Event} (run : events.foldlM step (start junk stdin) = some s) :
    events.length ≤ 5 * (lines stdin).length + 4 ∧ s.printed <+: answers stdin ∧
    ((∀ e, step s e = none) → s.printed = answers stdin ∧
      (s.parent = .exited ∧ s.child = .exited ↔ Clean stdin) ∧ (s.parent = .fault ↔ ¬ Clean stdin)) := by
  obtain ⟨⟨⟨owed, phase, printed⟩, clean⟩, left⟩ :=
    run_falls (I := At stdin) (m := State.left) at_step (at_start junk stdin) run
  refine ⟨(Nat.le_add_left _ _).trans left, ⟨owed, printed⟩, fun stuck => ?_⟩
  obtain ⟨nothing, ended⟩ := phase_stuck phase stuck
  rw [nothing, List.append_nil] at printed
  refine ⟨printed, ?_⟩
  rw [clean]
  obtain ⟨parent, child, empty⟩ | ⟨fault, unclean⟩ := ended
  · simp [parent, child, empty, clean_end]
  · simp [fault, unclean]

/-- `hi` and a newline. -/
def hi : List Event := [.parent, .parent, .child, .child, .parent, .parent, .parent, .child, .parent]

def junk : CharArray BUF_SIZE × CharArray BUF_SIZE :=
  (⟨List.replicate BUF_SIZE 1, rfl⟩, ⟨List.replicate BUF_SIZE 2, rfl⟩)

theorem prints_each_line_sample : ∃ s, hi.foldlM step (start junk [104, 105, 10]) = some s ∧
    hi.length ≤ 5 * (lines [104, 105, 10]).length + 4 ∧ s.printed <+: answers [104, 105, 10] ∧
    ((∀ e, step s e = none) → s.printed = answers [104, 105, 10] ∧
      (s.parent = .exited ∧ s.child = .exited ↔ Clean [104, 105, 10]) ∧
      (s.parent = .fault ↔ ¬ Clean [104, 105, 10])) := by
  obtain ⟨s, run⟩ := Option.isSome_iff_exists.mp
    (show (hi.foldlM step (start junk [104, 105, 10])).isSome = true by decide +kernel)
  exact ⟨s, run, prints_each_line junk [104, 105, 10] run⟩

end Tlpi.BidirPipe
