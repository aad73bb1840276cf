import TlpiExercises.Library.Runs
import TlpiExercises.SignalMessaging.Receiver

/-!
# The characters of a message

Between the print and the clearing of `mess` the handler still appends to it, and the clearing
takes away what was not printed.
-/

namespace Tlpi.SignalMessaging

open Runs

/-- What stands in `mess` and has not been printed. -/
def Process.pending (s : Process) : List UInt8 :=
  if s.point = .clearFlag ∨ s.point = .clearMess then
    s.mess.bytes.drop (s.printed.getLast?.elim 0 CStr.length)
  else s.mess.bytes

/-- No delivered character is lost, and none is printed twice. -/
def Process.Intact (s : Process) : Prop :=
  (s.printed.map CStr.bytes).flatten ++ s.pending = s.delivered

/-- Between the print and the clearing, `mess` starts with what was printed. -/
def Process.Window (s : Process) : Prop :=
  s.point = .clearFlag ∨ s.point = .clearMess →
    ∃ before last, s.printed = before ++ [last] ∧ last.bytes <+: s.mess.bytes

/-- A character comes to room for it, and nothing is cleared that was not printed. -/
def Safe (s : Process) : Event → Prop
  | .signal letter => s.point ≠ .exited → letter ≠ 0 ∧ s.mess.length + 1 < MESS_SIZE
  | .main read => (s.point = .clearMess → s.pending = []) ∧
      (s.point = .read → ∀ queued, read ≠ .line [] queued)

theorem ofBytes_letter {letter : UInt8} (visible : letter ≠ 0) :
    (CStr.ofBytes [letter]).bytes = [letter] := by
  simp [CStr.ofBytes, visible]

def Process.append (s : Process) (letter : UInt8) : Process :=
  { s with
    newMessage := true
    mess := s.mess.append (CStr.ofBytes [letter])
    delivered := s.delivered ++ [letter] }

theorem handler_eq (s : Process) (letter : UInt8) :
    handler s letter = if s.mess.length + (CStr.ofBytes [letter]).length < MESS_SIZE then
      .ok (s.append letter) else .error .outOfBounds := by
  unfold handler strcat
  split
  · rfl
  · rfl

theorem pending_outside {s : Process} (outside : ¬ (s.point = .clearFlag ∨ s.point = .clearMess)) :
    s.pending = s.mess.bytes := if_neg outside

theorem pending_window {s : Process} (inside : s.point = .clearFlag ∨ s.point = .clearMess)
    {before : List CStr} {last : CStr} (printed : s.printed = before ++ [last]) :
    s.pending = s.mess.bytes.drop last.bytes.length := by
  unfold Process.pending
  rw [if_pos inside, printed, List.getLast?_concat]
  rfl

/-- What the loop does to the characters: it prints all of `mess`, or clears it, or leaves it. -/
theorem advance_cases {s t : Process} {read : Read} (h : advance s read = .ok t) :
    t.delivered = s.delivered ∧
    (s.point = .print ∧ t.point = .clearFlag ∧ t.mess = s.mess ∧ t.printed = s.printed ++ [s.mess] ∨
      s.point = .clearFlag ∧ t.point = .clearMess ∧ t.mess = s.mess ∧ t.printed = s.printed ∨
      s.point = .clearMess ∧ t.point = .read ∧ t.mess.bytes = [] ∧ t.printed = s.printed ∨
      (s.point ≠ .clearFlag ∧ s.point ≠ .clearMess) ∧ (t.point ≠ .clearFlag ∧ t.point ≠ .clearMess) ∧
        t.mess = s.mess ∧ t.printed = s.printed) := by
  unfold advance at h
  cases point : s.point with
  | read =>
    have same : t.delivered = s.delivered ∧ (t.point ≠ .clearFlag ∧ t.point ≠ .clearMess) ∧
        t.mess = s.mess ∧ t.printed = s.printed := by
      rw [point] at h
      cases read with
      | failed =>
        cases h
        simp
      | interrupted =>
        cases h
        simp
      | line buf queued =>
        dsimp only at h
        split_ifs at h <;> cases h <;> simp [point]
    exact ⟨same.1, Or.inr (Or.inr (Or.inr ⟨by simp, same.2⟩))⟩
  | test =>
    rw [point] at h
    cases h
    refine ⟨rfl, Or.inr (Or.inr (Or.inr ⟨by simp, ?_, rfl, rfl⟩))⟩
    dsimp only
    split <;> simp
  | print =>
    rw [point] at h
    cases h
    exact ⟨rfl, Or.inl ⟨rfl, rfl, rfl, rfl⟩⟩
  | clearFlag =>
    rw [point] at h
    cases h
    exact ⟨rfl, Or.inr (Or.inl ⟨rfl, rfl, rfl, rfl⟩)⟩
  | clearMess =>
    rw [point] at h
    cases h
    exact ⟨rfl, Or.inr (Or.inr (Or.inl ⟨rfl, rfl, rfl, rfl⟩))⟩
  | exited =>
    rw [point] at h
    cases h
    exact ⟨rfl, Or.inr (Or.inr (Or.inr ⟨by simp, by simp [point], rfl, rfl⟩))⟩

theorem step_window {s t : Process} {e : Event} (window : s.Window) (h : step s e = .ok t) :
    t.Window := by
  cases e with
  | signal letter =>
    rw [step] at h
    split at h
    · cases h
      exact window
    · rw [handler_eq] at h
      split at h
      · cases h
        intro inside
        obtain ⟨before, last, printed, starts⟩ := window inside
        exact ⟨before, last, printed, starts.trans (List.prefix_append _ _)⟩
      · cases h
  | main read =>
    intro inside
    rcases (advance_cases h).2 with ⟨_, _, mess, printed⟩ | ⟨at_, _, mess, printed⟩ |
      ⟨_, at_, _⟩ | ⟨_, ⟨flag, clear⟩, _⟩
    · exact ⟨s.printed, s.mess, printed, by rw [mess]⟩
    · rw [mess, printed]
      exact window (Or.inl at_)
    · rw [at_] at inside
      simp at inside
    · exact (inside.elim flag clear).elim

theorem append_pending {s : Process} (window : s.Window) (letter : UInt8) :
    (s.append letter).pending = s.pending ++ (CStr.ofBytes [letter]).bytes := by
  by_cases inside : s.point = .clearFlag ∨ s.point = .clearMess
  · obtain ⟨before, last, printed, starts⟩ := window inside
    rw [pending_window inside printed, pending_window (s := s.append letter) inside printed]
    exact List.drop_append_of_le_length starts.length_le
  · rw [pending_outside inside, pending_outside (s := s.append letter) inside]
    rfl

theorem append_intact {s : Process} (window : s.Window) (intact : s.Intact) (letter : UInt8) :
    (s.append letter).Intact ↔ letter ≠ 0 := by
  unfold Process.Intact
  rw [append_pending window, ← List.append_assoc]
  show (s.printed.map CStr.bytes).flatten ++ s.pending ++ (CStr.ofBytes [letter]).bytes =
    s.delivered ++ [letter] ↔ letter ≠ 0
  rw [intact, List.append_cancel_left_eq]
  by_cases visible : letter = 0
  · simp [visible, CStr.ofBytes]
  · simp [ofBytes_letter visible, visible]

/-- A statement of the loop keeps the characters when what it clears has been printed. -/
theorem advance_intact {s t : Process} {read : Read} (intact : s.Intact)
    (h : advance s read = .ok t) : t.Intact ↔ (s.point = .clearMess → s.pending = []) := by
  obtain ⟨delivered, cases⟩ := advance_cases h
  unfold Process.Intact at intact ⊢
  rw [delivered, ← intact]
  rcases cases with ⟨at_, next, mess, printed⟩ | ⟨at_, next, mess, printed⟩ |
    ⟨at_, next, mess, printed⟩ | ⟨⟨notFlag, notClear⟩, ⟨flag, clear⟩, mess, printed⟩
  · rw [pending_window (Or.inl next) printed, mess, List.drop_length, printed,
      pending_outside (by simp [at_])]
    simp [at_]
  · have same : t.pending = s.pending := by
      unfold Process.pending
      rw [if_pos (Or.inr next), if_pos (Or.inl at_), mess, printed]
    simp [same, printed, at_]
  · rw [pending_outside (by simp [next]), mess, printed, List.append_cancel_left_eq]
    rw [forall_prop_of_true at_]
    exact eq_comm
  · rw [pending_outside (fun inside => inside.elim flag clear),
      pending_outside (fun inside => inside.elim notFlag notClear), mess, printed]
    exact iff_of_true rfl (fun at_ => absurd at_ notClear)

theorem advance_ok_iff (s : Process) (read : Read) :
    (∃ t, advance s read = .ok t) ↔ (s.point = .read → ∀ queued, read ≠ .line [] queued) := by
  unfold advance
  cases s.point with
  | read =>
    cases read with
    | failed => simp
    | interrupted => simp
    | line buf queued =>
      by_cases empty : buf = []
      · simp [empty]
      · simp only [if_neg empty]
        split_ifs <;> simp [empty]
  | _ => simp

theorem safe_iff (s : Process) (e : Event) (window : s.Window) (intact : s.Intact) :
    (∃ t, step s e = .ok t ∧ t.Intact) ↔ Safe s e := by
  cases e with
  | signal letter =>
    rw [step, Safe]
    by_cases gone : s.point = .exited
    · rw [if_pos gone]
      exact iff_of_true ⟨s, rfl, intact⟩ (fun running => absurd gone running)
    · rw [if_neg gone, forall_prop_of_true gone, handler_eq]
      have letters : letter ≠ 0 → (CStr.ofBytes [letter]).length = 1 := fun visible =>
        congrArg List.length (ofBytes_letter visible)
      constructor
      · rintro ⟨t, h, intact'⟩
        split at h
        · rename_i room
          cases h
          have visible := (append_intact window intact letter).mp intact'
          rw [letters visible] at room
          exact ⟨visible, room⟩
        · cases h
      · rintro ⟨visible, room⟩
        rw [letters visible, if_pos room]
        exact ⟨_, rfl, (append_intact window intact letter).mpr visible⟩
  | main read =>
    rw [step, Safe, ← advance_ok_iff]
    constructor
    · rintro ⟨t, h, intact'⟩
      exact ⟨(advance_intact intact h).mp intact', t, h⟩
    · rintro ⟨printed, t, h⟩
      exact ⟨t, h, (advance_intact intact h).mpr printed⟩

/-- In every run no character is lost or printed twice exactly when every character finds room, and
none is delivered between the print and the clearing of `mess`. -/
theorem intact_iff (events : List Event) :
    Throughout step Process.Intact .initial events ↔ Each step Safe .initial events := by
  apply throughout_iff safe_iff
  · exact fun s e t window _ h => step_window window h
  · intro inside
    simp [Process.initial] at inside
  · rfl

/-- A second character comes after the first one has been printed. -/
theorem character_lost :
    ¬ ∀ (events : List Event) (t : Process), run step .initial events = .ok t → t.Intact := by
  intro all
  have lost := all
    [.signal 97, .main .interrupted, .main .interrupted, .main .interrupted, .signal 98,
      .main .interrupted, .main .interrupted]
    ⟨.read, false, CStr.ofBytes [], [CStr.ofBytes [97]], [97, 98]⟩ rfl
  unfold Process.Intact Process.pending at lost
  exact absurd lost (by decide)

end Tlpi.SignalMessaging
