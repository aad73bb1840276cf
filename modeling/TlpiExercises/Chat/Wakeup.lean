import TlpiExercises.Chat.Model

/-!
# Lost wakeups

The flag is cleared after the queue has been registered again. A message that stands in the queue
by then has no notification left, unless its signal is still on the way.
-/

namespace Tlpi.Chat

open Runs

/-- `main` waits for input while a message is unread that nothing will tell it of. -/
structure Process.Stuck (s : Process) : Prop where
  waits : s.point = .fgets
  notPending : s.pending = false
  notArrived : s.msgArrived = false
  unread : s.queue ≠ []
  noNotification : s.registration = none ∨ s.registration = some false

/-- The first registration finds the queue empty. When the flag is cleared the queue is empty too,
or a notification is pending. -/
def Kept (s : Process) : Event → Prop
  | .main => (s.point = .notify → s.queue = []) ∧
      (s.point = .clearFlag → s.queue = [] ∨ s.pending = true)
  | _ => True

/-- A message will be noticed, or is known to have arrived. -/
def Process.Attentive (s : Process) : Prop :=
  s.pending = true ∨ s.msgArrived = true ∨ (s.queue = [] ∧ s.registration.isSome)

structure Inv (s : Process) : Prop where
  registered : s.registration = some true → s.queue = []
  start : s.point = .notify → s.registration = none ∧ s.pending = false ∧ s.msgArrived = false
  again : s.point = .clearFlag → s.queue = [] → s.registration.isSome
  attentive : s.point = .prompt ∨ s.point = .fgets ∨ s.point = .send → s.Attentive

theorem inv_initial : Inv .initial := by
  refine ⟨?_, ?_, ?_, ?_⟩ <;> simp [Process.initial]

/-- Where `main` neither starts nor waits nor clears the flag, only the registration matters. -/
theorem inv_between {s : Process} (registered : s.registration = some true → s.queue = [])
    (between : s.point ∉ [Point.notify, .clearFlag, .prompt, .fgets, .send]) : Inv s := by
  simp only [List.mem_cons, List.not_mem_nil, or_false, not_or] at between
  obtain ⟨notify, clearFlag, prompt, fgets, send⟩ := between
  exact ⟨registered, fun at_ => absurd at_ notify, fun at_ => absurd at_ clearFlag,
    fun at_ => (at_.elim prompt (fun at_ => at_.elim fgets send)).elim⟩

theorem inv_arrive {s : Process} (inv : Inv s) (m : Message) : Inv (arrive s m) := by
  unfold arrive
  split
  · exact inv_between inv.registered (by simp)
  · split
    · rename_i notified
      refine ⟨by simp, fun at_ => ?_, by simp, fun _ => Or.inl rfl⟩
      rw [(inv.start at_).1] at notified
      simp at notified
    · rename_i unnoticed
      have nonempty : s.queue ++ [m] ≠ [] := by simp
      refine ⟨fun reg => ?_, inv.start, fun _ empty => absurd empty nonempty, fun at_ => ?_⟩
      · have registered : s.registration = some true := reg
        exact absurd ⟨inv.registered registered, by simp [registered]⟩ unnoticed
      · rcases inv.attentive at_ with pending | arrived | registered
        · exact Or.inl pending
        · exact Or.inr (Or.inl arrived)
        · exact absurd registered unnoticed

theorem inv_interrupt {s : Process} (inv : Inv s) : Inv (interrupt s) := by
  unfold interrupt
  split
  · exact inv_between inv.registered (by simp)
  · exact inv_between inv.registered (by simp)
  · exact inv

theorem inv_mqNotify {s : Process} (inv : Inv s) {next : Point}
    (at_ : next = .clearFlag ∨ next = .prompt ∧ s.queue = []) : Inv (mqNotify s next) := by
  unfold mqNotify
  split
  · exact inv_between inv.registered (by simp)
  · refine ⟨by simp, fun same => ?_, fun _ _ => rfl, fun same => ?_⟩
    · rcases at_ with rfl | ⟨rfl, _⟩ <;> cases same
    · rcases at_ with rfl | ⟨rfl, empty⟩
      · simp at same
      · exact Or.inr (Or.inr ⟨empty, rfl⟩)

theorem inv_advance {s t : Process} (inv : Inv s) (kept : Kept s .main) (h : advance s = .ok t) :
    Inv t := by
  unfold advance at h
  cases point : s.point with
  | notify =>
    rw [point] at h
    cases h
    exact inv_mqNotify inv (Or.inr ⟨rfl, kept.1 point⟩)
  | prompt =>
    rw [point] at h
    cases h
    exact ⟨inv.registered, by simp, by simp, fun _ => inv.attentive (Or.inl point)⟩
  | interrupted =>
    rw [point] at h
    dsimp only at h
    split_ifs at h <;> cases h <;> exact inv_between inv.registered (by simp)
  | receive =>
    rw [point] at h
    dsimp only at h
    split at h
    · cases h
      exact inv_between inv.registered (by simp)
    · rename_i queue
      cases h
      refine inv_between (fun reg => ?_) (by simp)
      have empty := inv.registered reg
      rw [queue] at empty
      cases empty
  | notifyAgain =>
    rw [point] at h
    cases h
    exact inv_mqNotify inv (Or.inl rfl)
  | clearFlag =>
    rw [point] at h
    cases h
    refine ⟨inv.registered, by simp, by simp, fun _ => ?_⟩
    rcases kept.2 point with empty | pending
    · exact Or.inr (Or.inr ⟨empty, inv.again point empty⟩)
    · exact Or.inl pending
  | send =>
    rw [point] at h
    cases h
    exact ⟨inv.registered, by simp, by simp, fun _ => inv.attentive (Or.inr (Or.inr point))⟩
  | fgets | waiting | exited =>
    rw [point] at h
    cases h

theorem inv_step (s : Process) (e : Event) (t : Process) (inv : Inv s) (kept : Kept s e)
    (h : step s e = .ok t) : Inv t := by
  unfold step at h
  split at h
  · cases h
  · cases e with
    | arrive m =>
      dsimp only at h
      split at h
      · cases h
        exact inv_arrive inv m
      · cases h
    | notification =>
      dsimp only at h
      split at h
      · rename_i pending
        cases h
        apply inv_interrupt
        refine ⟨inv.registered, fun at_ => ?_, inv.again, fun _ => Or.inr (Or.inl rfl)⟩
        rw [(inv.start at_).2.1] at pending
        cases pending
      · cases h
    | stopSignal =>
      cases h
      exact inv_interrupt ⟨inv.registered, inv.start, inv.again, inv.attentive⟩
    | line =>
      dsimp only at h
      split at h
      · rename_i waits
        cases h
        exact ⟨inv.registered, by simp, by simp, fun _ => inv.attentive (Or.inr (Or.inl waits))⟩
      · cases h
    | endOfInput =>
      dsimp only at h
      split at h
      · cases h
        exact inv_between inv.registered (by simp)
      · cases h
    | main => exact inv_advance inv kept h

theorem inv_not_stuck {s : Process} (inv : Inv s) : ¬ s.Stuck := by
  intro stuck
  rcases inv.attentive (Or.inr (Or.inl stuck.waits)) with pending | arrived | ⟨empty, _⟩
  · rw [stuck.notPending] at pending
    cases pending
  · rw [stuck.notArrived] at arrived
    cases arrived
  · exact stuck.unread empty

theorem inv_reached {events : List Event} {t : Process} (kept : Each step Kept .initial events)
    (reached : run step .initial events = .ok t) : Inv t :=
  run_invariant inv_step inv_initial kept reached

theorem stuck_of_not_kept {s : Process} (inv : Inv s) (lost : ¬ Kept s .main) :
    ∃ t, run step s [.main, .main] = .ok t ∧ t.Stuck := by
  unfold Kept at lost
  by_cases start : s.point = .notify
  · obtain ⟨registration, pending, arrived⟩ := inv.start start
    have unread : s.queue ≠ [] := fun empty => lost ⟨fun _ => empty, fun at_ => by simp [start] at at_⟩
    refine ⟨{ s with registration := some false, point := .fgets }, ?_, rfl, pending, arrived, unread,
      Or.inr rfl⟩
    simp [run, step, advance, start, mqNotify, registration, unread]
  · have clear : s.point = .clearFlag ∧ s.queue ≠ [] ∧ s.pending = false := by
      by_contra fine
      refine lost ⟨fun at_ => absurd at_ start, fun at_ => ?_⟩
      by_contra neither
      rw [not_or, Bool.not_eq_true] at neither
      exact fine ⟨at_, neither⟩
    obtain ⟨at_, unread, pending⟩ := clear
    refine ⟨{ s with msgArrived := false, point := .fgets }, ?_, rfl, pending, rfl, unread, ?_⟩
    · simp [run, step, advance, at_]
    · cases registration : s.registration with
      | none => exact Or.inl rfl
      | some empty =>
        cases empty with
        | false => exact Or.inr rfl
        | true => exact absurd (inv.registered registration) unread

/-- No run that meets the condition reaches a lost wakeup, and the first statement that does not
meet it leads to one. -/
theorem wakeup_kept (events : List Event) (kept : Each step Kept .initial events) (s : Process)
    (reached : run step .initial events = .ok s) :
    ¬ s.Stuck ∧ (¬ Kept s .main → ∃ t, run step .initial (events ++ [.main, .main]) = .ok t ∧ t.Stuck) := by
  have inv := inv_reached kept reached
  refine ⟨inv_not_stuck inv, fun lost => ?_⟩
  rw [run_append reached]
  exact stuck_of_not_kept inv lost

/-- One message, noticed and read. -/
theorem wakeup_kept_sample : ¬ Process.Stuck ⟨.fgets, [], some true, false, false, false, [[104, 105]]⟩ := by
  have reached : run step .initial [.main, .main, .arrive [104, 105], .notification, .main, .main, .main,
      .main, .main] = .ok ⟨.fgets, [], some true, false, false, false, [[104, 105]]⟩ := rfl
  refine (wakeup_kept _ ?_ _ reached).1
  simp [Each, Kept, step, Process.initial, advance, mqNotify, arrive, interrupt, MAX_MESSAGES]

/-- A second message arrives before the first one is read. -/
theorem wakeup_lost : ¬ ∀ (events : List Event) (s : Process), run step .initial events = .ok s →
    ¬ s.Stuck := by
  intro all
  have stuck := all [.main, .main, .arrive [97], .notification, .arrive [98], .main, .main, .main,
    .main, .main] ⟨.fgets, [[98]], some false, false, false, false, [[97]]⟩ rfl
  exact stuck ⟨rfl, rfl, rfl, by simp, Or.inr rfl⟩

end Tlpi.Chat
