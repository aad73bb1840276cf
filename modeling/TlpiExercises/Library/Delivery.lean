import TlpiExercises.Library.Transitions

/-!
# Delivery through a bounded queue

One party sends a list of messages through a queue that holds `capacity` of them. The other takes them one
by one until it is done.
-/

namespace Tlpi.Delivery

open Transitions

structure System (M C : Type*) where
  capacity : Nat
  take : C → M → C
  done : C → Bool

structure State (M C : Type*) where
  unsent : List M
  queue : List M
  receiver : C

inductive Event where
  | send
  | receive

variable {M C : Type*} {sys : System M C} {s t : State M C} {messages : List M} {c : C}

def step (sys : System M C) (s : State M C) : Event → Option (State M C)
  | .send =>
    match s.unsent with
    | [] => none
    | message :: unsent =>
      if s.queue.length < sys.capacity then some { s with unsent, queue := s.queue ++ [message] } else none
  | .receive =>
    match s.queue with
    | [] => none
    | message :: queue =>
      if sys.done s.receiver then none else some { s with queue, receiver := sys.take s.receiver message }

/-- The receiver has taken what is neither in the queue nor still to be sent. -/
def Taken (sys : System M C) (messages : List M) (c : C) (s : State M C) : Prop :=
  ∃ taken, taken ++ (s.queue ++ s.unsent) = messages ∧ s.receiver = taken.foldl sys.take c

def State.ahead (s : State M C) : Nat := 2 * s.unsent.length + s.queue.length

theorem taken_step (s : State M C) (e : Event) (t : State M C) (inv : Taken sys messages c s)
    (h : step sys s e = some t) : Taken sys messages c t ∧ t.ahead < s.ahead := by
  obtain ⟨taken, whole, receiver⟩ := inv
  unfold State.ahead
  cases e with
  | send =>
    unfold step at h
    dsimp only at h
    split at h
    · cases h
    · rename_i message unsent at_
      split at h
      · obtain rfl := Option.some.inj h
        refine ⟨⟨taken, ?_, receiver⟩, ?_⟩
        · rw [← whole, at_]
          simp
        · simp [at_]
          omega
      · cases h
  | receive =>
    unfold step at h
    dsimp only at h
    split at h
    · cases h
    · rename_i message queue at_
      split at h
      · cases h
      · obtain rfl := Option.some.inj h
        refine ⟨⟨taken ++ [message], ?_, ?_⟩, ?_⟩
        · rw [← whole, at_]
          simp
        · simp [receiver]
        · simp [at_]

theorem stuck_iff : (∀ e, step sys s e = none) ↔
    (s.unsent = [] ∨ sys.capacity ≤ s.queue.length) ∧ (s.queue = [] ∨ sys.done s.receiver = true) := by
  have sends : step sys s .send = none ↔ s.unsent = [] ∨ sys.capacity ≤ s.queue.length := by
    unfold step
    cases at_ : s.unsent <;> simp
  have receives : step sys s .receive = none ↔ s.queue = [] ∨ sys.done s.receiver = true := by
    unfold step
    cases at_ : s.queue <;> simp
  rw [← sends, ← receives]
  refine ⟨fun none => ⟨none .send, none .receive⟩, ?_⟩
  rintro ⟨send, receive⟩ (_ | _)
  · exact send
  · exact receive

/-- Where the receiver is not done before the last message, a run ends with everything delivered, and
nobody waits for ever for room in the queue. -/
theorem delivers_all (room : 0 < sys.capacity)
    (last : ∀ taken rest, taken ++ rest = messages → rest ≠ [] →
      sys.done (taken.foldl sys.take c) = false)
    {events : List Event} (run : events.foldlM (step sys) ⟨messages, [], c⟩ = some s) :
    events.length ≤ 2 * messages.length ∧
    (sys.done s.receiver = true → s.queue ++ s.unsent = []) ∧
    ((∀ e, step sys s e = none) ↔ s.queue ++ s.unsent = []) ∧
    (s.queue ++ s.unsent = [] → s.receiver = messages.foldl sys.take c) := by
  obtain ⟨⟨taken, whole, receiver⟩, ahead⟩ := run_falls (I := Taken sys messages c) (m := State.ahead)
    taken_step ⟨[], rfl, rfl⟩ run
  have all (done : sys.done s.receiver = true) : s.queue ++ s.unsent = [] := by
    by_contra some_left
    rw [receiver, last taken _ whole some_left] at done
    cases done
  have length : events.length ≤ 2 * messages.length :=
    (Nat.le_add_left _ _).trans ahead
  refine ⟨length, all, ⟨fun none => ?_, fun nothing => ?_⟩, fun nothing => ?_⟩
  · obtain ⟨sent, empty | done⟩ := stuck_iff.mp none
    · rw [empty, List.length_nil] at sent
      obtain unsent | full := sent
      · rw [empty, unsent, List.nil_append]
      · omega
    · exact all done
  · obtain ⟨empty, unsent⟩ := List.append_eq_nil_iff.mp nothing
    exact stuck_iff.mpr ⟨Or.inl unsent, Or.inl empty⟩
  · rw [nothing, List.append_nil] at whole
    rw [receiver, whole]

end Tlpi.Delivery
