import TlpiExercises.MqNotify.Model

/-!
# What a notified program reads

Registering before it reads, the program that registers again misses no message that comes meanwhile. The
other one is told once.
-/

namespace Tlpi.MqNotify

open Transitions

variable {p : Program} {maxmsg : Nat} {s t : State} {m : Message} {events : List Event}

/-- Nothing is lost: what was sent is read or in the queue. -/
def Kept (s : State) : Prop := (s.read ++ s.queue).Perm s.sent

theorem enqueue_perm (m : Message) (queue : List Message) : (enqueue m queue).Perm (m :: queue) :=
  List.perm_orderedInsert _ m queue

/-- What a message changes, and when the program is told of it. -/
inductive Sends (s : State) (m : Message) : State → Prop
  | told (first : s.queue = []) (registered : s.registered = true) :
    Sends s m { s with queue := enqueue m s.queue, sent := s.sent ++ [m], registered := false, pending := true }
  | untold (other : s.queue ≠ [] ∨ s.registered = false) :
    Sends s m { s with queue := enqueue m s.queue, sent := s.sent ++ [m] }

theorem mqSend_sends (h : mqSend maxmsg s m = some t) : Sends s m t := by
  unfold mqSend at h
  split at h
  · split at h
    · rename_i told
      obtain rfl := Option.some.inj h
      simp only [Bool.and_eq_true, List.isEmpty_iff] at told
      exact .told told.1 told.2
    · rename_i untold
      obtain rfl := Option.some.inj h
      simp only [Bool.and_eq_true, List.isEmpty_iff, not_and_or, Bool.not_eq_true] at untold
      exact .untold untold
  · cases h

/-- The statements of the program. -/
inductive Proceeds (p : Program) (s : State) : State → Prop
  | taken (at_ : s.pc = .wait) (pending : s.pending = true) :
    Proceeds p s { s with pending := false, pc := if p.reregisters then .mqNotify else .mqReceive }
  | registers (at_ : s.pc = .mqNotify) (free : s.registered = false) :
    Proceeds p s { s with pc := .mqReceive, registered := true }
  | busy (at_ : s.pc = .mqNotify) (registered : s.registered = true) : Proceeds p s { s with pc := .failed }
  | reads (at_ : s.pc = .mqReceive) {m : Message} {queue : List Message} (first : s.queue = m :: queue) :
    Proceeds p s { s with queue := queue, read := s.read ++ [m] }
  | empty (at_ : s.pc = .mqReceive) (drained : s.queue = []) : Proceeds p s { s with pc := .wait }

theorem mqNotify_none : mqNotify s = none ↔ s.registered = true := by
  unfold mqNotify
  split <;> simp_all

theorem mqNotify_some : mqNotify s = some t ↔ s.registered = false ∧ { s with registered := true } = t := by
  unfold mqNotify
  split <;> simp_all

theorem mqReceive_none : mqReceive s = none ↔ s.queue = [] := by
  unfold mqReceive
  split <;> simp_all

theorem mqReceive_some (h : mqReceive s = some t) :
    ∃ m queue, s.queue = m :: queue ∧ { s with queue := queue, read := s.read ++ [m] } = t := by
  unfold mqReceive at h
  split at h
  · cases h
  · exact ⟨_, _, ‹_›, Option.some.inj h⟩

theorem proceed_proceeds (h : proceed p s = some t) : Proceeds p s t := by
  unfold proceed at h
  split at h
  · rename_i at_
    split at h
    · obtain rfl := Option.some.inj h
      exact .taken at_ ‹_›
    · cases h
  · rename_i at_
    split at h
    · rename_i busy
      obtain rfl := Option.some.inj h
      exact .busy at_ (mqNotify_none.mp busy)
    · rename_i registers
      obtain ⟨free, rfl⟩ := mqNotify_some.mp registers
      obtain rfl := Option.some.inj h
      exact .registers at_ free
  · rename_i at_
    split at h
    · rename_i empty
      obtain rfl := Option.some.inj h
      exact .empty at_ (mqReceive_none.mp empty)
    · rename_i reads
      obtain ⟨m, queue, first, rfl⟩ := mqReceive_some reads
      obtain rfl := Option.some.inj h
      exact .reads at_ first
  · cases h

theorem proceed_eq_none : proceed p s = none ↔ s.pc = .failed ∨ s.pc = .wait ∧ s.pending = false := by
  unfold proceed
  cases at_ : s.pc with
  | wait => simp
  | mqNotify => cases mqNotify s <;> simp
  | mqReceive => cases mqReceive s <;> simp
  | failed => simp

theorem kept_sends (kept : Kept s) (sends : Sends s m t) : Kept t := by
  have grown : (s.read ++ enqueue m s.queue).Perm (s.sent ++ [m]) := by
    calc (s.read ++ enqueue m s.queue).Perm (s.read ++ m :: s.queue) :=
          (enqueue_perm m s.queue).append_left s.read
      _ |>.Perm (m :: (s.read ++ s.queue)) := List.perm_middle
      _ |>.Perm (m :: s.sent) := List.Perm.cons m kept
      _ |>.Perm (s.sent ++ [m]) := (List.perm_append_singleton m s.sent).symm
  cases sends <;> exact grown

theorem kept_proceeds (kept : Kept s) (proceeds : Proceeds p s t) : Kept t := by
  cases proceeds with
  | reads at_ first =>
    unfold Kept at kept ⊢
    rw [first] at kept
    simpa using kept
  | _ => exact kept

/-- What carries the program that registers again, wherever the signals come from. -/
structure Told (s : State) : Prop where
  kept : Kept s
  told : s.pc = .wait ∨ s.pc = .mqReceive → s.registered = true ∨ s.pending = true
  drained : s.pc = .wait → s.pending = false → s.queue = []

theorem told_start : Told (start []) where
  kept := List.Perm.refl []
  told := fun _ => Or.inl rfl
  drained := fun _ _ => rfl

theorem told_proceeds (again : p.reregisters = true) (inv : Told s) (proceeds : Proceeds p s t) : Told t := by
  obtain ⟨kept, told, drained⟩ := inv
  have kept' := kept_proceeds kept proceeds
  cases proceeds with
  | taken at_ pending => exact ⟨kept', by simp [again], by simp [again]⟩
  | registers at_ free => exact ⟨kept', fun _ => Or.inl rfl, nofun⟩
  | busy at_ registered => exact ⟨kept', by simp, nofun⟩
  | reads at_ first => exact ⟨kept', told, by simp [at_]⟩
  | empty at_ none => exact ⟨kept', fun _ => told (Or.inr at_), fun _ _ => none⟩

theorem told_step (again : p.reregisters = true) (s : State) (e : Event) (t : State) (inv : Told s)
    (h : step p maxmsg s e = some t) : Told t := by
  cases e with
  | send m =>
    have sends := mqSend_sends h
    have kept := kept_sends inv.kept sends
    cases sends with
    | told first registered => exact ⟨kept, fun _ => Or.inr rfl, nofun⟩
    | untold other =>
      refine ⟨kept, inv.told, fun at_ quiet => ?_⟩
      have empty := inv.drained at_ quiet
      have registered := (inv.told (Or.inl at_)).resolve_right (Bool.eq_false_iff.mp quiet)
      simp [empty, registered] at other
  | kill =>
    obtain rfl := Option.some.inj h
    exact ⟨inv.kept, fun _ => Or.inr rfl, nofun⟩
  | proceed => exact told_proceeds again inv (proceed_proceeds h)

/-- While no other process sends the signal, there is one of it for each registration. -/
structure Once (s : State) : Prop where
  running : s.pc ≠ .failed
  free : s.pc = .mqNotify → s.registered = false ∧ s.pending = false
  once : s.pending = true → s.registered = false

theorem once_start (queue : List Message) : Once (start queue) := ⟨nofun, nofun, nofun⟩

theorem once_proceeds (inv : Once s) (proceeds : Proceeds p s t) : Once t := by
  obtain ⟨running, free, once⟩ := inv
  cases proceeds with
  | taken at_ pending =>
    refine ⟨?_, fun _ => ⟨once pending, rfl⟩, nofun⟩
    cases p.reregisters <;> simp
  | registers at_ _ =>
    refine ⟨nofun, nofun, fun pending => ?_⟩
    simp [(free at_).2] at pending
  | busy at_ registered => simp [(free at_).1] at registered
  | reads at_ first => exact ⟨running, free, once⟩
  | empty at_ none => exact ⟨nofun, nofun, once⟩

theorem once_step (s : State) (e : Event) (t : State) (inv : Once s) (own : e ≠ .kill)
    (h : step p maxmsg s e = some t) : Once t := by
  cases e with
  | send m =>
    have sends := mqSend_sends h
    cases sends with
    | told first registered =>
      refine ⟨inv.running, fun at_ => ?_, fun _ => rfl⟩
      simp [(inv.free at_).1] at registered
    | untold other => exact ⟨inv.running, inv.free, inv.once⟩
  | kill => exact absurd rfl own
  | proceed => exact once_proceeds inv (proceed_proceeds h)

/-- Runs in which no other process sends the signal. -/
theorem own_run {I : State → Prop}
    (keeps : ∀ s e t, I s → e ≠ .kill → step p maxmsg s e = some t → I t) (inv : I s) (own : .kill ∉ events)
    (run : events.foldlM (step p maxmsg) s = some t) : I t := by
  have met (first : List Event) (e : Event) (rest : List Event) (u : State)
      (whole : events ++ [] = first ++ e :: rest) (_ : first.foldlM (step p maxmsg) s = some u) : e ≠ .kill := by
    rintro rfl
    apply own
    rw [← List.append_nil events, whole]
    simp
  exact run_invariant (C := fun _ e => e ≠ .kill) keeps inv met run

def Pc.left : Pc → Nat
  | .mqNotify => 2
  | .mqReceive => 1
  | .wait | .failed => 0

/-- How many statements the program makes while nothing is sent. -/
def State.left (s : State) : Nat := s.queue.length + 3 * s.pending.toNat + s.pc.left

theorem proceeds_falls (proceeds : Proceeds p s t) : t.left < s.left := by
  unfold State.left
  cases proceeds with
  | taken at_ pending =>
    rw [at_, pending]
    cases p.reregisters <;> simp [Pc.left]
  | registers at_ free => simp [at_, Pc.left]
  | busy at_ registered => simp [at_, Pc.left]
  | reads at_ first => simp [first]
  | empty at_ none => simp [at_, Pc.left]

theorem left_le (s : State) : s.left ≤ s.queue.length + 5 := by
  unfold State.left
  have pc : s.pc.left ≤ 2 := by cases s.pc <;> decide
  have pending := Bool.toNat_le s.pending
  omega

theorem proceeds_sent (proceeds : Proceeds p s t) : t.sent = s.sent := by cases proceeds <;> rfl

/-- Whatever the senders do and whenever the signals come, the program has read every message soon after
they pause, just when the queue was empty as it registered first. -/
theorem catches_up_iff (maxmsg : Nat) (queue : List Message) :
    (∀ (events : List Event) (s : State), events.foldlM (step sigwaitinfoNotify maxmsg) (start queue) = some s →
      ∃ k ≤ s.queue.length + 5, ∃ t,
        (List.replicate k .proceed).foldlM (step sigwaitinfoNotify maxmsg) s = some t ∧
        proceed sigwaitinfoNotify t = none ∧
        (t.pc = .failed → Event.kill ∈ events) ∧
        (t.pc ≠ .failed → t.queue = [] ∧ t.read.Perm s.sent)) ↔ queue = [] := by
  constructor
  · intro all
    obtain ⟨k, _, t, run, _, _, read⟩ := all [] (start queue) rfl
    cases k with
    | zero =>
      obtain rfl := Option.some.inj run
      exact (read nofun).1
    | succ k => cases run
  · rintro rfl events s run
    have told : Told s := leads_invariant (told_step rfl) (leads_events run) told_start
    have keeps (u v : State) (inv : Told u ∧ (Event.kill ∉ events → Once u) ∧ u.sent = s.sent)
        (h : step sigwaitinfoNotify maxmsg u .proceed = some v) :
        (Told v ∧ (Event.kill ∉ events → Once v) ∧ v.sent = s.sent) ∧ v.left < u.left := by
      have proceeds := proceed_proceeds h
      obtain ⟨told, once, sent⟩ := inv
      exact ⟨⟨told_proceeds rfl told proceeds, fun own => once_proceeds (once own) proceeds,
        (proceeds_sent proceeds).trans sent⟩, proceeds_falls proceeds⟩
    obtain ⟨k, few, t, more, ⟨told, once, sent⟩, settled⟩ :=
      settles keeps ⟨told, fun own => own_run once_step (once_start []) own run, rfl⟩
    refine ⟨k, few.trans (left_le s), t, more, settled, fun failed => ?_, fun running => ?_⟩
    · by_contra own
      exact (once own).running failed
    · obtain ⟨at_, quiet⟩ := (proceed_eq_none.mp settled).resolve_left running
      have empty := told.drained at_ quiet
      have kept := told.kept
      rw [Kept, empty, List.append_nil, sent] at kept
      exact ⟨empty, kept⟩

/-- The program that does not register again has read until EAGAIN. -/
structure Ended (s : State) : Prop where
  at_ : s.pc = .wait
  unregistered : s.registered = false
  quiet : s.pending = false

/-- Before that. -/
structure Reading (s : State) : Prop where
  kept : Kept s
  at_ : s.pc = .wait ∨ s.pc = .mqReceive
  told : s.pc = .wait → s.registered = !s.pending
  taken : s.pc = .mqReceive → s.registered = false ∧ s.pending = false
  drained : s.pc = .wait → s.pending = false → s.queue = []

theorem reading_start : Reading (start []) :=
  ⟨List.Perm.refl [], Or.inl rfl, fun _ => rfl, nofun, fun _ _ => rfl⟩

theorem ended_sends (ended : Ended s) (sends : Sends s m t) :
    Ended t ∧ t.read = s.read ∧ t.sent.length = s.sent.length + 1 := by
  obtain ⟨at_, unregistered, quiet⟩ := ended
  cases sends with
  | told first registered => simp [unregistered] at registered
  | untold other => exact ⟨⟨at_, unregistered, quiet⟩, rfl, List.length_append⟩

theorem ended_run (ended : Ended s) (own : .kill ∉ events)
    (run : events.foldlM (step notifyOnce maxmsg) s = some t) :
    t.read = s.read ∧ t.sent.length = s.sent.length + events.length := by
  induction events generalizing s with
  | nil =>
    obtain rfl := Option.some.inj run
    exact ⟨rfl, rfl⟩
  | cons e rest ih =>
    rw [List.foldlM_cons, Option.bind_eq_bind, Option.bind_eq_some_iff] at run
    obtain ⟨u, stepped, run⟩ := run
    have own' : .kill ∉ rest := fun member => own (List.mem_cons_of_mem e member)
    cases e with
    | send m =>
      obtain ⟨ended, same, one⟩ := ended_sends ended (mqSend_sends stepped)
      obtain ⟨read, sent⟩ := ih ended own' run
      refine ⟨read.trans same, ?_⟩
      rw [sent, one, List.length_cons]
      omega
    | kill => simp at own
    | proceed =>
      have waits := proceed_eq_none (p := notifyOnce).mpr (Or.inr ⟨ended.at_, ended.quiet⟩)
      cases waits.symm.trans stepped

theorem reading_proceeds (inv : Reading s) (proceeds : Proceeds notifyOnce s t) :
    Reading t ∨ Ended t ∧ t.read.Perm t.sent := by
  obtain ⟨kept, at', told, taken, drained⟩ := inv
  have kept' := kept_proceeds kept proceeds
  cases proceeds with
  | taken at_ pending =>
    have registered := told at_
    simp only [pending, Bool.not_true] at registered
    exact Or.inl ⟨kept', Or.inr rfl, nofun, fun _ => ⟨registered, rfl⟩, nofun⟩
  | registers at_ free => simp [at_] at at'
  | busy at_ registered => simp [at_] at at'
  | reads at_ first => exact Or.inl ⟨kept', Or.inr at_, by simp [at_], taken, by simp [at_]⟩
  | empty at_ none =>
    obtain ⟨unregistered, quiet⟩ := taken at_
    refine Or.inr ⟨⟨rfl, unregistered, quiet⟩, ?_⟩
    simpa [Kept, none] using kept'

theorem reading_sends (inv : Reading s) (sends : Sends s m t) : Reading t := by
  obtain ⟨kept, at', told, taken, drained⟩ := inv
  have kept' := kept_sends kept sends
  cases sends with
  | told first registered =>
    refine ⟨kept', at', fun _ => rfl, fun at_ => ?_, nofun⟩
    simp [(taken at_).1] at registered
  | untold other =>
    refine ⟨kept', at', told, taken, fun at_ quiet => ?_⟩
    have quiet : s.pending = false := quiet
    simp [drained at_ quiet, told at_, quiet] at other

/-- A run of `notify_once` has a point up to which everything sent is read, and nothing that is sent later. -/
theorem reading_run (inv : Reading s) (own : .kill ∉ events)
    (run : events.foldlM (step notifyOnce maxmsg) s = some t) (settled : proceed notifyOnce t = none) :
    ∃ before after u, events = before ++ after ∧ before.foldlM (step notifyOnce maxmsg) s = some u ∧
      u.read.Perm u.sent ∧ t.read = u.read ∧ t.sent.length = u.sent.length + after.length := by
  induction events generalizing s with
  | nil =>
    obtain rfl := Option.some.inj run
    refine ⟨[], [], s, rfl, rfl, ?_, rfl, rfl⟩
    obtain failed | ⟨at_, quiet⟩ := proceed_eq_none.mp settled
    · simpa [failed] using inv.at_
    · simpa [Kept, inv.drained at_ quiet] using inv.kept
  | cons e rest ih =>
    rw [List.foldlM_cons, Option.bind_eq_bind, Option.bind_eq_some_iff] at run
    obtain ⟨v, stepped, run⟩ := run
    have own' : .kill ∉ rest := fun member => own (List.mem_cons_of_mem e member)
    have first (u : State) (before : List Event)
        (more : before.foldlM (step notifyOnce maxmsg) v = some u) :
        (e :: before).foldlM (step notifyOnce maxmsg) s = some u := by
      rw [List.foldlM_cons, stepped]
      exact more
    have goes_on (inv : Reading v) : ∃ before after u, e :: rest = before ++ after ∧
        before.foldlM (step notifyOnce maxmsg) s = some u ∧
        u.read.Perm u.sent ∧ t.read = u.read ∧ t.sent.length = u.sent.length + after.length := by
      obtain ⟨before, after, u, whole, reached, read⟩ := ih inv own' run
      exact ⟨e :: before, after, u, congrArg (e :: ·) whole, first u before reached, read⟩
    cases e with
    | send m => exact goes_on (reading_sends inv (mqSend_sends stepped))
    | kill => simp at own
    | proceed =>
      obtain inv | ⟨ended, all⟩ := reading_proceeds inv (proceed_proceeds stepped)
      · exact goes_on inv
      · exact ⟨[.proceed], rest, v, rfl, first v [] rfl, all, ended_run ended own' run⟩

/-- Whether `notify_once` reads everything is whether nothing is sent after it has found the queue empty. -/
theorem reads_once (own : .kill ∉ events)
    (run : events.foldlM (step notifyOnce maxmsg) (start []) = some s)
    (settled : proceed notifyOnce s = none) :
    ∃ before after t, events = before ++ after ∧
      before.foldlM (step notifyOnce maxmsg) (start []) = some t ∧ t.read.Perm t.sent ∧ s.read = t.read ∧
      (s.read.Perm s.sent ↔ after = []) := by
  obtain ⟨before, after, t, whole, reached, all, read, sent⟩ := reading_run reading_start own run settled
  refine ⟨before, after, t, whole, reached, all, read, fun everything => ?_, ?_⟩
  · have length := everything.length_eq
    have before := all.length_eq
    rw [read] at length
    rw [← List.length_eq_zero_iff]
    omega
  · rintro rfl
    rw [List.append_nil] at whole
    rw [← whole, run] at reached
    obtain rfl := Option.some.inj reached
    exact all

/-- The second message comes when the queue has been found empty. -/
def twice : List Event := [.send ⟨0, [72]⟩, .proceed, .proceed, .proceed, .send ⟨0, [73]⟩]

theorem reads_once_sample : ∃ s, twice.foldlM (step notifyOnce 10) (start []) = some s ∧ s.sent.length = 2 ∧
    ∃ before after t, twice = before ++ after ∧
      before.foldlM (step notifyOnce 10) (start []) = some t ∧ t.read.Perm t.sent ∧ s.read = t.read ∧
      (s.read.Perm s.sent ↔ after = []) :=
  ⟨_, rfl, rfl, reads_once (by simp [twice]) rfl rfl⟩

/-- A message before the first `mq_notify` keeps both programs from reading. -/
structure Deaf (s : State) : Prop where
  at_ : s.pc = .wait
  quiet : s.pending = false
  waiting : s.queue ≠ []
  read : s.read = []

theorem deaf_step (s : State) (e : Event) (t : State) (deaf : Deaf s) (own : e ≠ .kill)
    (h : step p maxmsg s e = some t) : Deaf t := by
  obtain ⟨at_, quiet, waiting, read⟩ := deaf
  cases e with
  | send m =>
    have sends := mqSend_sends h
    cases sends with
    | told first registered => exact absurd first waiting
    | untold other =>
      refine ⟨at_, quiet, fun empty => ?_, read⟩
      have length := (enqueue_perm m s.queue).length_eq
      simp [show enqueue m s.queue = [] from empty] at length
  | kill => exact absurd rfl own
  | proceed =>
    have waits := proceed_eq_none (p := p).mpr (Or.inr ⟨at_, quiet⟩)
    cases waits.symm.trans h

theorem reads_nothing {queue : List Message} (waiting : queue ≠ []) (own : .kill ∉ events)
    (run : events.foldlM (step p maxmsg) (start queue) = some s) : s.read = [] :=
  (own_run deaf_step ⟨rfl, rfl, waiting, rfl⟩ own run).read

end Tlpi.MqNotify
