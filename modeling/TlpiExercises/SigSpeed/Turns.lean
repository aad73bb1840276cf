import TlpiExercises.SigSpeed.Model

/-!
# Signals in turn

What one process has sent the other has received, but for a signal that is pending. Neither goes on
without the other's signal, so at most one is on its way and none is merged with another.
-/

namespace Tlpi.SigSpeed

open Transitions

/-- The signals sent in the round that has begun. -/
def Pc.sent : Pc → Party → Nat
  | .wait, .child | .inside, .child | .increment, _ => 1
  | .wait, .parent | .inside, .parent | .test, _ | .kill, _ | .exited, _ | .failed, _ => 0

/-- The signals received in the round that has begun. -/
def Pc.gotten : Pc → Party → Nat
  | .kill, .parent | .increment, _ => 1
  | .kill, .child | .test, _ | .wait, _ | .inside, _ | .exited, _ | .failed, _ => 0

/-- In the body of the `for`. -/
def Pc.within : Pc → Bool
  | .kill | .wait | .inside | .increment => true
  | .test | .exited | .failed => false

/-- The first `k` of the signals that alternate, the child's first. -/
def turns : Nat → List Party
  | 0 => []
  | k + 1 => turns k ++ [if k % 2 = 0 then .child else .parent]

/-- A process that has made `n` rounds. -/
structure Fits (numSigs : Int) (who : Party) (p : Process) (n : Nat) : Prop where
  scnt : p.scnt = n
  received : p.received = n + p.pc.gotten who
  blocked : p.blocked = true
  interrupted : p.interrupted = 0
  running : p.pc ≠ .failed
  bound : n ≤ numSigs.toNat
  within : p.pc.within = true → n < numSigs.toNat
  exited : p.pc = .exited → n = numSigs.toNat

def State.sent (s : State) (n : Party → Nat) (who : Party) : Nat :=
  n who + (s.process who).pc.sent who

def State.gotten (s : State) (n : Party → Nat) (who : Party) : Nat :=
  n who + (s.process who).pc.gotten who

/-- The invariant; `n` has the rounds that each process has made. -/
structure At (numSigs : Int) (s : State) (n : Party → Nat) : Prop where
  fits : ∀ who, Fits numSigs who (s.process who) (n who)
  delivered : ∀ who,
    s.gotten n who.other + (s.process who.other).pending.toNat = s.sent n who
  kills : s.kills = turns (s.sent n .child + s.sent n .parent)
  strays : s.strays = 0

theorem at_start (numSigs : Int) : At numSigs start fun _ => 0 where
  fits := fun _ => ⟨rfl, rfl, rfl, rfl, nofun, Nat.zero_le _, nofun, nofun⟩
  delivered := fun who => by cases who <;> rfl
  kills := rfl
  strays := rfl

@[simp] theorem other_other (who : Party) : who.other.other = who := by cases who <;> rfl

theorem other_ne (who : Party) : who.other ≠ who := by cases who <;> nofun

@[simp] theorem set_self (s : State) (who : Party) (p : Process) :
    (s.set who p).process who = p := Function.update_self ..

@[simp] theorem set_other (s : State) (who : Party) (p : Process) :
    (s.set who p).process who.other = s.process who.other := Function.update_of_ne (other_ne who) ..

theorem eq_or_other (who party : Party) : party = who ∨ party = who.other := by
  cases who <;> cases party <;> first | exact Or.inl rfl | exact Or.inr rfl

section Steps

variable {setting : Setting} {s t : State} {n : Party → Nat} {who : Party}

/-- A statement of one process that neither sends nor receives. -/
theorem at_goes_on (inv : At setting.numSigs s n) {p : Process} {m : Nat}
    (fits : Fits setting.numSigs who p m) (pending : p.pending = (s.process who).pending)
    (gotten : m + p.pc.gotten who = s.gotten n who) (sent : m + p.pc.sent who = s.sent n who) :
    At setting.numSigs (s.set who p) (Function.update n who m) := by
  have same_sent (party : Party) :
      (s.set who p).sent (Function.update n who m) party = s.sent n party := by
    rcases eq_or_other who party with rfl | rfl
    · rw [State.sent, set_self, Function.update_self]
      exact sent
    · simp [State.sent, other_ne]
  have same_gotten (party : Party) :
      (s.set who p).gotten (Function.update n who m) party = s.gotten n party := by
    rcases eq_or_other who party with rfl | rfl
    · rw [State.gotten, set_self, Function.update_self]
      exact gotten
    · simp [State.gotten, other_ne]
  have same_pending (party : Party) :
      ((s.set who p).process party).pending = (s.process party).pending := by
    rcases eq_or_other who party with rfl | rfl
    · rw [set_self, pending]
    · rw [set_other]
  refine ⟨fun party => ?_, fun party => ?_, ?_, inv.strays⟩
  · rcases eq_or_other who party with rfl | rfl
    · rw [set_self, Function.update_self]
      exact fits
    · rw [set_other, Function.update_of_ne (other_ne who)]
      exact inv.fits who.other
  · rw [same_sent, same_gotten, same_pending]
    exact inv.delivered party
  · rw [same_sent, same_sent]
    exact inv.kills

theorem gotten_le_sent (pc : Pc) : pc.gotten .child ≤ pc.sent .child := by cases pc <;> decide

theorem sent_le_gotten (pc : Pc) : pc.sent .parent ≤ pc.gotten .parent := by cases pc <;> decide

theorem sent_le_one (pc : Pc) (who : Party) : pc.sent who ≤ 1 := by
  cases pc <;> cases who <;> decide

/-- The child begins a round when the parent has ended the one before. -/
theorem child_kill (inv : At setting.numSigs s n) (here : (s.process .child).pc = .kill) :
    s.sent n .child = s.sent n .parent ∧ (s.process .parent).pending = false ∧
      (s.process .parent).pc ≠ .exited := by
  have toParent : _ + _ = _ := inv.delivered .child
  have toChild : _ + _ = _ := inv.delivered .parent
  have order := sent_le_gotten (s.process .parent).pc
  have below := (inv.fits .child).within (by rw [here]; rfl)
  have unsent : (s.process .child).pc.sent .child = 0 := by rw [here]; rfl
  have awaiting : (s.process .child).pc.gotten .child = 0 := by rw [here]; rfl
  simp only [State.sent, State.gotten, Party.other, unsent, awaiting] at toParent toChild ⊢
  refine ⟨by omega, ?_, fun left => ?_⟩
  · rw [← Bool.toNat_eq_zero]
    omega
  · have whole := (inv.fits .parent).exited left
    omega

/-- The parent answers while the child waits. -/
theorem parent_kill (inv : At setting.numSigs s n) (here : (s.process .parent).pc = .kill) :
    s.sent n .child = s.sent n .parent + 1 ∧ (s.process .child).pending = false ∧
      (s.process .child).pc ≠ .exited := by
  have toParent : _ + _ = _ := inv.delivered .child
  have toChild : _ + _ = _ := inv.delivered .parent
  have order := gotten_le_sent (s.process .child).pc
  have one := sent_le_one (s.process .child).pc .child
  have unsent : (s.process .parent).pc.sent .parent = 0 := by rw [here]; rfl
  have taken : (s.process .parent).pc.gotten .parent = 1 := by rw [here]; rfl
  simp only [State.sent, State.gotten, Party.other, unsent, taken] at toParent toChild ⊢
  refine ⟨by omega, ?_, fun left => ?_⟩
  · rw [← Bool.toNat_eq_zero]
    omega
  · rw [left] at toParent toChild
    have unsent : Pc.exited.sent .child = 0 := rfl
    have awaiting : Pc.exited.gotten .child = 0 := rfl
    omega

theorem post_running (inv : At setting.numSigs s n) (present : (s.process who).pc ≠ .exited) :
    s.post who = s.set who { s.process who with pending := true } := by
  have running := (inv.fits who).running
  unfold State.post
  split
  · rename_i left
    exact absurd left present
  · rename_i left
    exact absurd left running
  all_goals rfl

/-- From one statement of the body to the next. -/
theorem fits_within {numSigs : Int} {p q : Process} {m : Nat} (fits : Fits numSigs who p m)
    (within : p.pc.within = true) (inside : q.pc.within = true) (scnt : q.scnt = p.scnt)
    (received : q.received + p.pc.gotten who = p.received + q.pc.gotten who)
    (blocked : q.blocked = p.blocked) (interrupted : q.interrupted = p.interrupted) :
    Fits numSigs who q m where
  scnt := scnt.trans fits.scnt
  received := by
    have before := fits.received
    omega
  blocked := blocked.trans fits.blocked
  interrupted := interrupted.trans fits.interrupted
  running := by
    intro left
    rw [left] at inside
    cases inside
  bound := fits.bound
  within := fun _ => fits.within within
  exited := by
    intro left
    rw [left] at inside
    cases inside

theorem kill_effect (inv : At setting.numSigs s n) (present : (s.process who.other).pc ≠ .exited) :
    (s.kill setting who).process who = { s.process who with pc := who.afterKill } ∧
    (s.kill setting who).process who.other = { s.process who.other with pending := true } ∧
    (s.kill setting who).kills = s.kills ++ [who] ∧ (s.kill setting who).strays = s.strays := by
  have running := (inv.fits who.other).running
  have stays : ¬ (who = .child ∧
      ((s.process .parent).pc = .exited ∨ (s.process .parent).pc = .failed)) := by
    rintro ⟨rfl, left | left⟩
    · exact present left
    · exact running left
  unfold State.kill
  dsimp only
  rw [if_neg stays, post_running inv present]
  have self : (s.set who.other { s.process who.other with pending := true }).process who =
      s.process who := by
    have frame := set_other s who.other { s.process who.other with pending := true }
    rw [other_other] at frame
    exact frame
  refine ⟨?_, ?_, rfl, rfl⟩
  · unfold State.goto
    rw [set_self]
    dsimp only
    rw [self]
  · unfold State.goto
    rw [set_other]
    exact set_self ..

/-- One more signal on its way. -/
theorem at_kill (inv : At setting.numSigs s n) (here : (s.process who).pc = .kill)
    (quiet : (s.process who.other).pending = false) (present : (s.process who.other).pc ≠ .exited)
    (turn : turns (s.sent n .child + s.sent n .parent) ++ [who] =
      turns (s.sent n .child + s.sent n .parent + 1)) :
    At setting.numSigs (s.kill setting who) n := by
  obtain ⟨mine, others, kills, strays⟩ := kill_effect inv present
  have sent : (s.kill setting who).sent n who = s.sent n who + 1 := by
    unfold State.sent
    rw [mine, here]
    cases who <;> rfl
  have frame : (s.kill setting who).sent n who.other = s.sent n who.other := by
    unfold State.sent
    rw [others]
  have gotten (party : Party) : (s.kill setting who).gotten n party = s.gotten n party := by
    unfold State.gotten
    rcases eq_or_other who party with rfl | rfl
    · rw [mine, here]
      cases party <;> rfl
    · rw [others]
  refine ⟨fun party => ?_, fun party => ?_, ?_, strays.trans inv.strays⟩
  · rcases eq_or_other who party with rfl | rfl
    · rw [mine]
      refine fits_within (inv.fits party) (by rw [here]; rfl) ?_ rfl ?_ rfl rfl
      · cases party <;> rfl
      · rw [here]
        cases party <;> rfl
    · rw [others]
      exact { inv.fits who.other with }
  · rw [gotten]
    rcases eq_or_other who party with rfl | rfl
    · have delivered := inv.delivered party
      rw [quiet] at delivered
      rw [others, sent, ← delivered]
      rfl
    · have delivered := inv.delivered who.other
      rw [other_other] at delivered ⊢
      rw [mine, frame]
      exact delivered
  · rw [kills, inv.kills, turn]
    cases who with
    | child =>
      have sent : (s.kill setting .child).sent n .child = s.sent n .child + 1 := sent
      have frame : (s.kill setting .child).sent n .parent = s.sent n .parent := frame
      rw [sent, frame, Nat.add_right_comm]
    | parent =>
      have sent : (s.kill setting .parent).sent n .parent = s.sent n .parent + 1 := sent
      have frame : (s.kill setting .parent).sent n .child = s.sent n .child := frame
      rw [sent, frame, Nat.add_assoc]

theorem endWait_effect (blocked : (s.process who).blocked = true)
    (ended : s.endWait setting who = some t) : (s.process who).pending = true ∧
      t = s.set who { s.process who with
        pc := who.afterWait, pending := false, received := (s.process who).received + 1 } := by
  unfold State.endWait at ended
  dsimp only at ended
  split at ended
  · rename_i pending
    rw [if_neg fun failing => failing.2 blocked] at ended
    cases ended
    exact ⟨pending, rfl⟩
  · cases ended

/-- The signal that was pending is received. -/
theorem at_endWait (inv : At setting.numSigs s n) (here : (s.process who).pc = .inside)
    (ended : s.endWait setting who = some t) : At setting.numSigs t n := by
  have fits := inv.fits who
  obtain ⟨pending, rfl⟩ := endWait_effect fits.blocked ended
  have sent (party : Party) : (s.set who { s.process who with
      pc := who.afterWait, pending := false, received := (s.process who).received + 1 }).sent n party =
      s.sent n party := by
    unfold State.sent
    rcases eq_or_other who party with rfl | rfl
    · rw [set_self, here]
      cases party <;> rfl
    · rw [set_other]
  refine ⟨fun party => ?_, fun party => ?_, ?_, inv.strays⟩
  · rcases eq_or_other who party with rfl | rfl
    · rw [set_self]
      refine fits_within fits (by rw [here]; rfl) ?_ rfl ?_ rfl rfl
      · cases party <;> rfl
      · rw [here]
        cases party <;> rfl
    · rw [set_other]
      exact inv.fits who.other
  · rw [sent]
    have delivered := inv.delivered party
    rcases eq_or_other who party with rfl | rfl
    · rw [State.gotten, set_other]
      exact delivered
    · rw [other_other] at delivered ⊢
      rw [State.gotten, here, pending] at delivered
      rw [State.gotten, set_self, ← delivered]
      cases who <;> rfl
  · rw [sent, sent]
    exact inv.kills

theorem at_test (inv : At setting.numSigs s n) (here : (s.process who).pc = .test) :
    At setting.numSigs
      (s.goto who (if (s.process who).scnt < setting.numSigs then who.body else .exited))
      (Function.update n who (n who)) := by
  have fits := inv.fits who
  have scnt := fits.scnt
  have bound := fits.bound
  have received := fits.received
  rw [here] at received
  split
  · rename_i more
    refine at_goes_on inv { fits with
      received := ?_, running := ?_, within := fun _ => ?_, exited := ?_ } rfl ?_ ?_
    · cases who <;> exact received
    · cases who <;> nofun
    · omega
    · cases who <;> nofun
    · rw [State.gotten, here]
      cases who <;> rfl
    · rw [State.sent, here]
      cases who <;> rfl
  · rename_i enough
    refine at_goes_on inv { fits with
      received := ?_, running := nofun, within := nofun, exited := fun _ => ?_ } rfl ?_ ?_
    · cases who <;> exact received
    · omega
    · rw [State.gotten, here]
      cases who <;> rfl
    · rw [State.sent, here]
      cases who <;> rfl

theorem at_wait (inv : At setting.numSigs s n) (here : (s.process who).pc = .wait) :
    At setting.numSigs (s.goto who .inside) (Function.update n who (n who)) := by
  refine at_goes_on inv (fits_within (inv.fits who) (by rw [here]; rfl) rfl rfl ?_ rfl rfl) rfl ?_ ?_
  · rw [here]
    cases who <;> rfl
  · rw [State.gotten, here]
    cases who <;> rfl
  · rw [State.sent, here]
    cases who <;> rfl

theorem at_increment (inv : At setting.numSigs s n) (here : (s.process who).pc = .increment) :
    At setting.numSigs
      (s.set who { s.process who with pc := .test, scnt := (s.process who).scnt + 1 })
      (Function.update n who (n who + 1)) := by
  have fits := inv.fits who
  have scnt := fits.scnt
  have received := fits.received
  rw [here] at received
  refine at_goes_on inv { fits with
    scnt := ?_, received := ?_, running := nofun, bound := ?_, within := nofun, exited := nofun } rfl ?_ ?_
  · show (s.process who).scnt + 1 = _
    omega
  · cases who <;> exact received
  · exact fits.within (by rw [here]; rfl)
  · rw [State.gotten, here]
    cases who <;> rfl
  · rw [State.sent, here]
    cases who <;> rfl

theorem at_step (s : State) (who : Party) (t : State) (inv : ∃ n, At setting.numSigs s n)
    (h : step setting s who = some t) : ∃ n, At setting.numSigs t n := by
  obtain ⟨n, inv⟩ := inv
  unfold step at h
  dsimp only at h
  rw [if_neg fun running => running.2.1 (inv.fits who).blocked] at h
  cases here : (s.process who).pc with
  | test =>
    rw [here] at h
    cases h
    exact ⟨_, at_test inv here⟩
  | kill =>
    rw [here] at h
    cases h
    refine ⟨n, ?_⟩
    cases who with
    | child =>
      obtain ⟨even, quiet, present⟩ := child_kill inv here
      refine at_kill inv here quiet present ?_
      rw [even, turns, if_pos (by omega)]
    | parent =>
      obtain ⟨odd, quiet, present⟩ := parent_kill inv here
      refine at_kill inv here quiet present ?_
      rw [odd, turns, if_neg (by omega)]
  | wait =>
    rw [here] at h
    cases h
    exact ⟨_, at_wait inv here⟩
  | inside =>
    rw [here] at h
    exact ⟨n, at_endWait inv here h⟩
  | increment =>
    rw [here] at h
    cases h
    exact ⟨_, at_increment inv here⟩
  | exited | failed =>
    rw [here] at h
    cases h

/-- The statements of its loop that a process has made. -/
def Pc.made : Pc → Party → Nat
  | .test, _ => 0
  | .kill, .child | .wait, .parent | .exited, _ | .failed, _ => 1
  | .wait, .child | .inside, .parent => 2
  | .inside, .child | .kill, .parent => 3
  | .increment, _ => 4

def Process.made (p : Process) (who : Party) : Nat := 5 * p.scnt.toNat + p.pc.made who

def State.made (s : State) : Nat :=
  (s.process .child).made .child + (s.process .parent).made .parent

theorem made_one (who : Party) (own : (t.process who).made who = (s.process who).made who + 1)
    (frame : (t.process who.other).made who.other = (s.process who.other).made who.other) :
    t.made = s.made + 1 := by
  unfold State.made
  cases who with
  | child =>
    have frame : (t.process .parent).made .parent = (s.process .parent).made .parent := frame
    omega
  | parent =>
    have frame : (t.process .child).made .child = (s.process .child).made .child := frame
    omega

theorem made_set {p : Process} (own : p.made who = (s.process who).made who + 1) :
    (s.set who p).made = s.made + 1 := by
  refine made_one who ?_ ?_
  · rw [set_self]
    exact own
  · rw [set_other]

theorem made_step (inv : At setting.numSigs s n) (h : step setting s who = some t) :
    t.made = s.made + 1 := by
  have fits := inv.fits who
  unfold step at h
  dsimp only at h
  rw [if_neg fun running => running.2.1 fits.blocked] at h
  cases here : (s.process who).pc with
  | test =>
    rw [here] at h
    cases h
    refine made_set ?_
    rw [Process.made, Process.made, here]
    split <;> cases who <;> rfl
  | kill =>
    rw [here] at h
    cases h
    have present : (s.process who.other).pc ≠ .exited := by
      cases who with
      | child => exact (child_kill inv here).2.2
      | parent => exact (parent_kill inv here).2.2
    obtain ⟨mine, others, _, _⟩ : _ ∧ _ ∧ (s.kill setting who).kills = _ ∧ _ := kill_effect inv present
    refine made_one who ?_ ?_
    · rw [mine, Process.made, Process.made, here]
      cases who <;> rfl
    · rw [others]
      rfl
  | wait =>
    rw [here] at h
    cases h
    refine made_set ?_
    rw [Process.made, Process.made, here]
    cases who <;> rfl
  | inside =>
    rw [here] at h
    obtain ⟨_, rfl⟩ := endWait_effect fits.blocked h
    refine made_set ?_
    rw [Process.made, Process.made, here]
    cases who <;> rfl
  | increment =>
    rw [here] at h
    cases h
    refine made_set ?_
    have scnt := fits.scnt
    rw [Process.made, Process.made, here]
    show 5 * ((s.process who).scnt + 1).toNat + 0 = 5 * (s.process who).scnt.toNat + 4 + 1
    omega
  | exited | failed =>
    rw [here] at h
    cases h

/-- A process that has not exited has not made all its rounds and its last test. -/
theorem made_le {numSigs : Int} {p : Process} {m : Nat} (fits : Fits numSigs who p m) :
    p.pc = .exited ∧ p.made who = 5 * numSigs.toNat + 1 ∨
      p.pc ≠ .exited ∧ p.made who < 5 * numSigs.toNat + 1 := by
  have scnt := fits.scnt
  have bound := fits.bound
  have within := fits.within
  unfold Process.made
  rw [scnt, Int.toNat_natCast]
  cases here : p.pc with
  | exited =>
    refine Or.inl ⟨rfl, ?_⟩
    rw [fits.exited here]
    rfl
  | failed => exact absurd here fits.running
  | test =>
    refine Or.inr ⟨nofun, ?_⟩
    show 5 * m + 0 < _
    omega
  | kill | wait | inside | increment =>
    have below := within (by rw [here]; rfl)
    refine Or.inr ⟨nofun, ?_⟩
    cases who <;> simp only [Pc.made] <;> omega

theorem stuck (fits : Fits setting.numSigs who (s.process who) (n who))
    (h : step setting s who = none) : (s.process who).pc = .exited ∨
      (s.process who).pc = .inside ∧ (s.process who).pending = false := by
  unfold step at h
  dsimp only at h
  rw [if_neg fun running => running.2.1 fits.blocked] at h
  cases here : (s.process who).pc with
  | test | kill | wait | increment =>
    rw [here] at h
    cases h
  | inside =>
    rw [here] at h
    refine Or.inr ⟨rfl, ?_⟩
    unfold State.endWait at h
    dsimp only at h
    split at h
    · split at h <;> cases h
    · rename_i quiet
      exact Bool.eq_false_iff.mpr quiet
  | exited => exact Or.inl rfl
  | failed => exact absurd here fits.running

/-- The processes do not wait for each other. -/
theorem not_both_stuck (inv : At setting.numSigs s n) (none : ∀ who, step setting s who = none) :
    ∀ who, (s.process who).pc = .exited := by
  have toParent : _ + _ = _ := inv.delivered .child
  have toChild : _ + _ = _ := inv.delivered .parent
  have child := stuck (inv.fits .child) (none .child)
  have parent := stuck (inv.fits .parent) (none .parent)
  have wholeChild := (inv.fits .child).exited
  have wholeParent := (inv.fits .parent).exited
  have within := (inv.fits .parent).within
  have within_child := (inv.fits .child).within
  simp only [State.sent, State.gotten, Party.other] at toParent toChild
  rcases child with child | ⟨child, quiet⟩
  · rcases parent with parent | ⟨parent, quiet⟩
    · intro who
      cases who <;> assumption
    · have whole := wholeChild child
      have below := within (by rw [parent]; rfl)
      rw [child, parent, quiet] at toParent
      have toParent : n .parent + 0 + 0 = n .child + 0 := toParent
      omega
  · rcases parent with parent | ⟨parent, calm⟩
    · have whole := wholeParent parent
      have below := within_child (by rw [child]; rfl)
      rw [child, parent, quiet] at toChild
      have toChild : n .child + 0 + 0 = n .parent + 0 := toChild
      omega
    · rw [child, parent, quiet] at toChild
      rw [child, parent, calm] at toParent
      have toChild : n .child + 0 + 0 = n .parent + 0 := toChild
      have toParent : n .parent + 0 + 0 = n .child + 1 := toParent
      omega

end Steps

theorem count_turns (k : Nat) :
    (turns k).count .child = (k + 1) / 2 ∧ (turns k).count .parent = k / 2 := by
  induction k with
  | zero => exact ⟨rfl, rfl⟩
  | succ k ih =>
    rw [turns, List.count_append, List.count_append, ih.1, ih.2]
    split
    · rw [List.count_singleton_self, List.count_singleton, if_neg (by decide)]
      omega
    · rw [List.count_singleton_self, List.count_singleton, if_neg (by decide)]
      omega

theorem length_turns (k : Nat) : (turns k).length = k := by
  induction k with
  | zero => rfl
  | succ k ih => rw [turns, List.length_append, ih, List.length_singleton]

section Reached

variable {setting : Setting} {s : State} {n : Party → Nat} (inv : At setting.numSigs s n)
include inv

/-- The child is at most one signal ahead. -/
theorem sent_halves : s.sent n .child = (s.kills.length + 1) / 2 ∧
    s.sent n .parent = s.kills.length / 2 := by
  have toParent : _ + _ = _ := inv.delivered .child
  have toChild : _ + _ = _ := inv.delivered .parent
  have order := gotten_le_sent (s.process .child).pc
  have order' := sent_le_gotten (s.process .parent).pc
  have one := sent_le_one (s.process .child).pc .child
  have kills := length_turns (s.sent n .child + s.sent n .parent)
  rw [← inv.kills] at kills
  rw [kills]
  simp only [State.sent, State.gotten, Party.other] at toParent toChild ⊢
  omega

theorem kills_alternate : s.kills = turns s.kills.length := by
  have kills := length_turns (s.sent n .child + s.sent n .parent)
  rw [← inv.kills] at kills
  rw [kills]
  exact inv.kills

theorem received_once (who : Party) :
    (s.process who.other).received + (s.process who.other).pending.toNat = s.kills.count who := by
  obtain ⟨child, parent⟩ := sent_halves inv
  obtain ⟨children, parents⟩ := count_turns s.kills.length
  rw [(inv.fits who.other).received, kills_alternate inv]
  refine (inv.delivered who).trans ?_
  cases who with
  | child => rw [child, children]
  | parent => rw [parent, parents]

theorem made_bounded : s.made ≤ 10 * setting.numSigs.toNat + 2 ∧
    (s.made = 10 * setting.numSigs.toNat + 2 ↔ ∀ who, (s.process who).pc = .exited) := by
  have child := made_le (inv.fits .child)
  have parent := made_le (inv.fits .parent)
  unfold State.made
  refine ⟨by omega, fun all who => ?_, fun left => ?_⟩
  · cases who with
    | child => exact (child.resolve_right fun less => by omega).1
    | parent => exact (parent.resolve_right fun less => by omega).1
  · have childAll := child.resolve_right fun other => other.1 (left .child)
    have parentAll := parent.resolve_right fun other => other.1 (left .parent)
    omega

theorem exited_stuck (left : ∀ who, (s.process who).pc = .exited) (who : Party) :
    step setting s who = none := by
  unfold step
  dsimp only
  rw [if_neg fun running => running.2.1 (inv.fits who).blocked, left who]

theorem exited_kills (left : ∀ who, (s.process who).pc = .exited) :
    s.kills.length = 2 * setting.numSigs.toNat := by
  have child : s.sent n .child = n .child := by rw [State.sent, left]; rfl
  have parent : s.sent n .parent = n .parent := by rw [State.sent, left]; rfl
  rw [inv.kills, length_turns, child, parent, (inv.fits .child).exited (left .child),
    (inv.fits .parent).exited (left .parent)]
  omega

end Reached

/-- In every order of steps the signals alternate, the child's first, each is received once by the other
process in the call that waits for it, no process fails or signals another one, and one of the two can go
on until both have exited after `numSigs` rounds. -/
theorem signals_alternate {setting : Setting} {events : List Party} {s : State}
    (run : events.foldlM (step setting) start = some s) :
    s.kills = turns s.kills.length ∧
    (∀ who, (s.process who.other).received + (s.process who.other).pending.toNat =
      s.kills.count who) ∧
    (∀ who, (s.process who).interrupted = 0 ∧ (s.process who).pc ≠ .failed) ∧ s.strays = 0 ∧
    events.length ≤ 10 * setting.numSigs.toNat + 2 ∧
    ((∀ who, step setting s who = none) ↔ events.length = 10 * setting.numSigs.toNat + 2) ∧
    (events.length = 10 * setting.numSigs.toNat + 2 →
      s.kills.length = 2 * setting.numSigs.toNat ∧ ∀ who, (s.process who).pc = .exited) := by
  obtain ⟨⟨n, inv⟩, made⟩ := run_counts (I := fun s => ∃ n, At setting.numSigs s n) (m := State.made)
    (fun s who t inv h => ⟨at_step s who t inv h, made_step inv.choose_spec h⟩)
    ⟨_, at_start setting.numSigs⟩ run
  have begun : start.made = 0 := rfl
  rw [begun, Nat.zero_add] at made
  obtain ⟨bound, whole⟩ := made_bounded inv
  rw [made] at bound whole
  refine ⟨kills_alternate inv, received_once inv,
    fun who => ⟨(inv.fits who).interrupted, (inv.fits who).running⟩, inv.strays, bound,
    ⟨fun none => whole.mpr (not_both_stuck inv none), fun all => exited_stuck inv (whole.mp all)⟩,
    fun all => ⟨exited_kills inv (whole.mp all), whole.mp all⟩⟩

/-- Two rounds. -/
theorem signals_alternate_sample : ∃ s : State, s.kills.length = 2 * (2 : Int).toNat ∧
    ∀ who, (s.process who).pc = .exited := by
  obtain ⟨s, run⟩ : ∃ s : State,
      ([.child, .child, .child, .parent, .parent, .parent, .parent, .child, .child, .child, .child, .child,
        .parent, .parent, .parent, .parent, .parent, .child, .child, .child, .parent, .parent] :
          List Party).foldlM (step ⟨.sigsuspend, 2, false⟩) start = some s := ⟨_, rfl⟩
  exact ⟨s, (signals_alternate run).2.2.2.2.2.2 rfl⟩

end Tlpi.SigSpeed
