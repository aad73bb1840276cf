import TlpiExercises.InetdEcho.Model

/-!
# What the parent has when it returns to `accept`

A descriptor that is not closed, and a child that is not counted down, stay with the server for good.
Their number never falls, so that it tells of a whole run whether one of them was lost.
-/

namespace Tlpi.InetdEcho

open Runs

/-- The descriptor of the connection at hand. -/
def Pc.inHand : Pc → Nat
  | .testCount | .fork | .closeFailed | .closeParent => 1
  | .testCaught | .clearCaught | .reap | .accept | .countChild | .exited => 0

/-- A child that is forked and not counted yet. -/
def Pc.uncounted : Pc → Nat
  | .closeParent | .countChild => 1
  | .testCaught | .clearCaught | .reap | .accept | .testCount | .fork | .closeFailed
  | .exited => 0

/-- The limit was tested. -/
def Pc.admitted : Pc → Bool
  | .fork | .closeFailed | .closeParent | .countChild => true
  | .testCaught | .clearCaught | .reap | .accept | .testCount | .exited => false

def Server.unreaped (s : Server) : Nat := s.running + s.zombies

/-- Descriptors and counts that nothing stands for any more. -/
def Server.lost (s : Server) : Nat :=
  (s.openFds - s.pc.inHand) + (s.childCount + s.pc.uncounted - s.unreaped)

structure Inv (s : Server) : Prop where
  open_ : s.pc.inHand ≤ s.openFds
  counted : s.unreaped ≤ s.childCount + s.pc.uncounted
  limit : s.childCount ≤ 3
  admitted : s.pc.admitted → s.childCount ≤ 2

/-- No connection comes at the limit, and the kernel reaps no child. -/
def Kept (flags : Flags) (s : Server) : Event → Prop
  | .main => s.pc = .testCount → s.childCount ≤ 2
  | .childExits => flags.noCldWait = false
  | _ => True

structure Server.Clean (s : Server) : Prop where
  closed : s.openFds = 0
  counted : s.childCount = s.unreaped
  limit : s.unreaped ≤ 3

/-- What every step does to the invariant and to what is lost. -/
structure Effect (s t : Server) (kept : Prop) : Prop where
  inv : Inv t
  grows : s.lost ≤ t.lost
  same : t.lost = s.lost ↔ kept

theorem inv_initial : Inv .initial := by
  refine ⟨?_, ?_, ?_, nofun⟩ <;> decide

section Steps

variable {s t : Server}

theorem effect_kept {kept : Prop} (inv : Inv t) (same : t.lost = s.lost) (met : kept) :
    Effect s t kept :=
  ⟨inv, same.ge, iff_of_true same met⟩

theorem effect_lost {kept : Prop} (inv : Inv t) (more : t.lost = s.lost + 1) (unmet : ¬ kept) :
    Effect s t kept :=
  ⟨inv, by omega, iff_of_false (by omega) unmet⟩

/-- The parent goes on, and neither opens nor closes, forks nor counts. -/
theorem effect_goes {kept : Prop} (inv : Inv s) {caught pending handler : Bool} {before after : Pc}
    (at_ : s.pc = before) (hand : after.inHand = before.inHand)
    (count : after.uncounted = before.uncounted) (admitted : after.admitted → s.childCount ≤ 2)
    (met : kept) :
    Effect s { s with
      sigchildCaught := caught
      pending := pending
      handler := handler
      pc := after } kept := by
  have open_ := inv.open_
  have counted := inv.counted
  rw [at_, ← hand] at open_
  rw [at_, ← count] at counted
  refine effect_kept ⟨open_, counted, inv.limit, admitted⟩ ?_ met
  simp only [Server.lost, Server.unreaped, at_, hand, count]

/-- The parent closes the descriptor that it has at hand. -/
theorem effect_closes {kept : Prop} (inv : Inv s) {before after : Pc} (at_ : s.pc = before)
    (hand : before.inHand = after.inHand + 1) (count : after.uncounted = before.uncounted)
    (admitted : after.admitted → s.childCount ≤ 2) (met : kept) :
    Effect s { s with openFds := s.openFds - 1, pc := after } kept := by
  have open_ := inv.open_
  have counted := inv.counted
  rw [at_, hand] at open_
  rw [at_, ← count] at counted
  refine effect_kept ⟨Nat.le_sub_one_of_lt open_, counted, inv.limit, admitted⟩ ?_ met
  simp only [Server.lost, Server.unreaped, at_, hand, count]
  omega

theorem effect_advance (inv : Inv s) (h : advance s = .ok t) :
    Effect s t (s.pc = .testCount → s.childCount ≤ 2) := by
  have ⟨open_, counted, limit, admitted⟩ := inv
  unfold advance at h
  cases pc : s.pc with
  | testCaught =>
    rw [pc] at h
    dsimp only at h
    split at h
    · cases h
      exact effect_goes inv pc rfl rfl nofun nofun
    · cases h
      exact effect_goes inv pc rfl rfl nofun nofun
  | clearCaught =>
    rw [pc] at h
    cases h
    exact effect_goes inv pc rfl rfl nofun nofun
  | reap =>
    rw [pc] at h open_ counted
    dsimp only at h
    split at h
    · rename_i zombies more
      cases h
      have counted : s.running + s.zombies ≤ s.childCount := counted
      have some : s.childCount > 0 := by omega
      rw [if_pos some]
      refine effect_kept ⟨open_, ?_, ?_, nofun⟩ ?_ nofun
      · show s.running + zombies ≤ s.childCount - 1
        omega
      · show s.childCount - 1 ≤ 3
        omega
      · simp only [Server.lost, Server.unreaped, pc, Pc.inHand, Pc.uncounted]
        omega
    · cases h
      exact effect_goes inv pc rfl rfl nofun nofun
  | testCount =>
    rw [pc] at h open_ counted
    dsimp only at h
    split at h
    · rename_i room
      cases h
      exact effect_goes inv pc rfl rfl (fun _ => room) fun _ => room
    · rename_i full
      cases h
      have open_ : 1 ≤ s.openFds := open_
      refine effect_lost ⟨Nat.zero_le _, counted, limit, nofun⟩ ?_ fun room => full (room rfl)
      simp only [Server.lost, Server.unreaped, pc, Pc.inHand, Pc.uncounted]
      omega
  | closeFailed =>
    rw [pc] at h
    cases h
    exact effect_closes inv pc rfl rfl nofun nofun
  | closeParent =>
    rw [pc] at h admitted
    cases h
    exact effect_closes inv pc rfl rfl (fun _ => admitted rfl) nofun
  | countChild =>
    rw [pc] at h open_ counted admitted
    cases h
    have room := admitted rfl
    refine effect_kept ⟨open_, counted, ?_, nofun⟩ ?_ nofun
    · show s.childCount + 1 ≤ 3
      omega
    · simp only [Server.lost, Server.unreaped, pc, Pc.inHand, Pc.uncounted]
  | accept | fork | exited =>
    rw [pc] at h
    cases h

theorem effect_childExits {flags : Flags} (inv : Inv s) (h : childExits flags s = .ok t) :
    Effect s t (flags.noCldWait = false) := by
  have counted : s.running + s.zombies ≤ s.childCount + s.pc.uncounted := inv.counted
  unfold childExits at h
  split at h
  · cases h
  · rename_i running more
    cases reaped : flags.noCldWait with
    | true =>
      rw [reaped] at h
      cases h
      refine effect_lost ⟨inv.open_, ?_, inv.limit, inv.admitted⟩ ?_ nofun
      · show running + s.zombies ≤ s.childCount + s.pc.uncounted
        omega
      · simp only [Server.lost, Server.unreaped, reduceIte]
        omega
    | false =>
      rw [reaped] at h
      cases h
      refine effect_kept ⟨inv.open_, ?_, inv.limit, inv.admitted⟩ ?_ rfl
      · show running + (s.zombies + 1) ≤ s.childCount + s.pc.uncounted
        omega
      · simp only [Server.lost, Server.unreaped, Bool.false_eq_true, if_false]
        omega

theorem effect_deliver {flags : Flags} {waiting : Bool} (inv : Inv s)
    (h : deliver flags s waiting = .ok t) : Effect s t True := by
  unfold deliver at h
  split at h
  · cases h
    split
    · rename_i interrupted
      exact effect_goes inv interrupted.1 rfl rfl nofun trivial
    · exact effect_goes inv rfl rfl rfl inv.admitted trivial
  · cases h

theorem effect_step {flags : Flags} {e : Event} (inv : Inv s) (h : step flags s e = .ok t) :
    Effect s t (Kept flags s e) := by
  unfold step at h
  split at h
  · cases h
  · cases e with
    | main => exact effect_advance inv h
    | childExits => exact effect_childExits inv h
    | deliver waiting => exact effect_deliver inv h
    | connection =>
      dsimp only at h
      split at h
      · rename_i pc
        cases h
        have open_ := inv.open_
        have counted := inv.counted
        rw [pc] at open_ counted
        refine effect_kept ⟨?_, counted, inv.limit, nofun⟩ ?_ trivial
        · show 1 ≤ s.openFds + 1
          omega
        · simp only [Server.lost, Server.unreaped, pc, Pc.inHand, Pc.uncounted]
          omega
      · cases h
    | acceptFails =>
      dsimp only at h
      split at h
      · rename_i pc
        cases h
        exact effect_goes inv pc rfl rfl nofun trivial
      · cases h
    | forked =>
      dsimp only at h
      split at h
      · rename_i pc
        cases h
        have open_ := inv.open_
        have counted := inv.counted
        have admitted := inv.admitted (by rw [pc]; rfl)
        rw [pc] at open_ counted
        have counted : s.running + s.zombies ≤ s.childCount := counted
        refine effect_kept ⟨open_, ?_, inv.limit, fun _ => admitted⟩ ?_ trivial
        · show s.running + 1 + s.zombies ≤ s.childCount + 1
          omega
        · simp only [Server.lost, Server.unreaped, pc, Pc.inHand, Pc.uncounted]
          omega
      · cases h
    | forkFails =>
      dsimp only at h
      split at h
      · rename_i pc
        cases h
        exact effect_goes inv pc rfl rfl (fun _ => inv.admitted (by rw [pc]; rfl)) trivial
      · cases h

end Steps

/-- At `accept` nothing is in hand. -/
theorem clean_iff_lost {s : Server} (inv : Inv s) (at_ : s.pc = .accept) :
    s.Clean ↔ s.lost = 0 := by
  have limit := inv.limit
  have counted := inv.counted
  rw [at_] at counted
  have counted : s.unreaped ≤ s.childCount := counted
  have lost : s.lost = s.openFds + (s.childCount - s.unreaped) := by
    unfold Server.lost
    rw [at_]
    rfl
  constructor
  · rintro ⟨closed, same, _⟩
    omega
  · intro none
    exact ⟨by omega, by omega, by omega⟩

/-- A server that has come to `accept` is as it should be exactly where it has turned no connection
away at the limit, and no child has ended unseen. -/
theorem accept_clean_iff {flags : Flags} {events : List Event} {s : Server}
    (reached : run (step flags) .initial events = .ok s) (at_ : s.pc = .accept) :
    s.Clean ↔ Each (step flags) (Kept flags) .initial events := by
  have inv : Inv s := by
    refine run_invariant (C := fun _ _ => True) ?_ inv_initial (each_of_all fun _ _ => trivial)
      reached
    exact fun _ _ _ inv _ h => (effect_step inv h).inv
  rw [clean_iff_lost inv at_, ← (unchanged_iff (fun _ _ _ inv h => (effect_step inv h).inv)
    (fun _ _ _ inv h => (effect_step inv h).grows) (fun _ _ _ inv h => (effect_step inv h).same)
    inv_initial reached).2]
  exact Iff.rfl

/-- A client that is served and gone. Its child interrupts the next `accept` and is waited for. -/
theorem accept_clean_iff_sample :
    Each (step ⟨false, false, false⟩) (Kept ⟨false, false, false⟩) .initial
      [.main, .connection, .main, .forked, .main, .main, .main, .childExits, .deliver true, .main, .main,
        .main, .main] :=
  (accept_clean_iff (s := ⟨.accept, false, false, true, 0, 0, 0, 0⟩) rfl rfl).mp ⟨rfl, rfl, by decide⟩

/-- Four clients: the descriptor of the fourth stays open. -/
theorem fourth_client_leaks : ∃ s : Server,
    run (step ⟨false, false, false⟩) .initial
      [.main, .connection, .main, .forked, .main, .main, .main, .connection, .main, .forked, .main,
        .main, .main, .connection, .main, .forked, .main, .main, .main, .connection, .main,
        .main] = .ok s ∧ s.pc = .accept ∧ ¬ s.Clean :=
  ⟨⟨.accept, false, false, true, 3, 3, 0, 1⟩, rfl, rfl, fun clean => nomatch clean.closed⟩

end Tlpi.InetdEcho
