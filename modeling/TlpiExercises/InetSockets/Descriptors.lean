import TlpiExercises.InetSockets.Model

/-!
# What the calls leave open

An address that does not do leaves the table as it was, so that only the first one that ends the loop
counts. A socket that cannot listen stays open.
-/

namespace Tlpi.InetSockets

open Dup

variable {F : Type*} {t u : Table F} {rp : AddrInfo F} {sfd : Nat}

theorem open_some (h : rp.open t = some (sfd, u)) :
    rp.socket = true ∧ t.openFile rp.description = some (sfd, u) := by
  unfold AddrInfo.open at h
  split at h
  · exact ⟨‹_›, h⟩
  · cases h

/-- The first address for which the loop of `inetConnect` stops. -/
def connects (t : Table F) (rp : AddrInfo F) : Bool := (rp.open t).isSome && rp.connect

theorem connectLoop_eq (t : Table F) (addresses : List (AddrInfo F)) : connectLoop t addresses =
    match addresses.find? (connects t) with
    | none => (none, t)
    | some rp => match rp.open t with
      | none => (none, t)
      | some (sfd, u) => (some (rp, sfd), u) := by
  induction addresses with
  | nil => rfl
  | cons rp rest ih =>
    unfold connectLoop
    cases opened : rp.open t with
    | none => simp [connects, opened, ih]
    | some pair =>
      obtain ⟨sfd, u⟩ := pair
      have restored : close u sfd = t := close_openFile (open_some opened).2
      cases connected : rp.connect with
      | false => simp [connects, opened, connected, restored, ih]
      | true => simp [connects, opened, connected]

/-- The first address for which the loop of `inetPassiveSocket` stops. -/
def decides (doListen : Bool) (t : Table F) (rp : AddrInfo F) : Bool :=
  (rp.open t).isSome && (doListen && !rp.setsockopt || rp.bind)

theorem bindLoop_eq (doListen : Bool) (t : Table F) (addresses : List (AddrInfo F)) :
    bindLoop doListen t addresses =
    match addresses.find? (decides doListen t) with
    | none => (.exhausted, t)
    | some rp => match rp.open t with
      | none => (.exhausted, t)
      | some (sfd, u) =>
        if doListen ∧ rp.setsockopt = false then (.setsockoptFailed, t) else (.bound rp sfd, u) := by
  induction addresses with
  | nil => rfl
  | cons rp rest ih =>
    unfold bindLoop
    cases opened : rp.open t with
    | none => simp [decides, opened, ih]
    | some pair =>
      obtain ⟨sfd, u⟩ := pair
      have restored : close u sfd = t := close_openFile (open_some opened).2
      cases listens : doListen && !rp.setsockopt with
      | true =>
        have refused : doListen = true ∧ rp.setsockopt = false := by simpa using listens
        simp [decides, opened, refused, restored]
      | false =>
        have goes : ¬ (doListen = true ∧ rp.setsockopt = false) := by simpa using listens
        cases bound : rp.bind with
        | false => simp [decides, opened, listens, goes, bound, restored, ih]
        | true => simp [decides, opened, listens, goes, bound]

theorem isSome_open (h : (rp.open t).isSome = true) : ∃ sfd u, rp.open t = some (sfd, u) ∧
    t.entries sfd = none ∧ u = t.set sfd (some ⟨rp.description, false⟩) := by
  obtain ⟨⟨sfd, u⟩, opened⟩ := Option.isSome_iff_exists.mp h
  obtain ⟨free, _, _, table⟩ := openFile_some (open_some opened).2
  exact ⟨sfd, u, opened, free, table⟩

/-- The table is left as it was, or the returned socket is in it, and the list is freed. -/
theorem inetConnect_accounts (s : State F) (result : Option (List (AddrInfo F))) :
    (∀ rp, (result.getD []).find? (connects s.table) ≠ some rp) ∧ inetConnect s result = (-1, s) ∨
    ∃ rp sfd, (result.getD []).find? (connects s.table) = some rp ∧ s.table.entries sfd = none ∧
      inetConnect s result =
        ((sfd : Int), { s with table := s.table.set sfd (some ⟨rp.description, false⟩) }) := by
  cases result with
  | none => exact Or.inl ⟨by simp, rfl⟩
  | some addresses =>
    unfold inetConnect
    simp only [connectLoop_eq, Option.getD_some]
    cases first : addresses.find? (connects s.table) with
    | none => exact Or.inl ⟨by simp, rfl⟩
    | some rp =>
      have stops := List.find?_some first
      obtain ⟨sfd, u, opened, free, rfl⟩ := isSome_open (Bool.and_eq_true_iff.mp stops).1
      refine Or.inr ⟨rp, sfd, rfl, free, ?_⟩
      simp [opened]

/-- The address that the call is decided by. -/
def decisive (doListen : Bool) (t : Table F) (result : Option (List (AddrInfo F))) : Option (AddrInfo F) :=
  (result.getD []).find? (decides doListen t)

/-- A socket has been bound. -/
def Binds (doListen : Bool) (t : Table F) (result : Option (List (AddrInfo F))) (rp : AddrInfo F) : Prop :=
  decisive doListen t result = some rp ∧ (doListen = true → rp.setsockopt = true)

/-- Every list is freed. A call that binds no socket changes nothing, and one that does leaves just that
socket open: also where `listen` fails and -1 is returned. -/
theorem inetPassiveSocket_accounts (s : State F) (result : Option (List (AddrInfo F)))
    (doListen listen : Bool) :
    (∀ rp, ¬ Binds doListen s.table result rp) ∧
      inetPassiveSocket s result doListen listen = (-1, none, s) ∨
    ∃ rp sfd, Binds doListen s.table result rp ∧ s.table.entries sfd = none ∧
      inetPassiveSocket s result doListen listen =
        (if doListen ∧ listen = false then -1 else (sfd : Int),
          if doListen ∧ listen = false then none else some rp.addrLen,
          { s with table := s.table.set sfd (some ⟨rp.description, false⟩) }) := by
  cases result with
  | none => exact Or.inl ⟨by simp [Binds, decisive], rfl⟩
  | some addresses =>
    unfold inetPassiveSocket Binds decisive
    simp only [bindLoop_eq, Option.getD_some]
    cases first : addresses.find? (decides doListen s.table) with
    | none => exact Or.inl ⟨by simp, rfl⟩
    | some rp =>
      have stops := List.find?_some first
      obtain ⟨sfd, u, opened, free, rfl⟩ := isSome_open (Bool.and_eq_true_iff.mp stops).1
      by_cases refused : doListen = true ∧ rp.setsockopt = false
      · refine Or.inl ⟨?_, ?_⟩
        · rintro _ ⟨same, reuses⟩
          obtain rfl := Option.some.inj same
          rw [reuses refused.1] at refused
          cases refused.2
        · simp [opened, refused]
      · refine Or.inr ⟨rp, sfd, ⟨rfl, fun listens => ?_⟩, free, ?_⟩
        · simpa [listens] using refused
        · simp only [opened, if_neg refused]
          split <;> simp

end Tlpi.InetSockets
