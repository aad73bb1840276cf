import TlpiExercises.ProdConsumer.Conservation

/-!
# Which counts are accounted for

`total_units` is the sum of the counts, converted to `int`. Where the conversion loses units `main`
exits early, and where there are none at all it waits for ever.
-/

namespace Tlpi.ProdConsumer

open Transitions Mutex

variable {n : Nat} {counts : Fin n → Nat} {args : Fin n → List UInt8}

structure Accounted (counts : Fin n → Nat) (s : State n) : Prop where
  conserved : s.mtx = none → s.totConsumed + s.avail = ∑ k, (s.i k : Int)
  complete : s.main = .exited → s.totConsumed = ∑ k, (counts k : Int)
  awake : ¬ (s.main = .waiting ∧ ∀ k, s.producer k = .done)

section Kept

variable {s : State n} (inv : Inv counts s)
include inv

theorem made_le : ∑ k, (s.i k : Int) ≤ ∑ k, (counts k : Int) :=
  Finset.sum_le_sum fun k _ => Int.ofNat_le.mpr (phase_le (inv.phase k))

theorem units_all (all : s.main.created n = n) (running : s.main ≠ .failed) :
    s.totalUnits = toInt (∑ k, (counts k : Int)) := by
  rw [inv.units running, all, unitsTo_all (Nat.le_refl n)]

theorem conserved_of_inv (free : s.mtx = none) :
    s.totConsumed + s.avail = ∑ k, (s.i k : Int) := by
  have guards := inv.guards
  rw [free] at guards
  have taken : s.taken = 0 := by
    unfold State.taken
    refine if_neg fun at_ => guards_free guards .main ?_
    unfold Inside
    rw [at_]
    rfl
  have account := inv.account
  omega

theorem complete_of_inv (fits : ∑ k, (counts k : Int) ≤ INT_MAX) (at_ : s.main = .exited) :
    s.totConsumed = ∑ k, (counts k : Int) := by
  have drained := inv.drained (by rw [at_]; rfl)
  have left := inv.left at_
  have units := units_all inv (by rw [at_]; rfl) (by rw [at_]; nofun)
  have nonneg : (0 : Int) ≤ ∑ k, (counts k : Int) :=
    Finset.sum_nonneg fun k _ => Int.natCast_nonneg _
  rw [toInt_of_nonneg nonneg fits] at units
  have taken := taken_zero at_ nofun
  have account := inv.account
  have made := made_le inv
  omega

theorem awake_of_inv (some : 0 < ∑ k, (counts k : Int))
    (fits : ∑ k, (counts k : Int) ≤ INT_MAX) :
    ¬ (s.main = .waiting ∧ ∀ k, s.producer k = .done) := by
  rintro ⟨at_, done⟩
  have units := units_all inv (by rw [at_]; rfl) (by rw [at_]; nofun)
  rw [toInt_of_nonneg some.le fits] at units
  have behind := inv.behind (by rw [at_]; rfl)
  have none_left : s.avail = 0 := by
    by_contra left
    have nonneg := inv.nonneg
    obtain ⟨k, signals⟩ := inv.asleep at_ (by omega)
    rw [done k] at signals
    cases signals
  have made : ∑ k, (s.i k : Int) = ∑ k, (counts k : Int) := by
    refine Finset.sum_congr rfl fun k _ => ?_
    have phase := inv.phase k
    rw [done k] at phase
    exact congrArg _ phase.2
  have taken := taken_zero at_ nofun
  have account := inv.account
  omega

end Kept

/-- After the usage message there is no step. -/
theorem no_argument {args : Fin 0 → List UInt8} {s : State 0}
    (reached : Leads (step args) start s) : s = start := by
  refine leads_invariant (I := fun s => s = start) ?_ reached rfl
  rintro _ e t rfl stepped
  cases stepped

theorem reached_inv (given : ∀ k, Utils.getNum (args k) = some (counts k : Int)) {s : State n}
    (reached : Leads (step args) start s) : Inv counts s :=
  leads_invariant (inv_step given) reached inv_start

/-! ### Runs that go wrong -/

/-- `main` is about to take the mutex, with no unit left and every producer at its loop. -/
structure Ready (s : State n) (avail : Int) : Prop where
  main : s.main = .lock
  avail : s.avail = avail
  loops : ∀ k, s.producer k = .loop

section Runs

variable (given : ∀ k, Utils.getNum (args k) = some (counts k : Int))
include given

theorem ready_free {s : State n} (reached : Leads (step args) start s) {avail : Int}
    (ready : Ready s avail) : s.mtx = none := by
  have guards := (reached_inv given reached).guards
  cases owner : s.mtx with
  | none => rfl
  | some p =>
    have inside := (guards p).mp owner
    cases p with
    | main =>
      unfold Inside at inside
      rw [ready.main] at inside
      cases inside
    | producer k =>
      have inside : (s.producer k).inside := inside
      rw [ready.loops k] at inside
      cases inside

theorem creates (some : n ≠ 0) (k : Nat) (le : k ≤ n) :
    ∃ s, Leads (step args) start s ∧ s.main = .create k ∧ s.avail = 0 ∧
      ∀ j : Fin n, j < k → s.producer j = .loop := by
  induction k with
  | zero => exact ⟨start, .refl, if_neg some, rfl, nofun⟩
  | succ k ih =>
    obtain ⟨s, reached, at_, avail, loops⟩ := ih (by omega)
    have inside : k < n := by omega
    have stepped : step args s .main = .some (create args s ⟨k, inside⟩) := by
      simp [step, stepMain, at_, inside]
    refine ⟨_, leads_step reached stepped, ?_⟩
    unfold create
    rw [given ⟨k, inside⟩]
    refine ⟨rfl, avail, fun j before => ?_⟩
    show Function.update s.producer ⟨k, inside⟩ .loop j = .loop
    by_cases same : j = ⟨k, inside⟩
    · rw [same, Function.update_self]
    · rw [Function.update_of_ne same]
      have different : j.val ≠ k := fun eq => same (Fin.ext eq)
      exact loops j (by omega)

theorem ready_first (some : n ≠ 0) :
    ∃ s, Leads (step args) start s ∧ Ready s 0 ∧ s.totConsumed = 0 := by
  obtain ⟨s, reached, at_, avail, loops⟩ := creates given some n (Nat.le_refl n)
  have stepped : step args s .main = .some { s with main := .lock } := by
    simp [step, stepMain, at_]
  exact ⟨_, leads_step reached stepped, ⟨rfl, avail, fun k => loops k k.isLt⟩,
    (reached_inv given reached).fresh n at_⟩

/-- One producer makes one unit. -/
theorem producer_round {s : State n} (reached : Leads (step args) start s) (ready : Ready s 0)
    {k : Fin n} (more : s.i k < counts k) :
    ∃ t, Leads (step args) start t ∧ Ready t 1 ∧ t.totConsumed = s.totConsumed := by
  have free := ready_free given reached ready
  have phase := (reached_inv given reached).phase k
  rw [ready.loops k] at phase
  have more : (s.i k : Int) < s.iterations k := by
    rw [phase.1]
    exact Int.ofNat_lt.mpr more
  have run : [Event.producer k, .producer k, .producer k, .producer k, .producer k].foldlM
      (step args) s = some { s with
        avail := s.avail + 1
        producer := Function.update s.producer k .loop
        i := Function.update s.i k (s.i k + 1) } := by
    simp [step, stepProducer, State.goto, State.lock, State.signal, ready.main, ready.loops, free,
      more]
  refine ⟨_, Relation.ReflTransGen.trans reached (leads_events run), ⟨ready.main, ?_, fun j => ?_⟩,
    rfl⟩
  · show s.avail + 1 = 1
    rw [ready.avail]
    rfl
  · show Function.update s.producer k .loop j = .loop
    by_cases same : j = k
    · rw [same, Function.update_self]
    · rw [Function.update_of_ne same]
      exact ready.loops j

/-- `main` consumes that unit, and compares. -/
theorem main_round {s : State n} (reached : Leads (step args) start s) (ready : Ready s 1) :
    ∃ t, Leads (step args) start t ∧ t.totConsumed = s.totConsumed + 1 ∧
      (t.main = .exited ∨ Ready t 0 ∧ t.totConsumed < t.totalUnits) := by
  have free := ready_free given reached ready
  by_cases enough : s.totConsumed + 1 ≥ s.totalUnits
  · have run : [Event.main, .main, .main, .main, .main, .main].foldlM (step args) s = some { s with
        mtx := some .main
        avail := 0
        totConsumed := s.totConsumed + 1
        main := .exited } := by
      simp [step, stepMain, State.lock, ready.main, ready.avail, free, enough]
    exact ⟨_, Relation.ReflTransGen.trans reached (leads_events run), rfl, Or.inl rfl⟩
  · have run : [Event.main, .main, .main, .main, .main, .main, .main].foldlM (step args) s =
        some { s with
          mtx := none
          avail := 0
          totConsumed := s.totConsumed + 1
          main := .lock } := by
      simp [step, stepMain, State.lock, ready.main, ready.avail, free, enough]
    refine ⟨_, Relation.ReflTransGen.trans reached (leads_events run), rfl,
      Or.inr ⟨⟨rfl, rfl, ready.loops⟩, ?_⟩⟩
    show s.totConsumed + 1 < s.totalUnits
    omega

/-- Unit by unit, `main` comes to its exit before it has consumed `INT_MAX + 1` of them. -/
theorem exits_by {s : State n} (reached : Leads (step args) start s) (ready : Ready s 0)
    (lost : INT_MAX < ∑ k, (counts k : Int)) (early : s.totConsumed < INT_MAX) :
    ∃ t, Leads (step args) start t ∧ t.main = .exited ∧ t.totConsumed ≤ INT_MAX := by
  generalize fuel : (INT_MAX - s.totConsumed).toNat = remaining
  induction remaining using Nat.strong_induction_on generalizing s with
  | _ remaining ih =>
    have inv := reached_inv given reached
    have taken := taken_zero ready.main nofun
    have account := inv.account
    have empty := ready.avail
    obtain ⟨k, _, more⟩ := Finset.exists_lt_of_sum_lt
      (show ∑ k, (s.i k : Int) < ∑ k, (counts k : Int) by omega)
    obtain ⟨u, reachedU, readyU, sameU⟩ := producer_round given reached ready
      (Int.ofNat_lt.mp more)
    obtain ⟨t, reachedT, totalT, ended⟩ := main_round given reachedU readyU
    rcases ended with exited | ⟨readyT, behind⟩
    · exact ⟨t, reachedT, exited, by omega⟩
    · have units := units_all (reached_inv given reachedT) (by rw [readyT.main]; rfl)
        (by rw [readyT.main]; nofun)
      have small := (toInt_range (∑ k, (counts k : Int))).2
      exact ih (INT_MAX - t.totConsumed).toNat (by omega) reachedT readyT (by omega) rfl

/-- With nothing to make, the producers end one after the other. -/
theorem producers_end {s : State n} (reached : Leads (step args) start s) (ready : Ready s 0)
    (nothing : ∀ k, counts k = 0) (k : Nat) (le : k ≤ n) :
    ∃ t, Leads (step args) start t ∧ t.main = .lock ∧ t.mtx = none ∧ t.avail = 0 ∧
      ∀ j : Fin n, t.producer j = if j < k then .done else .loop := by
  induction k with
  | zero => exact ⟨s, reached, ready.main, ready_free given reached ready, ready.avail, ready.loops⟩
  | succ k ih =>
    obtain ⟨t, reached, at_, free, empty, producers⟩ := ih (by omega)
    have inside : k < n := by omega
    have loop := producers ⟨k, inside⟩
    rw [if_neg (Nat.lt_irrefl k)] at loop
    have phase := (reached_inv given reached).phase ⟨k, inside⟩
    rw [loop, nothing ⟨k, inside⟩] at phase
    have enough : ¬ (t.i ⟨k, inside⟩ : Int) < t.iterations ⟨k, inside⟩ := by
      have iterations := phase.1
      omega
    have stepped : step args t (.producer ⟨k, inside⟩) = some (t.goto ⟨k, inside⟩ .done) := by
      simp [step, stepProducer, at_, loop, enough]
    refine ⟨_, leads_step reached stepped, at_, free, empty, fun j => ?_⟩
    show Function.update t.producer ⟨k, inside⟩ .done j = _
    by_cases same : j = ⟨k, inside⟩
    · rw [same, Function.update_self, if_pos (Nat.lt_succ_self k)]
    · have different : j.val ≠ k := fun eq => same (Fin.ext eq)
      rw [Function.update_of_ne same, producers j]
      split <;> split <;> first | rfl | omega

theorem waits_for_ever (some : n ≠ 0) (nothing : ∀ k, counts k = 0) :
    ∃ s, Leads (step args) start s ∧ s.main = .waiting ∧ ∀ k, s.producer k = .done := by
  obtain ⟨s, reached, ready, _⟩ := ready_first given some
  obtain ⟨t, reached, at_, free, empty, producers⟩ :=
    producers_end given reached ready nothing n (Nat.le_refl n)
  have run : [Event.main, .main].foldlM (step args) t =
      .some { t with mtx := none, main := .waiting } := by
    simp [step, stepMain, State.lock, at_, free, empty]
  refine ⟨_, Relation.ReflTransGen.trans reached (leads_events run), rfl, fun k => ?_⟩
  exact (producers k).trans (if_pos k.isLt)

end Runs

/-- Every interleaving accounts for every unit exactly where there is a unit to make, and the sum
of the counts is an `int`. -/
theorem accounted_iff (given : ∀ k, Utils.getNum (args k) = some (counts k : Int)) :
    (∀ s, Leads (step args) start s → Accounted counts s) ↔
      n = 0 ∨ 0 < ∑ k, counts k ∧ ((∑ k, counts k : Nat) : Int) ≤ INT_MAX := by
  have sum : ((∑ k, counts k : Nat) : Int) = ∑ k, (counts k : Int) := Nat.cast_sum _ _
  constructor
  · intro all
    by_contra wrong
    obtain ⟨some, wrong⟩ := not_or.mp wrong
    by_cases nothing : ∑ k, counts k = 0
    · obtain ⟨s, reached, stuck⟩ := waits_for_ever given some fun k =>
        (Finset.sum_eq_zero_iff.mp nothing) k (Finset.mem_univ k)
      exact (all s reached).awake stuck
    · have lost : INT_MAX < ∑ k, (counts k : Int) := by omega
      obtain ⟨s, reached, ready, fresh⟩ := ready_first given some
      have early : s.totConsumed < INT_MAX := by
        rw [fresh]
        decide
      obtain ⟨t, reached, exited, early⟩ := exits_by given reached ready lost early
      have complete := (all t reached).complete exited
      omega
  · rintro (rfl | ⟨some, fits⟩) s reached
    · rw [no_argument reached]
      exact ⟨fun _ => rfl, nofun, fun at_ => nomatch at_.1⟩
    · have inv := reached_inv given reached
      exact ⟨conserved_of_inv inv, complete_of_inv inv (by omega), awake_of_inv inv (by omega)
        (by omega)⟩

/-- Two arguments, with two units and one. -/
theorem accounted_iff_sample : ∃ s : State 2, s.main = .exited ∧ Accounted ![2, 1] s := by
  obtain ⟨s, run, exited⟩ : ∃ s : State 2,
      ([.main, .main, .main, .producer 0, .producer 0, .producer 0, .producer 0, .producer 0, .producer 0,
        .producer 0, .producer 0, .producer 0, .producer 1, .producer 1, .producer 1, .producer 1,
        .producer 1, .main, .main, .main, .main, .main, .main, .main, .main, .main, .main] :
          List (Event 2)).foldlM (step fun k => if k = 0 then [50] else [49]) start = some s ∧
        s.main = .exited := ⟨_, rfl, rfl⟩
  exact ⟨s, exited, (accounted_iff (by decide)).mpr (Or.inr (by decide)) s (leads_events run)⟩

/-- With the count 0 `main` waits for a signal that nobody sends. -/
theorem zero_units_wait : Utils.getNum [48] = some 0 ∧
    ¬ ∀ s : State 1, Leads (step fun _ => [48]) start s → Accounted (fun _ => 0) s := by
  refine ⟨by decide, fun all => ?_⟩
  obtain ⟨s, run, waits, done⟩ : ∃ s : State 1,
      ([.main, .main, .producer 0, .main, .main] : List (Event 1)).foldlM (step fun _ => [48])
        start = some s ∧ s.main = .waiting ∧ s.producer 0 = .done := ⟨_, rfl, rfl, rfl⟩
  refine (all s (leads_events run)).awake ⟨waits, fun k => ?_⟩
  rw [Subsingleton.elim k 0]
  exact done

end Tlpi.ProdConsumer
