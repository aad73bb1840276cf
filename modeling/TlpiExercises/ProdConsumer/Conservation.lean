import TlpiExercises.ProdConsumer.Model
import TlpiExercises.Library.Mutex
import Mathlib.Algebra.Order.BigOperators.Group.Finset

/-!
# Units made and units consumed

The mutex guards `avail` and `tot_consumed`, whose sum is the number of units made. `main` sleeps
only where the mutex was free and no unit was left, so that a producer has still to signal.
-/

namespace Tlpi.ProdConsumer

open Transitions Mutex

def ProducerPc.inside : ProducerPc → Bool
  | .increment | .unlock => true
  | .absent | .loop | .lock | .signal | .done => false

def MainPc.inside : MainPc → Bool
  | .testAvail | .consume | .count | .testTotal | .unlock | .exited => true
  | .create _ | .lock | .waiting | .woken | .failed => false

/-- The unit is in `avail`, and its signal has not been sent. -/
def ProducerPc.willSignal : ProducerPc → Bool
  | .unlock | .signal => true
  | .absent | .loop | .lock | .increment | .done => false

/-- Between two tests of `tot_consumed`, before the next unit is consumed. -/
def MainPc.mayWait : MainPc → Bool
  | .create _ | .lock | .testAvail | .waiting | .woken | .unlock => true
  | .consume | .count | .testTotal | .exited | .failed => false

/-- The inner loop has taken everything. -/
def MainPc.drained : MainPc → Bool
  | .testTotal | .unlock | .exited => true
  | .create _ | .lock | .testAvail | .waiting | .woken | .consume | .count | .failed => false

/-- What the place of a producer says of its loop. -/
def Phase (count : Nat) : ProducerPc → Int → Nat → Prop
  | .absent, _, i => i = 0
  | .loop, iterations, i => iterations = count ∧ i ≤ count
  | .lock, iterations, i => iterations = count ∧ i < count
  | .increment, iterations, i => iterations = count ∧ i < count
  | .unlock, iterations, i => iterations = count ∧ i ≤ count
  | .signal, iterations, i => iterations = count ∧ i ≤ count
  | .done, iterations, i => iterations = count ∧ i = count

def MainPc.created (n : Nat) : MainPc → Nat
  | .create k => k
  | _ => n

/-- The units of the first arguments. -/
def unitsTo {n : Nat} (counts : Fin n → Nat) (k : Nat) : Int :=
  ∑ j : Fin n, if j < k then (counts j : Int) else 0

variable {n : Nat} {counts : Fin n → Nat} {s : State n}

def Inside (main : MainPc) (producer : Fin n → ProducerPc) : Party n → Prop
  | .main => main.inside
  | .producer k => (producer k).inside

/-- The unit that `main` has taken from `avail` and not yet counted. -/
def State.taken (s : State n) : Int := if s.main = .count then 1 else 0

structure Inv (counts : Fin n → Nat) (s : State n) : Prop where
  guards : Guards s.mtx (Inside s.main s.producer)
  account : s.totConsumed + s.avail + s.taken = ∑ k, (s.i k : Int)
  nonneg : 0 ≤ s.avail
  phase : ∀ k, Phase (counts k) (s.producer k) (s.iterations k) (s.i k)
  absent : ∀ m, s.main = .create m → ∀ k : Fin n, m ≤ k → s.producer k = .absent
  fresh : ∀ m, s.main = .create m → s.totConsumed = 0
  units : s.main ≠ .failed → s.totalUnits = toInt (unitsTo counts (s.main.created n))
  asleep : s.main = .waiting → 0 < s.avail → ∃ k, (s.producer k).willSignal
  drained : s.main.drained → s.avail = 0
  behind : s.main.mayWait → s.totConsumed = 0 ∨ s.totConsumed < s.totalUnits
  left : s.main = .exited → s.totalUnits ≤ s.totConsumed

theorem taken_zero {main : MainPc} (at_ : s.main = main) (other : main ≠ .count) :
    s.taken = 0 := by
  rw [← at_] at other
  exact if_neg other

theorem phase_le {count i : Nat} {pc : ProducerPc} {iterations : Int}
    (phase : Phase count pc iterations i) : i ≤ count := by
  cases pc <;> simp only [Phase] at phase <;> omega

theorem drained_inside {pc : MainPc} (drained : pc.drained) : pc.inside = true := by
  cases pc <;> first | rfl | cases drained

theorem unitsTo_zero : unitsTo counts 0 = 0 := by
  simp [unitsTo]

theorem unitsTo_succ (k : Fin n) : unitsTo counts (k + 1) = unitsTo counts k + counts k := by
  have others : ∀ j, j ≠ k → (if j.val < k.val + 1 then (counts j : Int) else 0) =
      if j.val < k.val then (counts j : Int) else 0 := by
    intro j other
    have different : j.val ≠ k.val := fun same => other (Fin.ext same)
    split <;> split <;> omega
  have change := sum_change k others
  rw [if_pos (Nat.lt_succ_self _), if_neg (Nat.lt_irrefl _)] at change
  unfold unitsTo
  omega

theorem unitsTo_all {k : Nat} (all : n ≤ k) : unitsTo counts k = ∑ j, (counts j : Int) :=
  Finset.sum_congr rfl fun j _ => if_pos (Nat.lt_of_lt_of_le j.isLt all)

theorem inv_start : Inv counts (start : State n) := by
  have place : (start : State n).main = .failed ∨ (start : State n).main = .create 0 := by
    unfold start
    split
    · exact Or.inl rfl
    · exact Or.inr rfl
  have outside : ∀ p, ¬ Inside (start : State n).main (start : State n).producer p := by
    intro p
    cases p with
    | producer k => nofun
    | main =>
      unfold Inside
      rcases place with at_ | at_ <;> rw [at_] <;> nofun
  refine ⟨fun p => iff_of_false nofun (outside p), ?_, Int.le_refl 0, fun _ => rfl,
    fun _ _ _ _ => rfl, fun _ _ => rfl, fun running => ?_, fun at_ => ?_, fun at_ => rfl,
    fun _ => Or.inl rfl, fun at_ => ?_⟩
  · unfold State.taken
    rcases place with at_ | at_ <;> rw [at_] <;> simp [start]
  · rcases place with at_ | at_
    · exact absurd at_ running
    · rw [at_]
      show 0 = toInt (unitsTo counts 0)
      rw [unitsTo_zero]
      rfl
  all_goals rcases place with place | place <;> rw [place] at at_ <;> cases at_

section Moves

variable {t : State n}

theorem inside_producer {before after : MainPc} {producer : Fin n → ProducerPc} {k : Fin n}
    {pc : ProducerPc} (main : after.inside = before.inside) (q : Party n)
    (other : q ≠ .producer k) :
    Inside after (Function.update producer k pc) q ↔ Inside before producer q := by
  cases q with
  | main =>
    unfold Inside
    rw [main]
  | producer j =>
    have different : j ≠ k := fun same => other (congrArg _ same)
    show (Function.update producer k pc j).inside ↔ (producer j).inside
    rw [Function.update_of_ne different]

/-- A producer goes on, inside or outside. -/
theorem guards_producer {before after : MainPc} {producer : Fin n → ProducerPc}
    {owner : Option (Party n)} (guards : Guards owner (Inside before producer)) {k : Fin n}
    {pc : ProducerPc} (main : after.inside = before.inside)
    (same : pc.inside = (producer k).inside) :
    Guards owner (Inside after (Function.update producer k pc)) := by
  refine guards_same guards fun q => ?_
  by_cases here : q = .producer k
  · subst here
    show (Function.update producer k pc k).inside ↔ (producer k).inside
    rw [Function.update_self, same]
  · exact inside_producer main q here

theorem inside_main {before after : MainPc} {producer : Fin n → ProducerPc} (q : Party n)
    (other : q ≠ .main) : Inside after producer q ↔ Inside before producer q := by
  cases q with
  | main => exact absurd rfl other
  | producer j => rfl

theorem guards_main {before after : MainPc} {producer : Fin n → ProducerPc}
    {owner : Option (Party n)} (guards : Guards owner (Inside before producer))
    (same : after.inside = before.inside) : Guards owner (Inside after producer) := by
  refine guards_same guards fun q => ?_
  cases q with
  | main =>
    unfold Inside
    rw [same]
  | producer j => rfl

theorem lock_some {party : Party n} (h : s.lock party = some t) :
    s.mtx = none ∧ t = { s with mtx := some party } := by
  unfold State.lock at h
  split at h
  · exact ⟨‹_›, (Option.some.inj h).symm⟩
  · cases h

theorem phase_update {k : Fin n} {pc : ProducerPc} {i : Fin n → Nat}
    (inv : Inv counts s) (here : Phase (counts k) pc (s.iterations k) (i k))
    (others : ∀ j, j ≠ k → i j = s.i j) (j : Fin n) :
    Phase (counts j) (Function.update s.producer k pc j) (s.iterations j) (i j) := by
  by_cases same : j = k
  · subst same
    rw [Function.update_self]
    exact here
  · rw [Function.update_of_ne same, others j same]
    exact inv.phase j

theorem absent_update {k : Fin n} {pc : ProducerPc} (inv : Inv counts s)
    (present : s.producer k ≠ .absent) (m : Nat) (at_ : s.main = .create m) (j : Fin n)
    (later : m ≤ j) : Function.update s.producer k pc j = .absent := by
  have absent := inv.absent m at_ j later
  have different : j ≠ k := fun same => present (same ▸ absent)
  rw [Function.update_of_ne different]
  exact absent

/-- `main` goes on in its loop. -/
theorem inv_main (inv : Inv counts s) {mtx : Option (Party n)} {avail tot : Int}
    {before main : MainPc} (at_ : s.main = before) (running : before ≠ .failed)
    (created : unitsTo counts (before.created n) = unitsTo counts n)
    (guards : Guards mtx (Inside main s.producer))
    (account : tot + avail + (if main = .count then 1 else 0) =
      s.totConsumed + s.avail + s.taken)
    (nonneg : 0 ≤ avail) (looping : ∀ m, main ≠ .create m)
    (asleep : main = .waiting → 0 < avail → ∃ k, (s.producer k).willSignal)
    (drained : main.drained → avail = 0)
    (behind : main.mayWait → tot = 0 ∨ tot < s.totalUnits)
    (left : main = .exited → s.totalUnits ≤ tot) :
    Inv counts { s with mtx := mtx, avail := avail, totConsumed := tot, main := main } where
  guards := guards
  account := account.trans inv.account
  nonneg := nonneg
  phase := inv.phase
  absent m at_ := absurd at_ (looping m)
  fresh m at_ := absurd at_ (looping m)
  units _ := by
    have units := inv.units (by rw [at_]; exact running)
    rw [at_, created] at units
    cases main with
    | create m => exact absurd rfl (looping m)
    | _ => exact units
  asleep := asleep
  drained := drained
  behind := behind
  left := left

theorem inv_wake (inv : Inv counts s) : Inv counts s.signal := by
  unfold State.signal
  split
  · rename_i waiting
    refine inv_main inv waiting nofun rfl (guards_main inv.guards (by rw [waiting]; rfl)) ?_
      inv.nonneg nofun nofun nofun (fun _ => inv.behind (by rw [waiting]; rfl)) nofun
    simp [State.taken, waiting]
  · exact inv

/-- A producer goes on without making a unit. It keeps its promise to a `main` that sleeps. -/
theorem inv_producer (inv : Inv counts s) {mtx : Option (Party n)} {k : Fin n} {pc : ProducerPc}
    (guards : Guards mtx (Inside s.main (Function.update s.producer k pc)))
    (phase : Phase (counts k) pc (s.iterations k) (s.i k)) (present : s.producer k ≠ .absent)
    (will : s.main = .waiting → (s.producer k).willSignal → pc.willSignal) :
    Inv counts { s with mtx := mtx, producer := Function.update s.producer k pc } := by
  refine { inv with
    guards := guards
    phase := phase_update inv phase fun _ _ => rfl
    absent := absent_update inv present
    asleep := fun waiting some => ?_ }
  obtain ⟨j, signals⟩ := inv.asleep waiting some
  refine ⟨j, ?_⟩
  show (Function.update s.producer k pc j).willSignal
  by_cases same : j = k
  · subst same
    rw [Function.update_self]
    exact will waiting signals
  · rw [Function.update_of_ne same]
    exact signals

/-- While a producer is inside, `main` is not. -/
theorem main_outside (inv : Inv counts s) {k : Fin n} (inside : (s.producer k).inside) :
    s.main.inside = false := by
  by_contra in_
  have both := guards_exclusive (p := .main) (q := .producer k) inv.guards
    (by simpa [Inside] using in_) inside
  cases both

theorem inv_increment (inv : Inv counts s) {k : Fin n} (at_ : s.producer k = .increment) :
    Inv counts { s with
      avail := s.avail + 1
      producer := Function.update s.producer k .unlock
      i := Function.update s.i k (s.i k + 1) } := by
  have outside := main_outside inv (k := k) (by rw [at_]; rfl)
  have phase := inv.phase k
  rw [at_] at phase
  have present : s.producer k ≠ .absent := by
    rw [at_]
    nofun
  have others : ∀ j, j ≠ k → Function.update s.i k (s.i k + 1) j = s.i j :=
    fun j other => Function.update_of_ne other ..
  have made := sum_change k fun j other => congrArg (Nat.cast (R := Int)) (others j other)
  rw [Function.update_self] at made
  refine { inv with
    guards := guards_producer inv.guards rfl (by rw [at_]; rfl)
    account := ?_
    nonneg := ?_
    phase := ?_
    absent := absent_update inv present
    asleep := fun _ _ => ⟨k, ?_⟩
    drained := fun drained => ?_ }
  · have account := inv.account
    show s.totConsumed + (s.avail + 1) + s.taken =
      ∑ j, (Function.update s.i k (s.i k + 1) j : Int)
    omega
  · have nonneg := inv.nonneg
    show 0 ≤ s.avail + 1
    omega
  · refine phase_update (s := s) (i := Function.update s.i k (s.i k + 1)) inv ⟨phase.1, ?_⟩ others
    rw [Function.update_self]
    exact phase.2
  · show (Function.update s.producer k .unlock k).willSignal
    rw [Function.update_self]
    rfl
  · rw [drained_inside drained] at outside
    cases outside

theorem inv_signal (inv : Inv counts s) {k : Fin n} (at_ : s.producer k = .signal) :
    Inv counts (s.signal.goto k .loop) := by
  have phase := inv.phase k
  rw [at_] at phase
  have present : s.producer k ≠ .absent := by
    rw [at_]
    nofun
  have outside : ProducerPc.loop.inside = (s.producer k).inside := by
    rw [at_]
    rfl
  have woken := inv_wake inv
  unfold State.signal at woken ⊢
  by_cases waiting : s.main = .waiting
  · rw [if_pos waiting] at woken ⊢
    exact inv_producer woken (guards_producer woken.guards rfl outside) phase present nofun
  · rw [if_neg waiting] at woken ⊢
    exact inv_producer woken (guards_producer woken.guards rfl outside) phase present
      fun asleep => absurd asleep waiting

theorem inv_stepProducer (inv : Inv counts s) {k : Fin n} (h : stepProducer s k = some t) :
    Inv counts t := by
  have phase := inv.phase k
  have present : s.producer k ≠ .absent := by
    intro absent
    rw [stepProducer, absent] at h
    cases h
  unfold stepProducer at h
  cases pc : s.producer k with
  | absent => exact absurd pc present
  | done =>
    rw [pc] at h
    cases h
  | loop =>
    rw [pc] at h phase
    cases h
    have cond : s.i k < s.iterations k ↔ s.i k < counts k := by
      rw [phase.1]
      exact Int.ofNat_lt
    refine inv_producer inv (guards_producer inv.guards rfl ?_) ?_ present
      fun _ => by rw [pc]; nofun
    · rw [pc]
      split <;> rfl
    · split
      · rename_i more
        exact ⟨phase.1, cond.mp more⟩
      · rename_i enough
        have le := phase.2
        have all : ¬ s.i k < counts k := fun more => enough (cond.mpr more)
        exact ⟨phase.1, by omega⟩
  | lock =>
    rw [pc] at h phase
    obtain ⟨u, locked, rfl⟩ := Option.map_eq_some_iff.mp h
    obtain ⟨free, rfl⟩ := lock_some locked
    have guards := inv.guards
    rw [free] at guards
    refine inv_producer inv (guards_take guards ?_ ?_) phase present fun _ => by rw [pc]; nofun
    · show (Function.update s.producer k _ k).inside
      rw [Function.update_self]
      rfl
    · exact inside_producer rfl
  | increment =>
    rw [pc] at h
    cases h
    exact inv_increment inv pc
  | unlock =>
    rw [pc] at h phase
    cases h
    refine inv_producer inv (guards_leave (p := .producer k) inv.guards ?_ ?_ ?_) phase present
      fun _ _ => rfl
    · show (s.producer k).inside
      rw [pc]
      rfl
    · show ¬ (Function.update s.producer k _ k).inside
      rw [Function.update_self]
      nofun
    · exact inside_producer rfl
  | signal =>
    rw [pc] at h
    cases h
    exact inv_signal inv pc

theorem inv_create {args : Fin n → List UInt8} (inv : Inv counts s)
    (given : ∀ k, Utils.getNum (args k) = some (counts k : Int)) {k : Fin n}
    (at_ : s.main = .create k) : Inv counts (create args s k) := by
  have absent := inv.absent k at_ k (Nat.le_refl _)
  have zero : s.i k = 0 := by
    have phase := inv.phase k
    rw [absent] at phase
    exact phase
  have units := inv.units (by rw [at_]; nofun)
  rw [at_] at units
  have fresh := inv.fresh k at_
  have account := inv.account
  rw [taken_zero at_ nofun] at account
  unfold create
  rw [given k]
  refine ⟨?_, account, inv.nonneg, fun j => ?_, fun m now j later => ?_, fun _ _ => fresh,
    fun _ => ?_, nofun, nofun, fun _ => Or.inl fresh, nofun⟩
  · refine guards_producer inv.guards ?_ ?_
    · rw [at_]
      rfl
    · rw [absent]
      rfl
  · show Phase (counts j) (Function.update s.producer k .loop j)
      (Function.update s.iterations k (counts k : Int) j) (s.i j)
    by_cases same : j = k
    · subst same
      rw [Function.update_self, Function.update_self, zero]
      exact ⟨rfl, Nat.zero_le _⟩
    · rw [Function.update_of_ne same, Function.update_of_ne same]
      exact inv.phase j
  · cases now
    show Function.update s.producer k .loop j = .absent
    have different : j ≠ k := by
      rintro rfl
      exact absurd later (Nat.not_succ_le_self _)
    rw [Function.update_of_ne different]
    exact inv.absent k at_ j (Nat.le_of_succ_le later)
  · show toInt (s.totalUnits + counts k) = toInt (unitsTo counts (k + 1))
    rw [units, unitsTo_succ]
    exact toInt_add _ _

theorem inv_lockMutex (inv : Inv counts s) (pc : s.main = .lock ∨ s.main = .woken)
    (h : (s.lock .main).map (fun s => { s with main := .testAvail }) = some t) : Inv counts t := by
  obtain ⟨u, locked, rfl⟩ := Option.map_eq_some_iff.mp h
  obtain ⟨free, rfl⟩ := lock_some locked
  have guards := inv.guards
  rw [free] at guards
  rcases pc with pc | pc
  all_goals
    refine inv_main inv pc nofun rfl (guards_take (p := .main) guards rfl inside_main) ?_ inv.nonneg
      nofun nofun nofun (fun _ => inv.behind (by rw [pc]; rfl)) nofun
    simp [State.taken, pc]

theorem inv_testAvail {args : Fin n → List UInt8} (inv : Inv counts s) (pc : s.main = .testAvail)
    (h : stepMain args s = some t) : Inv counts t := by
  have guards := inv.guards
  have nonneg := inv.nonneg
  simp only [stepMain, pc] at h
  split at h
  · cases h
    refine inv_main inv pc nofun rfl
      (guards_leave (p := .main) guards (by rw [pc]; rfl) nofun inside_main) ?_ nonneg nofun
      (fun _ some => ?_) nofun (fun _ => inv.behind (by rw [pc]; rfl)) nofun
    · simp [State.taken, pc]
    · omega
  · cases h
    refine inv_main inv pc nofun rfl (guards_main guards (by rw [pc]; rfl)) ?_ nonneg nofun
      nofun nofun nofun nofun
    simp [State.taken, pc]

theorem inv_consume {args : Fin n → List UInt8} (inv : Inv counts s) (pc : s.main = .consume)
    (h : stepMain args s = some t) : Inv counts t := by
  have guards := inv.guards
  have nonneg := inv.nonneg
  simp only [stepMain, pc] at h
  split at h
  · cases h
    refine inv_main inv pc nofun rfl (guards_main guards (by rw [pc]; rfl)) ?_ (by omega) nofun
      nofun nofun nofun nofun
    simp only [State.taken, pc, reduceIte, reduceCtorEq]
    omega
  · cases h
    refine inv_main inv pc nofun rfl (guards_main guards (by rw [pc]; rfl)) ?_ nonneg nofun
      nofun (fun _ => ?_) nofun nofun
    · simp [State.taken, pc]
    · omega

theorem inv_count {args : Fin n → List UInt8} (inv : Inv counts s) (pc : s.main = .count)
    (h : stepMain args s = some t) : Inv counts t := by
  simp only [stepMain, pc] at h
  cases h
  refine inv_main inv pc nofun rfl (guards_main inv.guards (by rw [pc]; rfl)) ?_ inv.nonneg nofun nofun
    nofun nofun nofun
  simp only [State.taken, pc, reduceIte, reduceCtorEq]
  omega

theorem inv_testTotal {args : Fin n → List UInt8} (inv : Inv counts s) (pc : s.main = .testTotal)
    (h : stepMain args s = some t) : Inv counts t := by
  have guards := inv.guards
  have nonneg := inv.nonneg
  have drained := inv.drained (by rw [pc]; rfl)
  simp only [stepMain, pc] at h
  split at h
  · rename_i enough
    cases h
    refine inv_main inv pc nofun rfl (guards_main guards (by rw [pc]; rfl)) ?_ nonneg nofun
      nofun (fun _ => drained) nofun fun _ => enough
    simp [State.taken, pc]
  · rename_i short
    cases h
    refine inv_main inv pc nofun rfl (guards_main guards (by rw [pc]; rfl)) ?_ nonneg nofun
      nofun (fun _ => drained) (fun _ => Or.inr (by omega)) nofun
    simp [State.taken, pc]

theorem inv_unlockMutex {args : Fin n → List UInt8} (inv : Inv counts s) (pc : s.main = .unlock)
    (h : stepMain args s = some t) : Inv counts t := by
  simp only [stepMain, pc] at h
  cases h
  refine inv_main inv pc nofun rfl
    (guards_leave (p := .main) inv.guards (by rw [pc]; rfl) nofun inside_main) ?_ inv.nonneg nofun nofun
    nofun (fun _ => inv.behind (by rw [pc]; rfl)) nofun
  simp [State.taken, pc]

/-- The threads are created one by one, and then `main` goes on to its loop. -/
theorem inv_createNext {args : Fin n → List UInt8} (inv : Inv counts s)
    (given : ∀ k, Utils.getNum (args k) = some (counts k : Int)) {k : Nat} (pc : s.main = .create k)
    (h : stepMain args s = some t) : Inv counts t := by
  simp only [stepMain, pc] at h
  split at h
  · rename_i inside
    cases h
    exact inv_create (k := ⟨k, inside⟩) inv given pc
  · cases h
    have created : unitsTo counts k = unitsTo counts n := by
      rw [unitsTo_all (by omega), unitsTo_all (Nat.le_refl n)]
    refine inv_main inv pc nofun created (guards_main inv.guards (by rw [pc]; rfl)) ?_ inv.nonneg nofun
      nofun nofun (fun _ => Or.inl (inv.fresh k pc)) nofun
    simp [State.taken, pc]

theorem inv_stepMain {args : Fin n → List UInt8} (inv : Inv counts s)
    (given : ∀ k, Utils.getNum (args k) = some (counts k : Int))
    (h : stepMain args s = some t) : Inv counts t := by
  cases pc : s.main with
  | create k => exact inv_createNext inv given pc h
  | lock =>
    simp only [stepMain, pc] at h
    exact inv_lockMutex inv (Or.inl pc) h
  | testAvail => exact inv_testAvail inv pc h
  | woken =>
    simp only [stepMain, pc] at h
    exact inv_lockMutex inv (Or.inr pc) h
  | consume => exact inv_consume inv pc h
  | count => exact inv_count inv pc h
  | testTotal => exact inv_testTotal inv pc h
  | unlock => exact inv_unlockMutex inv pc h
  | waiting | exited | failed => simp [stepMain, pc] at h

theorem inv_step {args : Fin n → List UInt8}
    (given : ∀ k, Utils.getNum (args k) = some (counts k : Int)) (s : State n) (e : Event n)
    (t : State n) (inv : Inv counts s) (h : step args s e = some t) : Inv counts t := by
  unfold step at h
  split at h
  · cases h
  · cases e with
    | main => exact inv_stepMain inv given h
    | producer k => exact inv_stepProducer inv h
    | wake =>
      dsimp only at h
      split at h
      · cases h
        exact inv_wake inv
      · cases h

end Moves

end Tlpi.ProdConsumer
