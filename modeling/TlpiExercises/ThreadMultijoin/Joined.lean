import TlpiExercises.ThreadMultijoin.Model

/-!
# What holds of the threads and of the counts

`numUnjoined` counts the threads that have incremented it and have not been joined, and what `main` has
printed names the joined ones once each.
-/

namespace Tlpi.ThreadMultijoin

open Transitions

variable {n : Nat} {args : Fin n → List UInt8} {s t : State n} {i : Fin n}

/-- The steps of a thread. -/
inductive Moves (s : State n) (i : Fin n) : State n → Prop
  | lock (at_ : s.thread i = .lock) (free : s.owner = none) :
    Moves s i ({ s with owner := some (.thread i) }.goto i .increment)
  | increment (at_ : s.thread i = .increment) :
    Moves s i ({ s with numUnjoined := s.numUnjoined + 1 }.goto i .setState)
  | setState (at_ : s.thread i = .setState) : Moves s i ((s.setState i .terminated).goto i .unlock)
  | unlock (at_ : s.thread i = .unlock) : Moves s i ({ s with owner := none }.goto i .signal)
  | wakes (at_ : s.thread i = .signal) (waiting : s.main = .waiting) :
    Moves s i ({ s with main := .woken }.goto i .done)
  | signals (at_ : s.thread i = .signal) (busy : s.main ≠ .waiting) : Moves s i (s.goto i .done)

theorem stepThread_moves (h : stepThread s i = some t) : Moves s i t := by
  unfold stepThread at h
  split at h
  case h_1 | h_7 => cases h
  case h_2 at_ =>
    split at h
    · rename_i free
      cases h
      exact .lock at_ free
    · cases h
  case h_3 at_ =>
    cases h
    exact .increment at_
  case h_4 at_ =>
    cases h
    exact .setState at_
  case h_5 at_ =>
    cases h
    exact .unlock at_
  case h_6 at_ =>
    cases h
    unfold State.signal
    split
    · rename_i waiting
      exact .wakes at_ waiting
    · rename_i busy
      exact .signals at_ busy

/-- There are arguments and all of them are numbers. -/
def Accepted (args : Fin n → List UInt8) : Prop := 0 < n ∧ ∀ i, (Utils.getNum (args i)).isSome

/-- The steps of `main`. -/
inductive Proceeds (args : Fin n → List UInt8) (s : State n) : State n → Prop
  | refuses (at_ : s.main = .usage) (bad : ¬ Accepted args) : Proceeds args s { s with main := .failed }
  | begins (at_ : s.main = .usage) (some : 0 < n) : Proceeds args s { s with main := .create 0 }
  | rejects (i : Fin n) (at_ : s.main = .create i) (bad : Utils.getNum (args i) = none) :
    Proceeds args s { s with main := .failed }
  | creates (i : Fin n) (at_ : s.main = .create i) (number : (Utils.getNum (args i)).isSome) :
    Proceeds args s { (s.setState i .alive).goto i .lock with s := 0, main := .create (i + 1) }
  | begun {k : Nat} (at_ : s.main = .create k) (all : n ≤ k) :
    Proceeds args s { s with numLive := n, main := .live }
  | again (at_ : s.main = .live) (more : 0 < s.numLive) : Proceeds args s { s with main := .lock }
  | leaves (at_ : s.main = .live) (none : s.numLive ≤ 0) : Proceeds args s { s with main := .succeeded }
  | locks (at_ : s.main = .lock) (free : s.owner = none) :
    Proceeds args s { s with owner := some .main, s := 0, main := .unjoined }
  | waits (at_ : s.main = .unjoined) (none : s.numUnjoined = 0) :
    Proceeds args s { s with owner := .none, waits := s.waits + 1, main := .waiting }
  | scans (at_ : s.main = .unjoined) (some : s.numUnjoined ≠ 0) : Proceeds args s { s with main := .scan 0 }
  | fails (at_ : s.main = .woken) (free : s.owner = none) (zero : s.s = 0) :
    Proceeds args s { s with owner := some .main, main := .failed }
  | tests (at_ : s.main = .woken) (free : s.owner = none) (nonzero : s.s ≠ 0) :
    Proceeds args s { s with owner := some .main, main := .unjoined }
  | finds (i : Fin n) (at_ : s.main = .scan i) (ended : s.state i = .terminated) :
    Proceeds args s { s with main := .join i }
  | passes (i : Fin n) (at_ : s.main = .scan i) (other : s.state i ≠ .terminated) :
    Proceeds args s { s with main := .scan (i + 1) }
  | scanned {k : Nat} (at_ : s.main = .scan k) (all : n ≤ k) : Proceeds args s { s with main := .unlock }
  | joins (i : Fin n) (at_ : s.main = .join i) (done : s.thread i = .done) :
    Proceeds args s { s.setState i .joined with
      s := 0
      numLive := s.numLive - 1
      numUnjoined := s.numUnjoined - 1
      reaped := s.reaped ++ [(i, s.numLive - 1)]
      main := .scan (i + 1) }
  | unlocks (at_ : s.main = .unlock) : Proceeds args s { s with owner := none, s := 0, main := .live }

theorem HELP_no_number : Utils.getNum HELP = none := by decide

theorem usage_proceeds (at_ : s.main = .usage) : Proceeds args s { s with main := usage args } := by
  unfold usage
  split
  · rename_i some
    split
    · rename_i help
      refine .refuses at_ fun accepted => ?_
      have number := accepted.2 ⟨0, some⟩
      rw [help, HELP_no_number] at number
      cases number
    · exact .begins at_ some
  · rename_i none
    exact .refuses at_ fun accepted => none accepted.1

theorem create_proceeds (k : Fin n) (at_ : s.main = .create k) : Proceeds args s (create args s k) := by
  unfold create
  split
  · rename_i bad
    exact .rejects k at_ bad
  · rename_i number
    exact .creates k at_ (by rw [number]; rfl)

/-- `main` takes the mutex again after the wait. -/
theorem woken_proceeds (at_ : s.main = .woken) (free : s.owner = none) : Proceeds args s
    { s with owner := some .main, main := if s.s = 0 then .failed else .unjoined } := by
  split
  · rename_i zero
    exact .fails at_ free zero
  · rename_i nonzero
    exact .tests at_ free nonzero

theorem scan_proceeds (k : Fin n) (at_ : s.main = .scan k) : Proceeds args s
    { s with main := if s.state k = .terminated then .join k else .scan (k + 1) } := by
  split
  · rename_i ended
    exact .finds k at_ ended
  · rename_i other
    exact .passes k at_ other

theorem stepMain_proceeds (h : stepMain args s = some t) : Proceeds args s t := by
  unfold stepMain at h
  split at h
  case h_6 | h_11 | h_12 => cases h
  case h_1 at_ =>
    cases h
    exact usage_proceeds at_
  case h_2 k at_ =>
    split at h
    · rename_i below
      cases h
      exact create_proceeds ⟨k, below⟩ at_
    · rename_i all
      cases h
      exact .begun at_ (Nat.not_lt.mp all)
  case h_3 at_ =>
    cases h
    split
    · rename_i more
      exact .again at_ more
    · rename_i none
      exact .leaves at_ (Int.not_lt.mp none)
  case h_4 at_ =>
    split at h
    · rename_i free
      cases h
      exact .locks at_ free
    · cases h
  case h_5 at_ =>
    split at h
    · rename_i none
      cases h
      exact .waits at_ none
    · rename_i some
      cases h
      exact .scans at_ some
  case h_7 at_ =>
    split at h
    · rename_i free
      cases h
      exact woken_proceeds at_ free
    · cases h
  case h_8 k at_ =>
    split at h
    · rename_i below
      cases h
      exact scan_proceeds ⟨k, below⟩ at_
    · rename_i all
      cases h
      exact .scanned at_ (Nat.not_lt.mp all)
  case h_9 i at_ =>
    unfold join at h
    split at h
    · rename_i done
      cases h
      exact .joins i at_ done
    · cases h
  case h_10 at_ =>
    cases h
    exact .unlocks at_

/-! ### The invariant -/

def ThreadPc.holds : ThreadPc → Bool
  | .increment | .setState | .unlock => true
  | .absent | .lock | .signal | .done => false

def MainPc.holds : MainPc n → Bool
  | .unjoined | .scan _ | .join _ | .unlock => true
  | .usage | .create _ | .live | .lock | .waiting | .woken | .succeeded | .failed => false

/-- Who has to have the mutex where it is. -/
def inside (main : MainPc n) (thread : Fin n → ThreadPc) : Party n → Prop
  | .main => main.holds
  | .thread i => (thread i).holds

def ThreadPc.hasIncremented : ThreadPc → Bool
  | .absent | .lock | .increment => false
  | .setState | .unlock | .signal | .done => true

/-- What the place of a thread says of its `state`. -/
def Phase : ThreadPc → TState → Prop
  | .absent, state => state = .alive
  | .lock, state => state = .alive
  | .increment, state => state = .alive
  | .setState, state => state = .alive
  | .unlock, state => state = .terminated
  | .signal, state => state = .terminated
  | .done, state => state = .terminated ∨ state = .joined

/-- How many threads there are. -/
def MainPc.created : MainPc n → Nat
  | .usage => 0
  | .create k => k
  | _ => n

/-- What holds from the first test of `numLive` on. -/
def Begun (args : Fin n → List UInt8) (s : State n) : Prop :=
  Accepted args ∧ s.numLive = n - s.reaped.length

/-- What holds where `main` is. -/
def Course (args : Fin n → List UInt8) (s : State n) : MainPc n → Prop
  | .usage => s.reaped = [] ∧ s.waits = 0
  | .create k => 0 < n ∧ (∀ i : Fin n, i.1 < k → (Utils.getNum (args i)).isSome) ∧
      s.reaped = [] ∧ s.waits = 0
  | .live => Begun args s ∧ s.waits = 0
  | .lock => Begun args s ∧ s.waits = 0 ∧ 0 < s.numLive
  | .unjoined => Begun args s ∧ s.waits = 0 ∧ 0 < s.numLive
  | .waiting => Begun args s ∧ s.waits = 1 ∧ ∃ i, s.thread i ≠ .done
  | .woken => Begun args s ∧ s.waits = 1
  | .scan k => Begun args s ∧ s.waits = 0 ∧ ∀ i : Fin n, i.1 < k → s.state i ≠ .terminated
  | .join i => Begun args s ∧ s.waits = 0 ∧ s.state i = .terminated ∧
      ∀ j : Fin n, j.1 < i → s.state j ≠ .terminated
  | .unlock => Begun args s ∧ s.waits = 0
  | .succeeded => Begun args s ∧ s.waits = 0 ∧ s.numLive ≤ 0
  | .failed => False

/-- Each thread is printed once, with what is left to be joined then. -/
structure Printed (state : Fin n → TState) (reaped : List (Fin n × Int)) : Prop where
  once : (reaped.map Prod.fst).Nodup
  joined : ∀ i, i ∈ reaped.map Prod.fst ↔ state i = .joined
  countdown : reaped.map Prod.snd = (List.range reaped.length).map fun k : Nat => (n : Int) - 1 - k

structure Running (args : Fin n → List UInt8) (s : State n) : Prop where
  guards : Mutex.Guards s.owner (inside s.main s.thread)
  phase : ∀ i, Phase (s.thread i) (s.state i)
  absent : ∀ i : Fin n, s.thread i = .absent ↔ s.main.created ≤ i
  counted : s.numUnjoined + s.reaped.length = ∑ i, ((s.thread i).hasIncremented.toNat : Int)
  printed : Printed s.state s.reaped
  zero : s.s = 0
  course : Course args s s.main

theorem running_start (args : Fin n → List UInt8) : Running args (start n) where
  guards := by
    intro p
    refine ⟨nofun, fun holds => ?_⟩
    cases p <;> cases holds
  phase := fun _ => rfl
  absent := fun _ => iff_of_true rfl (Nat.zero_le _)
  counted := by simp [start, ThreadPc.hasIncremented]
  printed := ⟨List.nodup_nil, fun i => by simp [start], rfl⟩
  zero := rfl
  course := ⟨rfl, rfl⟩

theorem counted_update (thread : Fin n → ThreadPc) (i : Fin n) (pc : ThreadPc) (d : Int)
    (one : (pc.hasIncremented.toNat : Int) = (thread i).hasIncremented.toNat + d) :
    ∑ j, ((Function.update thread i pc j).hasIncremented.toNat : Int) =
      ∑ j, ((thread j).hasIncremented.toNat : Int) + d := by
  have change := sum_update thread i pc fun pc => (pc.hasIncremented.toNat : Int)
  omega

/-! ### A step of `main` -/

section Main

variable {owner : Option (Party n)} {main : MainPc n} {waits : Nat}

theorem guards_keeps (running : Running args s) (same : main.holds = s.main.holds) :
    Mutex.Guards s.owner (inside main s.thread) := by
  refine Mutex.guards_same running.guards fun p => ?_
  cases p with
  | main => exact Bool.eq_iff_iff.mp same
  | thread i => exact Iff.rfl

theorem guards_locks (running : Running args s) (free : s.owner = none) (holds : main.holds = true) :
    Mutex.Guards (some .main) (inside main s.thread) := by
  have guards := running.guards
  rw [free] at guards
  refine Mutex.guards_take guards holds fun p other => ?_
  cases p with
  | main => exact absurd rfl other
  | thread i => exact Iff.rfl

theorem guards_unlocks (running : Running args s) (held : s.main.holds = true)
    (leaves : main.holds = false) : Mutex.Guards none (inside main s.thread) := by
  refine Mutex.guards_leave running.guards (p := .main) held (by simp [inside, leaves]) fun p other => ?_
  cases p with
  | main => exact absurd rfl other
  | thread i => exact Iff.rfl

/-- `main` goes on with the mutex or without it. -/
theorem running_main (running : Running args s) (guards : Mutex.Guards owner (inside main s.thread))
    (created : main.created = s.main.created) {z : Int} (zero : z = 0)
    (course : Course args { s with waits := waits } main) :
    Running args { s with owner := owner, s := z, waits := waits, main := main } where
  guards := guards
  phase := running.phase
  absent := fun i => by rw [running.absent i, created]
  counted := running.counted
  printed := running.printed
  zero := zero
  course := by
    cases main <;> exact course

/-- `main` goes on and leaves the mutex as it is. -/
theorem running_goto {before : MainPc n} (running : Running args s) (at_ : s.main = before)
    (holds : main.holds = before.holds) (created : main.created = before.created)
    (course : Course args s main) : Running args { s with main := main } := by
  rw [← at_] at holds created
  exact running_main running (guards_keeps running holds) created running.zero course

/-- `main` goes on with one more thread joined. -/
theorem printed_joins {state : Fin n → TState} {reaped : List (Fin n × Int)} {numLive : Int}
    (printed : Printed state reaped) (ended : state i = .terminated) (live : numLive = n - reaped.length) :
    Printed (Function.update state i .joined) (reaped ++ [(i, numLive - 1)]) := by
  refine ⟨?_, ?_, ?_⟩
  · rw [List.map_append, List.nodup_append]
    refine ⟨printed.once, by simp, ?_⟩
    intro j before k last same
    obtain rfl : k = i := by simpa using last
    rw [← same] at ended
    have joined := (printed.joined j).mp before
    rw [ended] at joined
    cases joined
  · intro j
    rw [List.map_append, List.mem_append, printed.joined]
    by_cases same : j = i
    · subst same
      simp
    · simp [same]
  · rw [List.map_append, printed.countdown, List.length_append, List.length_singleton, List.range_succ,
      List.map_append, live]
    simp only [List.map_cons, List.map_nil]
    congr 2
    omega

theorem running_creates (running : Running args s) (at_ : s.main = .create i)
    (number : (Utils.getNum (args i)).isSome) :
    Running args { (s.setState i .alive).goto i .lock with s := 0, main := .create (i + 1) } := by
  have course := running.course
  rw [at_] at course
  obtain ⟨some, numbers, fresh, waits⟩ := course
  have absent := running.absent
  rw [at_] at absent
  have here : s.thread i = .absent := (absent i).mpr (Nat.le_refl _)
  have alive : s.state i = .alive := by
    have phase := running.phase i
    rwa [here] at phase
  have unchanged : Function.update s.state i .alive = s.state := by
    rw [← alive]
    exact Function.update_eq_self i s.state
  refine ⟨?_, ?_, ?_, ?_, ?_, rfl, some, ?_, fresh, waits⟩
  · refine Mutex.guards_same running.guards fun p => ?_
    cases p with
    | main =>
      rw [at_]
      exact Iff.rfl
    | thread j =>
      show (Function.update s.thread i .lock j).holds = true ↔ (s.thread j).holds = true
      by_cases same : j = i
      · subst same
        rw [Function.update_self, here]
        exact Iff.rfl
      · rw [Function.update_of_ne same]
  · intro j
    show Phase (Function.update s.thread i .lock j) (Function.update s.state i .alive j)
    rw [unchanged]
    by_cases same : j = i
    · subst same
      rw [Function.update_self]
      exact alive
    · rw [Function.update_of_ne same]
      exact running.phase j
  · intro j
    show Function.update s.thread i .lock j = .absent ↔ i.1 + 1 ≤ j
    by_cases same : j = i
    · subst same
      rw [Function.update_self]
      exact iff_of_false nofun (by omega)
    · rw [Function.update_of_ne same, absent j]
      have other : j.1 ≠ i := fun eq => same (Fin.ext eq)
      show i.1 ≤ j ↔ i.1 + 1 ≤ j
      omega
  · refine running.counted.trans ((counted_update s.thread i .lock 0 ?_).trans (Int.add_zero _)).symm
    rw [here]
    rfl
  · show Printed (Function.update s.state i .alive) s.reaped
    rw [unchanged]
    exact running.printed
  · intro j below
    by_cases same : j = i
    · rw [same]
      exact number
    · refine numbers j ?_
      have other : j.1 ≠ i := fun eq => same (Fin.ext eq)
      omega

theorem running_begun {k : Nat} (running : Running args s) (at_ : s.main = .create k) (all : n ≤ k) :
    Running args { s with numLive := n, main := .live } := by
  have course := running.course
  have absent := running.absent
  rw [at_] at course absent
  obtain ⟨some, numbers, fresh, waits⟩ := course
  have guards : Mutex.Guards s.owner (inside .live s.thread) := guards_keeps running (by rw [at_]; rfl)
  refine ⟨guards, running.phase, ?_, running.counted, running.printed, running.zero,
    ⟨⟨some, fun i => numbers i (by omega)⟩, ?_⟩, waits⟩
  · intro i
    rw [absent i]
    show k ≤ i.1 ↔ n ≤ i.1
    omega
  · show (n : Int) = n - s.reaped.length
    rw [fresh]
    simp

/-- While no thread is unjoined and one is left, that one has not come to its end. -/
theorem unfinished (running : Running args s) (begun : Begun args s) (more : 0 < s.numLive)
    (none : s.numUnjoined = 0) : ∃ i, s.thread i ≠ .done := by
  by_contra all
  have done : ∀ i, s.thread i = .done := by
    intro i
    by_contra other
    exact all ⟨i, other⟩
  have counted := running.counted
  simp only [done] at counted
  have live := begun.2
  simp [ThreadPc.hasIncremented] at counted
  omega

theorem running_joins (running : Running args s) (at_ : s.main = .join i) (done : s.thread i = .done) :
    Running args { s.setState i .joined with
      s := 0
      numLive := s.numLive - 1
      numUnjoined := s.numUnjoined - 1
      reaped := s.reaped ++ [(i, s.numLive - 1)]
      main := .scan (i + 1) } := by
  have course := running.course
  rw [at_] at course
  obtain ⟨⟨accepted, live⟩, waits, ended, scanned⟩ := course
  have absent := running.absent
  rw [at_] at absent
  have guards : Mutex.Guards s.owner (inside (.scan (i + 1)) s.thread) :=
    guards_keeps running (by rw [at_]; rfl)
  refine ⟨guards, ?_, absent, ?_, ?_, rfl, ⟨accepted, ?_⟩, waits, ?_⟩
  · intro j
    show Phase (s.thread j) (Function.update s.state i .joined j)
    by_cases same : j = i
    · rw [same, Function.update_self, done]
      exact .inr rfl
    · rw [Function.update_of_ne same]
      exact running.phase j
  · refine Eq.trans ?_ running.counted
    show s.numUnjoined - 1 + ((s.reaped ++ [(i, s.numLive - 1)]).length : Int) = _
    rw [List.length_append, List.length_singleton]
    push_cast
    omega
  · exact printed_joins running.printed ended live
  · show s.numLive - 1 = n - ((s.reaped ++ [(i, s.numLive - 1)]).length : Int)
    rw [List.length_append, List.length_singleton]
    push_cast
    omega
  · intro j below
    show Function.update s.state i .joined j ≠ .terminated
    by_cases same : j = i
    · rw [same, Function.update_self]
      nofun
    · rw [Function.update_of_ne same]
      refine scanned j ?_
      have other : j.1 ≠ i := fun eq => same (Fin.ext eq)
      omega

/-- The process fails for its arguments, or after a wait: what `pthread_cond_wait` returned is 0, and so is `s`. -/
def Failure (args : Fin n → List UInt8) (s : State n) : Prop :=
  s.main = .failed ∧ (s.waits = 1 ∨ s.waits = 0 ∧ ¬ Accepted args)

theorem proceeds_running (running : Running args s) (h : Proceeds args s t) :
    Failure args t ∨ Running args t := by
  have course := running.course
  cases h with
  | refuses at_ bad =>
    rw [at_] at course
    exact .inl ⟨rfl, .inr ⟨course.2, bad⟩⟩
  | begins at_ some =>
    rw [at_] at course
    exact .inr (running_goto running at_ rfl rfl
      ⟨some, fun i below => absurd below (Nat.not_lt_zero _), course⟩)
  | rejects i at_ bad =>
    rw [at_] at course
    refine .inl ⟨rfl, .inr ⟨course.2.2.2, fun accepted => ?_⟩⟩
    have number := accepted.2 i
    rw [bad] at number
    cases number
  | creates i at_ number => exact .inr (running_creates running at_ number)
  | begun at_ all => exact .inr (running_begun running at_ all)
  | again at_ more =>
    rw [at_] at course
    exact .inr (running_goto running at_ rfl rfl ⟨course.1, course.2, more⟩)
  | leaves at_ none =>
    rw [at_] at course
    exact .inr (running_goto running at_ rfl rfl ⟨course.1, course.2, none⟩)
  | locks at_ free =>
    rw [at_] at course
    refine .inr (running_main running (guards_locks running free rfl) ?_ rfl course)
    rw [at_]
    rfl
  | waits at_ none =>
    rw [at_] at course
    obtain ⟨begun, never, more⟩ := course
    have left := unfinished running begun more none
    have once : s.waits + 1 = 1 := by rw [never]
    refine .inr (running_main running (guards_unlocks running ?_ rfl) ?_ running.zero ⟨begun, once, left⟩)
    · rw [at_]
      rfl
    · rw [at_]
      rfl
  | scans at_ some =>
    rw [at_] at course
    exact .inr (running_goto running at_ rfl rfl
      ⟨course.1, course.2.1, fun i below => absurd below (Nat.not_lt_zero _)⟩)
  | fails at_ free zero =>
    rw [at_] at course
    exact .inl ⟨rfl, .inl course.2⟩
  | tests at_ free nonzero => exact absurd running.zero nonzero
  | finds i at_ ended =>
    rw [at_] at course
    exact .inr (running_goto running at_ rfl rfl ⟨course.1, course.2.1, ended, course.2.2⟩)
  | passes i at_ other =>
    rw [at_] at course
    refine .inr (running_goto running at_ rfl rfl ⟨course.1, course.2.1, fun j below => ?_⟩)
    by_cases same : j = i
    · rw [same]
      exact other
    · have apart : j.1 ≠ i := fun eq => same (Fin.ext eq)
      exact course.2.2 j (by omega)
  | scanned at_ all =>
    rw [at_] at course
    exact .inr (running_goto running at_ rfl rfl ⟨course.1, course.2.1⟩)
  | joins i at_ done => exact .inr (running_joins running at_ done)
  | unlocks at_ =>
    rw [at_] at course
    refine .inr (running_main running (guards_unlocks running ?_ rfl) ?_ rfl course)
    · rw [at_]
      rfl
    · rw [at_]
      rfl

end Main

/-! ### A step of a thread -/

section Thread

variable {owner : Option (Party n)} {numUnjoined : Int} {state : Fin n → TState} {pc : ThreadPc}

/-- A thread that is not at its end leaves `main` where it is. -/
theorem course_thread {main : MainPc n} (course : Course args s main)
    (still : main.holds = true → state = s.state) (awake : main = .waiting → pc ≠ .done) :
    Course args { s with state := state, thread := Function.update s.thread i pc } main := by
  cases main with
  | waiting =>
    obtain ⟨begun, once, _⟩ := course
    refine ⟨begun, once, i, ?_⟩
    show Function.update s.thread i pc i ≠ .done
    rw [Function.update_self]
    exact awake rfl
  | scan k =>
    rw [still rfl]
    exact course
  | join j =>
    rw [still rfl]
    exact course
  | _ => exact course

theorem running_thread (running : Running args s) (present : s.thread i ≠ .absent) (stays : pc ≠ .absent)
    (guards : Mutex.Guards owner (inside s.main (Function.update s.thread i pc)))
    (phase : Phase pc (state i)) (others : ∀ j, j ≠ i → state j = s.state j)
    (joined : state i = .joined ↔ s.state i = .joined)
    (counted : (pc.hasIncremented.toNat : Int) =
      (s.thread i).hasIncremented.toNat + (numUnjoined - s.numUnjoined))
    (course : Course args { s with state := state, thread := Function.update s.thread i pc } s.main) :
    Running args { s with
      owner := owner
      numUnjoined := numUnjoined
      state := state
      thread := Function.update s.thread i pc } := by
  refine ⟨guards, ?_, ?_, ?_, ⟨running.printed.once, ?_, running.printed.countdown⟩, running.zero, ?_⟩
  · intro j
    show Phase (Function.update s.thread i pc j) (state j)
    by_cases same : j = i
    · rw [same, Function.update_self]
      exact phase
    · rw [Function.update_of_ne same, others j same]
      exact running.phase j
  · intro j
    show Function.update s.thread i pc j = .absent ↔ _
    rw [← running.absent j]
    by_cases same : j = i
    · rw [same, Function.update_self]
      exact iff_of_false stays present
    · rw [Function.update_of_ne same]
  · have before := running.counted
    have after := counted_update s.thread i pc _ counted
    show numUnjoined + s.reaped.length = ∑ j, ((Function.update s.thread i pc j).hasIncremented.toNat : Int)
    omega
  · intro j
    rw [running.printed.joined j]
    show s.state j = .joined ↔ state j = .joined
    by_cases same : j = i
    · rw [same]
      exact joined.symm
    · rw [others j same]
  · generalize s.main = main at course
    cases main <;> exact course

theorem holds_update {main : MainPc n} (p : Party n) (other : p ≠ .thread i) :
    inside main (Function.update s.thread i pc) p ↔ inside main s.thread p := by
  cases p with
  | main => exact Iff.rfl
  | thread j =>
    have apart : j ≠ i := fun same => other (congrArg Party.thread same)
    show (Function.update s.thread i pc j).holds = true ↔ (s.thread j).holds = true
    rw [Function.update_of_ne apart]

theorem holds_self {main : MainPc n} : inside main (Function.update s.thread i pc) (.thread i) ↔
    pc.holds = true := by
  show (Function.update s.thread i pc i).holds = true ↔ _
  rw [Function.update_self]

theorem guards_thread (running : Running args s) (same : pc.holds = (s.thread i).holds) :
    Mutex.Guards s.owner (inside s.main (Function.update s.thread i pc)) := by
  refine Mutex.guards_same running.guards fun p => ?_
  by_cases here : p = .thread i
  · rw [here, holds_self, same]
    exact Iff.rfl
  · exact holds_update p here

theorem counted_same {k : Int} (same : pc.hasIncremented = (s.thread i).hasIncremented) :
    (pc.hasIncremented.toNat : Int) = (s.thread i).hasIncremented.toNat + (k - k) := by
  rw [same]
  omega

theorem running_lock (running : Running args s) (at_ : s.thread i = .lock) (free : s.owner = none) :
    Running args ({ s with owner := some (.thread i) }.goto i .increment) := by
  have guards := running.guards
  have phase := running.phase i
  rw [free] at guards
  rw [at_] at phase
  have stays : ThreadPc.increment.hasIncremented = (s.thread i).hasIncremented := by
    rw [at_]
    rfl
  refine running_thread (s := s) running (by simp [at_]) (by simp) ?_ phase (fun _ _ => rfl) Iff.rfl
    (counted_same stays) (course_thread (s := s) running.course (fun _ => rfl) (by simp))
  exact Mutex.guards_take guards (holds_self.mpr rfl) holds_update

theorem running_increment (running : Running args s) (at_ : s.thread i = .increment) :
    Running args ({ s with numUnjoined := s.numUnjoined + 1 }.goto i .setState) := by
  have phase := running.phase i
  rw [at_] at phase
  have one : (ThreadPc.setState.hasIncremented.toNat : Int) =
      (s.thread i).hasIncremented.toNat + (s.numUnjoined + 1 - s.numUnjoined) := by
    rw [at_]
    simp only [ThreadPc.hasIncremented, Bool.toNat_true, Bool.toNat_false]
    omega
  refine running_thread (s := s) running (by simp [at_]) (by simp) ?_ phase (fun _ _ => rfl) Iff.rfl one
    (course_thread (s := s) running.course (fun _ => rfl) (by simp))
  refine guards_thread (s := s) running ?_
  rw [at_]
  rfl

/-- While a thread has the mutex, `main` has not. -/
theorem main_outside (running : Running args s) (holds : (s.thread i).holds = true) :
    ¬ s.main.holds = true := by
  intro main
  have same := Mutex.guards_exclusive running.guards (p := .thread i) (q := .main) holds main
  cases same

theorem running_setState (running : Running args s) (at_ : s.thread i = .setState) :
    Running args ((s.setState i .terminated).goto i .unlock) := by
  have phase := running.phase i
  rw [at_] at phase
  have alive : s.state i = .alive := phase
  have outside := main_outside running (i := i) (by rw [at_]; rfl)
  have stays : ThreadPc.unlock.hasIncremented = (s.thread i).hasIncremented := by
    rw [at_]
    rfl
  refine running_thread (s := s) running (by simp [at_]) (by simp) ?_ ?_ ?_ ?_ (counted_same stays)
    (course_thread (s := s) running.course (fun main => absurd main outside) (by simp))
  · refine guards_thread (s := s) running ?_
    rw [at_]
    rfl
  · exact Function.update_self ..
  · intro j other
    exact Function.update_of_ne other ..
  · show Function.update s.state i .terminated i = .joined ↔ _
    rw [Function.update_self, alive]
    simp

theorem running_unlock (running : Running args s) (at_ : s.thread i = .unlock) :
    Running args ({ s with owner := none }.goto i .signal) := by
  have phase := running.phase i
  rw [at_] at phase
  have stays : ThreadPc.signal.hasIncremented = (s.thread i).hasIncremented := by
    rw [at_]
    rfl
  refine running_thread (s := s) running (by simp [at_]) (by simp) ?_ phase (fun _ _ => rfl) Iff.rfl
    (counted_same stays) (course_thread (s := s) running.course (fun _ => rfl) (by simp))
  refine Mutex.guards_leave running.guards (p := .thread i) ?_ ?_ holds_update
  · show (s.thread i).holds = true
    rw [at_]
    rfl
  · rw [holds_self]
    simp [ThreadPc.holds]

/-- The end of a thread, where `main` does not wait for its signal. -/
theorem running_done (running : Running args s) (at_ : s.thread i = .signal) (busy : s.main ≠ .waiting) :
    Running args (s.goto i .done) := by
  have phase := running.phase i
  rw [at_] at phase
  have stays : ThreadPc.done.hasIncremented = (s.thread i).hasIncremented := by
    rw [at_]
    rfl
  refine running_thread (s := s) running (by simp [at_]) (by simp) ?_ (.inl phase) (fun _ _ => rfl) Iff.rfl
    (counted_same stays)
    (course_thread (s := s) running.course (fun _ => rfl) (fun waiting => absurd waiting busy))
  refine guards_thread (s := s) running ?_
  rw [at_]
  rfl

/-- `main` is woken, by a signal or without one. -/
theorem running_woken (running : Running args s) (waiting : s.main = .waiting) :
    Running args { s with main := .woken } := by
  have course := running.course
  rw [waiting] at course
  exact running_goto running waiting rfl rfl ⟨course.1, course.2.1⟩

theorem moves_running (running : Running args s) (h : Moves s i t) : Running args t := by
  cases h with
  | lock at_ free => exact running_lock running at_ free
  | increment at_ => exact running_increment running at_
  | setState at_ => exact running_setState running at_
  | unlock at_ => exact running_unlock running at_
  | wakes at_ waiting =>
    have woken := running_woken running waiting
    exact running_done woken at_ (by simp)
  | signals at_ busy => exact running_done running at_ busy

end Thread

end Tlpi.ThreadMultijoin
