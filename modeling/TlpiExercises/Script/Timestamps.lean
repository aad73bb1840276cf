import TlpiExercises.Script.RoundTrip

/-!
# The times of a recording

The recorder subtracts seconds and nanoseconds on their own. Where the nanoseconds are below those of
the start, the division rounds up, elsewhere down: the values never go back, but only an `int` is kept.
-/

namespace Tlpi.Script

/-- A valid timespec. -/
def Timespec.Valid (ts : Timespec) : Prop := 0 ≤ ts.sec ∧ 0 ≤ ts.nsec ∧ ts.nsec < 1000000000

instance (ts : Timespec) : Decidable ts.Valid :=
  inferInstanceAs (Decidable (0 ≤ ts.sec ∧ 0 ≤ ts.nsec ∧ ts.nsec < 1000000000))

def Timespec.ns (ts : Timespec) : Int := ts.sec * 1000000000 + ts.nsec

/-- Readings of the clock. -/
abbrev Reading := { ts : Timespec // ts.Valid }

/-- The readings of a session, which never go back. -/
structure Session where
  startTs : Reading
  readings : List Reading
  ordered : (startTs :: readings).Pairwise (fun a b => a.1.ns ≤ b.1.ns)

def Session.values (s : Session) : List Int := s.readings.map (fun ts => elapsedMs s.startTs.1 ts.1)

def elapsedNs (startTs ts : Timespec) : Int := ts.ns - startTs.ns

/-- The delay that the player takes. -/
def delay (milliseconds : Int) : Timespec := ⟨milliseconds.tdiv 1000, milliseconds.tmod 1000 * 1000000⟩

/-- The delays between the values of a file. -/
def delays (lastMs : Int) : List Int → List Timespec
  | [] => []
  | currentMs :: values => delay (currentMs - lastMs) :: delays currentMs values

/-- What is asked of the values of a session. -/
structure Timed (s : Session) : Prop where
  nonneg : ∀ ms ∈ s.values, 0 ≤ ms
  ordered : s.values.Pairwise (· ≤ ·)
  close : ∀ ts ∈ s.readings,
    |elapsedMs s.startTs.1 ts.1 * 1000000 - elapsedNs s.startTs.1 ts.1| < 1000000
  valid : ∀ ts ∈ delays 0 s.values, ts.Valid
  total : ((delays 0 s.values).map Timespec.ns).sum = s.values.getLastD 0 * 1000000

/-- The milliseconds since the start fit in an `int` as they are rounded. -/
def Fits (startTs ts : Timespec) : Prop :=
  elapsedNs startTs ts ≤ INT_MAX * 1000000 ∨
    (startTs.nsec ≤ ts.nsec ∧ elapsedNs startTs ts < (INT_MAX + 1) * 1000000)

/-! ### One reading -/

/-- The value before it is an `int`. -/
def elapsedLong (startTs ts : Timespec) : Int :=
  (ts.sec - startTs.sec) * 1000 + (ts.nsec - startTs.nsec).tdiv 1000000

section Value

variable {startTs ts : Timespec}

theorem elapsedLong_down (above : startTs.nsec ≤ ts.nsec) :
    elapsedLong startTs ts * 1000000 ≤ elapsedNs startTs ts ∧
      elapsedNs startTs ts < (elapsedLong startTs ts + 1) * 1000000 := by
  unfold elapsedLong elapsedNs Timespec.ns
  rw [Int.tdiv_eq_ediv_of_nonneg (by omega)]
  omega

theorem elapsedLong_up (below : ts.nsec < startTs.nsec) :
    (elapsedLong startTs ts - 1) * 1000000 < elapsedNs startTs ts ∧
      elapsedNs startTs ts ≤ elapsedLong startTs ts * 1000000 := by
  have swap : (ts.nsec - startTs.nsec).tdiv 1000000 = -((startTs.nsec - ts.nsec) / 1000000) := by
    rw [← neg_sub, Int.neg_tdiv, Int.tdiv_eq_ediv_of_nonneg (by omega)]
  unfold elapsedLong elapsedNs Timespec.ns
  rw [swap]
  omega

theorem elapsedLong_close :
    |elapsedLong startTs ts * 1000000 - elapsedNs startTs ts| < 1000000 := by
  rw [abs_lt]
  rcases le_or_gt startTs.nsec ts.nsec with above | below
  · have bounds := elapsedLong_down above
    omega
  · have bounds := elapsedLong_up below
    omega

theorem fits_iff_long : Fits startTs ts ↔ elapsedLong startTs ts ≤ INT_MAX := by
  unfold Fits INT_MAX
  rcases le_or_gt startTs.nsec ts.nsec with above | below
  · have bounds := elapsedLong_down above
    omega
  · have bounds := elapsedLong_up below
    omega

theorem elapsedLong_nonneg (later : startTs.ns ≤ ts.ns) : 0 ≤ elapsedLong startTs ts := by
  have elapsed : 0 ≤ elapsedNs startTs ts := sub_nonneg.mpr later
  rcases le_or_gt startTs.nsec ts.nsec with above | below
  · have bounds := elapsedLong_down above
    omega
  · have bounds := elapsedLong_up below
    omega

theorem elapsedMs_of_fits (later : startTs.ns ≤ ts.ns) (fits : Fits startTs ts) :
    elapsedMs startTs ts = elapsedLong startTs ts :=
  toInt_of_nonneg (elapsedLong_nonneg later) (fits_iff_long.mp fits)

/-- A value that was cut is too small. -/
theorem fits_of_close
    (close : |elapsedMs startTs ts * 1000000 - elapsedNs startTs ts| < 1000000) : Fits startTs ts := by
  have value := abs_lt.mp (@elapsedLong_close startTs ts)
  have high := (elapsedMs_range startTs ts).2
  rw [abs_lt] at close
  rw [fits_iff_long]
  have cut : elapsedMs startTs ts % 2 ^ 32 = elapsedLong startTs ts % 2 ^ 32 := toInt_emod _
  unfold INT_MAX at high ⊢
  omega

theorem elapsedLong_mono {a b : Timespec} (first : a.Valid) (second : b.Valid) (ordered : a.ns ≤ b.ns) :
    elapsedLong startTs a ≤ elapsedLong startTs b := by
  have elapsed : elapsedNs startTs a ≤ elapsedNs startTs b := sub_le_sub_right ordered _
  rcases le_or_gt startTs.nsec a.nsec with above | below
  · have low := (elapsedLong_down above).1
    rcases le_or_gt startTs.nsec b.nsec with above' | below'
    · have high := (elapsedLong_down above').2
      omega
    · have high := (elapsedLong_up below').2
      omega
  · have low := (elapsedLong_up below).1
    rcases le_or_gt startTs.nsec b.nsec with above' | below'
    · -- The first value is rounded up and the second one down, with a whole second between them.
      have high := (elapsedLong_down above').2
      unfold Timespec.Valid at first second
      unfold elapsedNs Timespec.ns at low high elapsed
      omega
    · have high := (elapsedLong_up below').2
      omega

end Value

/-! ### The delays -/

theorem delay_valid_iff (milliseconds : Int) : (delay milliseconds).Valid ↔ 0 ≤ milliseconds := by
  rw [← nanosleepValid_iff]
  unfold Timespec.Valid delay nanosleepValid
  simp only [Bool.and_eq_true, decide_eq_true_eq, and_assoc]

theorem delay_ns (milliseconds : Int) : (delay milliseconds).ns = milliseconds * 1000000 := by
  have parts := Int.mul_tdiv_add_tmod milliseconds 1000
  unfold Timespec.ns delay
  dsimp only
  omega

theorem delays_valid {lastMs : Int} {values : List Int}
    (ordered : (lastMs :: values).Pairwise (· ≤ ·)) : ∀ ts ∈ delays lastMs values, ts.Valid := by
  induction values generalizing lastMs with
  | nil =>
    intro ts member
    cases member
  | cons currentMs values ih =>
    have later := (List.pairwise_cons.mp ordered).1 currentMs List.mem_cons_self
    rw [delays, List.forall_mem_cons, delay_valid_iff]
    exact ⟨sub_nonneg.mpr later, ih (List.pairwise_cons.mp ordered).2⟩

theorem delays_total (lastMs : Int) (values : List Int) :
    ((delays lastMs values).map Timespec.ns).sum = (values.getLastD lastMs - lastMs) * 1000000 := by
  induction values generalizing lastMs with
  | nil => simp [delays]
  | cons currentMs values ih =>
    rw [delays, List.map_cons, List.sum_cons, delay_ns, ih, List.getLastD_cons]
    ring

/-! ### A session -/

theorem timed_of_fits {s : Session} (fits : ∀ ts ∈ s.readings, Fits s.startTs.1 ts.1) : Timed s := by
  obtain ⟨later, readings⟩ := List.pairwise_cons.mp s.ordered
  have value (ts : Reading) (member : ts ∈ s.readings) :
      elapsedMs s.startTs.1 ts.1 = elapsedLong s.startTs.1 ts.1 :=
    elapsedMs_of_fits (later ts member) (fits ts member)
  have nonneg : ∀ ms ∈ s.values, 0 ≤ ms := by
    intro ms member
    obtain ⟨ts, reading, rfl⟩ := List.mem_map.mp member
    rw [value ts reading]
    exact elapsedLong_nonneg (later ts reading)
  have ordered : s.values.Pairwise (· ≤ ·) := by
    apply List.pairwise_map.mpr
    apply readings.imp_of_mem
    intro a b first second before
    rw [value a first, value b second]
    exact elapsedLong_mono a.2 b.2 before
  refine ⟨nonneg, ordered, fun ts member => ?_, delays_valid (List.pairwise_cons.mpr ⟨nonneg, ordered⟩), ?_⟩
  · rw [value ts member]
    exact elapsedLong_close
  · rw [delays_total, sub_zero]

/-- The values are right exactly as long as no reading is too late for an `int`. -/
theorem timed_iff (s : Session) : Timed s ↔ ∀ ts ∈ s.readings, Fits s.startTs.1 ts.1 :=
  ⟨fun timed ts member => fits_of_close (timed.close ts member), timed_of_fits⟩

/-- A session of 2^31 milliseconds. -/
def longSession : Session where
  startTs := ⟨⟨0, 0⟩, by decide⟩
  readings := [⟨⟨2147483, 648000000⟩, by decide⟩]
  ordered := by decide

theorem longSession_fails : ¬ Timed longSession := by
  intro timed
  have negative : elapsedMs ⟨0, 0⟩ ⟨2147483, 648000000⟩ < 0 := by decide
  exact negative.not_ge (timed.nonneg _ List.mem_cons_self)

end Tlpi.Script
