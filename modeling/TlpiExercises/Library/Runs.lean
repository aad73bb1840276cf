import Mathlib.Data.List.Infix

/-!
# Runs of a step function

A step can fail. What holds of every state that a run reaches is derived from what each step of it
preserves, and from the events that the run consists of.
-/

namespace Tlpi.Runs

variable {S E F : Type*} (step : S → E → Except F S)

def run (s : S) : List E → Except F S
  | [] => .ok s
  | e :: rest =>
    match step s e with
    | .ok t => run t rest
    | .error f => .error f

/-- Every event of the run meets the condition in the state before it. -/
def Each (C : S → E → Prop) (s : S) : List E → Prop
  | [] => True
  | e :: rest => C s e ∧ ∀ t, step s e = .ok t → Each C t rest

/-- No step of the run fails, and every state has the property. -/
def Throughout (P : S → Prop) (s : S) (events : List E) : Prop :=
  ∀ before, before <+: events → ∃ t, run step s before = .ok t ∧ P t

variable {step}

theorem run_append {s t : S} {before after : List E} (reached : run step s before = .ok t) :
    run step s (before ++ after) = run step t after := by
  induction before generalizing s with
  | nil =>
    cases reached
    rfl
  | cons e rest ih =>
    rw [List.cons_append, run]
    rw [run] at reached
    split at reached
    · exact ih reached
    · cases reached

theorem run_invariant {C : S → E → Prop} {I : S → Prop}
    (keeps : ∀ s e t, I s → C s e → step s e = .ok t → I t) {s t : S} {events : List E}
    (start : I s) (each : Each step C s events) (reached : run step s events = .ok t) : I t := by
  induction events generalizing s with
  | nil =>
    cases reached
    exact start
  | cons e rest ih =>
    rw [run] at reached
    split at reached
    · rename_i next stepped
      exact ih (keeps s e next start each.1 stepped) (each.2 next stepped) reached
    · cases reached

theorem each_of_all {A : E → Prop} {s : S} {events : List E} (all : ∀ e ∈ events, A e) :
    Each step (fun _ => A) s events := by
  induction events generalizing s with
  | nil => trivial
  | cons e rest ih =>
    obtain ⟨here, rest⟩ := List.forall_mem_cons.mp all
    exact ⟨here, fun t _ => ih rest⟩

theorem each_imp {C D : S → E → Prop} (imp : ∀ s e, C s e → D s e) {s : S} {events : List E}
    (each : Each step C s events) : Each step D s events := by
  induction events generalizing s with
  | nil => trivial
  | cons e rest ih => exact ⟨imp s e each.1, fun t stepped => ih (each.2 t stepped)⟩

theorem throughout_cons {P : S → Prop} {s : S} {e : E} {rest : List E} :
    Throughout step P s (e :: rest) ↔
      P s ∧ ∃ t, step s e = .ok t ∧ Throughout step P t rest := by
  constructor
  · intro all
    obtain ⟨s', same, here⟩ := all [] List.nil_prefix
    cases same
    obtain ⟨u, reached, _⟩ := all [e] ((List.prefix_append [e] rest))
    rw [run] at reached
    split at reached
    · rename_i t stepped
      refine ⟨here, t, stepped, fun before pre => ?_⟩
      obtain ⟨v, later, property⟩ := all (e :: before) ((List.prefix_cons_inj e).mpr pre)
      rw [run, stepped] at later
      exact ⟨v, later, property⟩
    · cases reached
  · rintro ⟨here, t, stepped, later⟩ before pre
    cases before with
    | nil => exact ⟨s, rfl, here⟩
    | cons e' before =>
      obtain ⟨rfl, tail⟩ := List.cons_prefix_cons.mp pre
      obtain ⟨v, later, property⟩ := later before tail
      refine ⟨v, ?_, property⟩
      rw [run, stepped]
      exact later

/-- Where the condition says exactly which events of a kind go well, it says so of a run. -/
theorem each_iff {A : E → Prop} {C : S → E → Prop} {I P : S → Prop}
    (exact_step : ∀ s e, I s → P s → (C s e ↔ A e ∧ ∃ t, step s e = .ok t ∧ P t))
    (keeps : ∀ s e t, I s → P s → A e → step s e = .ok t → P t → I t) {s : S} {events : List E}
    (start : I s) (good : P s) :
    Each step C s events ↔ (∀ e ∈ events, A e) ∧ Throughout step P s events := by
  induction events generalizing s with
  | nil =>
    refine iff_of_true trivial ⟨fun e none => absurd none List.not_mem_nil, fun before pre => ?_⟩
    rw [List.prefix_nil.mp pre]
    exact ⟨s, rfl, good⟩
  | cons e rest ih =>
    rw [throughout_cons, Each, exact_step s e start good, List.forall_mem_cons]
    constructor
    · rintro ⟨⟨kind, t, stepped, here⟩, rest⟩
      obtain ⟨kinds, later⟩ := (ih (keeps s e t start good kind stepped here) here).mp
        (rest t stepped)
      exact ⟨⟨kind, kinds⟩, good, t, stepped, later⟩
    · rintro ⟨⟨kind, kinds⟩, _, t, stepped, later⟩
      have here : P t := by
        obtain ⟨t', same, here⟩ := later [] List.nil_prefix
        cases same
        exact here
      refine ⟨⟨kind, t, stepped, here⟩, fun u again => ?_⟩
      rw [stepped] at again
      cases again
      exact (ih (keeps s e t start good kind stepped here) here).mpr ⟨kinds, later⟩

theorem throughout_iff {C : S → E → Prop} {I P : S → Prop}
    (exact_step : ∀ s e, I s → P s → ((∃ t, step s e = .ok t ∧ P t) ↔ C s e))
    (keeps : ∀ s e t, I s → P s → step s e = .ok t → I t) {s : S} {events : List E}
    (start : I s) (good : P s) : Throughout step P s events ↔ Each step C s events := by
  have any : Each step C s events ↔ (∀ e ∈ events, True) ∧ Throughout step P s events := by
    refine each_iff (I := I) (fun s e inv here => ?_) ?_ start good
    · rw [true_and, exact_step s e inv here]
    · exact fun s e t inv here _ stepped _ => keeps s e t inv here stepped
  rw [any, and_iff_right fun _ _ => trivial]

/-- The same for a run that is known to come to its end. -/
theorem reached_throughout_iff {C : S → E → Prop} {I P : S → Prop}
    (exact_step : ∀ s e t, I s → P s → step s e = .ok t → (P t ↔ C s e))
    (keeps : ∀ s e t, I s → step s e = .ok t → I t) {s u : S} {events : List E}
    (start : I s) (good : P s) (reached : run step s events = .ok u) :
    Throughout step P s events ↔ Each step C s events := by
  induction events generalizing s with
  | nil =>
    refine iff_of_true (fun before pre => ?_) trivial
    rw [List.prefix_nil.mp pre]
    exact ⟨s, rfl, good⟩
  | cons e rest ih =>
    rw [throughout_cons, Each]
    rw [run] at reached
    split at reached
    · rename_i t stepped
      have here := exact_step s e t start good stepped
      constructor
      · rintro ⟨_, t', same, later⟩
        rw [stepped] at same
        cases same
        obtain ⟨_, same, next⟩ := later [] List.nil_prefix
        cases same
        refine ⟨here.mp next, fun t' same => ?_⟩
        rw [stepped] at same
        cases same
        exact (ih (keeps s e t start stepped) next reached).mp later
      · rintro ⟨condition, later⟩
        have next := here.mpr condition
        exact ⟨good, t, stepped,
          (ih (keeps s e t start stepped) next reached).mpr (later t stepped)⟩
    · cases reached

theorem each_never {C : S → E → Prop} {I : S → Prop} {f : F}
    (safe : ∀ s e, I s → C s e → step s e ≠ .error f)
    (keeps : ∀ s e t, I s → C s e → step s e = .ok t → I t) {s : S} {events : List E}
    (start : I s) (each : Each step C s events) : run step s events ≠ .error f := by
  induction events generalizing s with
  | nil => exact nofun
  | cons e rest ih =>
    rw [run]
    cases stepped : step s e with
    | error other =>
      rintro ⟨⟩
      exact safe s e start each.1 stepped
    | ok t => exact ih (keeps s e t start each.1 stepped) (each.2 t stepped)

/-- Where the condition says exactly which steps do not fail in one way, it says so of a run. -/
theorem never_iff {C : S → E → Prop} {I : S → Prop} {f : F}
    (exact_step : ∀ s e, I s → (step s e ≠ .error f ↔ C s e))
    (keeps : ∀ s e t, I s → step s e = .ok t → I t) {s : S} {events : List E} (start : I s) :
    run step s events ≠ .error f ↔ Each step C s events := by
  induction events generalizing s with
  | nil => exact iff_of_true nofun trivial
  | cons e rest ih =>
    rw [run, Each, ← exact_step s e start]
    cases stepped : step s e with
    | error other =>
      refine ⟨fun different => ⟨different, nofun⟩, fun fine => fine.1⟩
    | ok t =>
      have later := ih (keeps s e t start stepped)
      refine ⟨fun never => ⟨nofun, ?_⟩, fun fine => later.mpr (fine.2 t rfl)⟩
      rintro u ⟨⟩
      exact later.mp never

/-- A measure that never falls tells whether each event met the condition that leaves it alone. -/
theorem unchanged_iff {C : S → E → Prop} {I : S → Prop} {m : S → Nat}
    (keeps : ∀ s e t, I s → step s e = .ok t → I t)
    (grows : ∀ s e t, I s → step s e = .ok t → m s ≤ m t)
    (exact_step : ∀ s e t, I s → step s e = .ok t → (m t = m s ↔ C s e)) {s u : S}
    {events : List E} (start : I s) (reached : run step s events = .ok u) :
    m s ≤ m u ∧ (m u = m s ↔ Each step C s events) := by
  induction events generalizing s with
  | nil =>
    cases reached
    exact ⟨Nat.le_refl _, iff_of_true rfl trivial⟩
  | cons e rest ih =>
    rw [run] at reached
    split at reached
    · rename_i t stepped
      obtain ⟨later, same⟩ := ih (keeps s e t start stepped) reached
      have now := grows s e t start stepped
      have here := exact_step s e t start stepped
      refine ⟨now.trans later, fun unchanged => ?_, fun each => ?_⟩
      · refine ⟨here.mp (by omega), fun t' again => ?_⟩
        rw [stepped] at again
        cases again
        exact same.mp (by omega)
      · exact (same.mpr (each.2 t stepped)).trans (here.mpr each.1)
    · cases reached

end Tlpi.Runs
