import TlpiExercises.SystemV.Model

/-!
# The functions against SUSv3

What `sigset`, `sighold`, `sigrelse` and `sigignore` are specified to do, and which sequences of calls
show the difference.
-/

namespace Tlpi.SystemV

/-! ### The specification -/

namespace Susv3

/-- The new disposition is there before the signal is unblocked. -/
def sigset (sig : Nat) (disp : Disp) : Call Sighandler := fun s =>
  let returned : Sighandler :=
    if sig ∈ s.mask then .SIG_HOLD else .disposition (s.disposition sig)
  match disp with
  | .SIG_HOLD => .ok (returned, s.block sig)
  | .disposition d =>
    let s := s.setDisposition sig d
    if s.Fatal sig then .error (s.unblock sig) else .ok (returned, s.unblock sig)

def sighold (sig : Nat) : Call Int := fun s => .ok (0, s.block sig)

def sigrelse (sig : Nat) : Call Int := fun s =>
  if s.Fatal sig then .error (s.unblock sig) else .ok (0, s.unblock sig)

def sigignore (sig : Nat) : Call Int := fun s => .ok (0, s.setDisposition sig .SIG_IGN)

def functions : Functions := ⟨sigset, sighold, sigrelse, sigignore⟩

end Susv3

variable {s t : Process} {sig : Nat} {d : Disposition} {request : Request} {requests : List Request}

/-! ### The functions on a catchable signal -/

theorem sigprocmask_block (catchable : Catchable sig) (s : Process) :
    sigprocmask .SIG_BLOCK sig s = .ok (0, s.block sig) := by
  rw [sigprocmask, if_neg (not_not.mpr catchable)]

theorem sigprocmask_unblock (catchable : Catchable sig) (s : Process) :
    sigprocmask .SIG_UNBLOCK sig s =
      if s.Fatal sig then .error (s.unblock sig) else .ok (0, s.unblock sig) := by
  rw [sigprocmask, if_neg (not_not.mpr catchable)]

theorem sigaction_catchable (catchable : Catchable sig) (d : Disposition) (s : Process) :
    sigaction sig d s = .ok (some (s.disposition sig), s.setDisposition sig d) := by
  rw [sigaction, if_pos catchable]

theorem impSigset_hold (catchable : Catchable sig) (s : Process) :
    impSigset sig .SIG_HOLD s = .ok (.SIG_HOLD, s.block sig) := by
  unfold impSigset
  dsimp only
  rw [if_pos rfl, sigprocmask_block catchable]
  rfl

/-- The signal is unblocked under its old disposition. -/
theorem impSigset_disposition (catchable : Catchable sig) (d : Disposition) (s : Process) :
    impSigset sig (.disposition d) s =
      if s.Fatal sig then .error (s.unblock sig)
      else .ok (.disposition (s.disposition sig), (s.unblock sig).setDisposition sig d) := by
  unfold impSigset
  dsimp only
  rw [if_neg (by rintro ⟨⟩), sigprocmask_unblock catchable]
  by_cases fatal : s.Fatal sig
  · rw [if_pos fatal, if_pos fatal]
    rfl
  · rw [if_neg fatal, if_neg fatal]
    dsimp only [bind, Except.bind]
    rw [if_neg (by decide), sigaction_catchable catchable]
    rfl

theorem impSighold_eq (catchable : Catchable sig) : impSighold sig s = Susv3.sighold sig s := by
  unfold impSighold
  rw [sigprocmask_block catchable]
  rfl

theorem impSigrelse_eq (catchable : Catchable sig) : impSigrelse sig s = Susv3.sigrelse sig s := by
  unfold impSigrelse Susv3.sigrelse
  rw [sigprocmask_unblock catchable]
  split
  · rfl
  · rfl

theorem impSigignore_eq (catchable : Catchable sig) :
    impSigignore sig s = Susv3.sigignore sig s := by
  unfold impSigignore
  rw [sigaction_catchable catchable]
  rfl

/-! ### One call -/

/-- A call of `sigset` that does what is specified: it is `SIG_HOLD` for a signal that is blocked, or a
disposition for one that is not, or the signal terminates the process under either disposition. -/
def Request.Plain (s : Process) : Request → Prop
  | .sigset sig disp => (disp = .SIG_HOLD ↔ sig.1 ∈ s.mask) ∨
      (disp = .disposition .SIG_DFL ∧ s.Fatal sig.1)
  | .sighold _ | .sigrelse _ | .sigignore _ => True

theorem unblock_free (free : sig ∉ s.mask) : s.unblock sig = s := by
  have quiet : sig ∉ s.pending := fun member => free (s.held member)
  cases s with
  | mk mask disposition pending delivered held =>
    unfold Process.unblock
    dsimp only at free quiet ⊢
    congr 1
    · exact Finset.erase_eq_of_notMem free
    · exact Finset.erase_eq_of_notMem quiet
    · exact if_neg quiet

theorem setDisposition_same (fatal : s.Fatal sig) : s.setDisposition sig .SIG_DFL = s := by
  obtain ⟨_, default, terminates⟩ := fatal
  cases s with
  | mk mask disposition pending delivered held =>
    unfold Process.setDisposition
    dsimp only at default ⊢
    congr 1
    · funext other
      by_cases here : other = sig
      · rw [if_pos here, here, default]
      · rw [if_neg here]
    · refine if_neg ?_
      rintro (ignored | ⟨_, ignored⟩)
      · cases ignored
      · rw [terminates] at ignored
        cases ignored

theorem setDisposition_free (free : sig ∉ s.mask) : sig ∉ (s.setDisposition sig d).mask := free

theorem not_fatal (free : sig ∉ s.mask) : ¬ s.Fatal sig := fun fatal => free (s.held fatal.1)

theorem impSigset_plain {sig : Signal} {disp : Disp} (plain : (Request.sigset sig disp).Plain s) :
    impSigset sig.1 disp s = Susv3.sigset sig.1 disp s := by
  unfold Susv3.sigset
  dsimp only
  rcases plain with blocked | ⟨rfl, fatal⟩
  · cases disp with
    | SIG_HOLD => rw [impSigset_hold sig.2, if_pos (blocked.mp rfl)]
    | disposition d =>
      have free : sig.1 ∉ s.mask := fun member => by cases blocked.mpr member
      have later := setDisposition_free (d := d) free
      rw [impSigset_disposition sig.2, if_neg (not_fatal free), unblock_free free, if_neg free]
      dsimp only
      rw [if_neg (not_fatal later), unblock_free later]
  · rw [impSigset_disposition sig.2, if_pos fatal]
    dsimp only
    rw [setDisposition_same fatal, if_pos fatal]

theorem call_plain (plain : request.Plain s) : imp.call request s = Susv3.functions.call request s := by
  unfold Functions.call
  cases request with
  | sigset sig disp =>
    dsimp only [imp, Susv3.functions]
    rw [impSigset_plain plain]
  | sighold sig =>
    dsimp only [imp, Susv3.functions]
    rw [impSighold_eq sig.2]
  | sigrelse sig =>
    dsimp only [imp, Susv3.functions]
    rw [impSigrelse_eq sig.2]
  | sigignore sig =>
    dsimp only [imp, Susv3.functions]
    rw [impSigignore_eq sig.2]

/-- What a call returns, if it does. -/
def first (result : Except Process (Returned × Process)) : Option Returned :=
  match result with
  | .error _ => none
  | .ok (returned, _) => some returned

theorem first_hold (sig : Signal) (s : Process) :
    first (imp.call (.sigset sig .SIG_HOLD) s) = some (.handler .SIG_HOLD) := by
  unfold Functions.call
  dsimp only [imp]
  rw [impSigset_hold sig.2]
  rfl

theorem first_disposition (sig : Signal) (d : Disposition) (s : Process) :
    first (imp.call (.sigset sig (.disposition d)) s) =
      if s.Fatal sig.1 then none else some (.handler (.disposition (s.disposition sig.1))) := by
  unfold Functions.call
  dsimp only [imp]
  rw [impSigset_disposition sig.2]
  split
  · rfl
  · rfl

theorem specified_hold {sig : Signal} (free : sig.1 ∉ s.mask) :
    first (Susv3.functions.call (.sigset sig .SIG_HOLD) s) =
      some (.handler (.disposition (s.disposition sig.1))) := by
  unfold Functions.call
  dsimp only [Susv3.functions, Susv3.sigset]
  rw [if_neg free]
  rfl

theorem specified_disposition {sig : Signal} (member : sig.1 ∈ s.mask) (d : Disposition) :
    first (Susv3.functions.call (.sigset sig (.disposition d)) s) =
      if (s.setDisposition sig.1 d).Fatal sig.1 then none else some (.handler .SIG_HOLD) := by
  unfold Functions.call
  dsimp only [Susv3.functions, Susv3.sigset]
  rw [if_pos member]
  split
  · rfl
  · rfl

/-- A call that is not plain differs in what it returns, or in whether it does. -/
theorem first_differs (other : ¬ request.Plain s) :
    first (imp.call request s) ≠ first (Susv3.functions.call request s) := by
  cases request with
  | sighold _ | sigrelse _ | sigignore _ => exact absurd trivial other
  | sigset sig disp =>
    obtain ⟨crossed, survives⟩ := not_or.mp other
    cases disp with
    | SIG_HOLD =>
      have free : sig.1 ∉ s.mask := fun member => crossed (iff_of_true rfl member)
      rw [first_hold, specified_hold free]
      intro same
      cases same
    | disposition d =>
      have member : sig.1 ∈ s.mask := by
        by_contra free
        exact crossed (iff_of_false (fun same => by cases same) free)
      rw [first_disposition, specified_disposition member]
      by_cases fatal : s.Fatal sig.1
      · have lives : ¬ (s.setDisposition sig.1 d).Fatal sig.1 := by
          rintro ⟨_, default, _⟩
          have now : (s.setDisposition sig.1 d).disposition sig.1 = d := if_pos rfl
          rw [now] at default
          exact survives ⟨congrArg Disp.disposition default, fatal⟩
        rw [if_pos fatal, if_neg lives]
        intro same
        cases same
      · rw [if_neg fatal]
        split
        · intro same
          cases same
        · intro same
          cases same

/-! ### Sequences of calls -/

theorem run_error {f : Functions} (call : f.call request s = .error t) :
    f.run (request :: requests) s = ([], .error t) := by
  rw [Functions.run, call]

theorem run_ok {f : Functions} {returned : Returned} (call : f.call request s = .ok (returned, t)) :
    f.run (request :: requests) s = (returned :: (f.run requests t).1, (f.run requests t).2) := by
  rw [Functions.run, call]

/-- The first call can be told from what has been returned. -/
theorem run_first (f : Functions) (request : Request) (requests : List Request) (s : Process) :
    (f.run (request :: requests) s).1.head? = first (f.call request s) := by
  cases call : f.call request s with
  | error t => rw [run_error call, first, List.head?_nil]
  | ok result =>
    obtain ⟨returned, t⟩ := result
    rw [run_ok call, first, List.head?_cons]

/-- Every call that is made is plain in the state in which it is made. -/
def AllPlain (requests : List Request) (s : Process) : Prop :=
  ∀ before request after t, requests = before ++ request :: after →
    (imp.run before s).2 = .ok t → request.Plain t

theorem allPlain_error (plain : request.Plain s) (call : imp.call request s = .error t) :
    AllPlain (request :: requests) s := by
  intro before other after u split reached
  cases before with
  | nil =>
    cases split
    cases reached
    exact plain
  | cons earlier before =>
    cases split
    rw [run_error call] at reached
    cases reached

theorem allPlain_ok {returned : Returned} (plain : request.Plain s)
    (call : imp.call request s = .ok (returned, t)) :
    AllPlain (request :: requests) s ↔ AllPlain requests t := by
  constructor
  · intro all before other after u split reached
    refine all (request :: before) other after u (congrArg (request :: ·) split) ?_
    rw [run_ok call]
    exact reached
  · intro all before other after u split reached
    cases before with
    | nil =>
      cases split
      cases reached
      exact plain
    | cons earlier before =>
      cases split
      rw [run_ok call] at reached
      exact all before other after u rfl reached

/-- A sequence of calls returns, and leaves the process, as specified where every `sigset` either holds
a signal that is blocked already or gives a disposition to one that is not. -/
theorem conforms_iff (requests : List Request) (s : Process) :
    imp.run requests s = Susv3.functions.run requests s ↔ AllPlain requests s := by
  induction requests generalizing s with
  | nil => exact iff_of_true rfl (fun before request after t split _ => by cases before <;> cases split)
  | cons request rest ih =>
    by_cases plain : request.Plain s
    · have same := call_plain plain
      cases call : imp.call request s with
      | error killed =>
        rw [run_error call, run_error (same.symm.trans call)]
        exact iff_of_true rfl (allPlain_error plain call)
      | ok result =>
        obtain ⟨returned, t⟩ := result
        rw [run_ok call, run_ok (same.symm.trans call), allPlain_ok plain call, ← ih t, Prod.mk.injEq,
          List.cons.injEq, and_iff_right rfl, Prod.ext_iff]
    · refine iff_of_false (fun same => ?_) (fun all => plain (all [] request rest s rfl rfl))
      have returned := congrArg (fun result => result.1.head?) same
      rw [run_first, run_first] at returned
      exact first_differs plain returned

/-- `SIGUSR1` is pending while a handler is set for it: it terminates the process. -/
theorem pending_delivered_first : ¬ ∀ (requests : List Request) (s : Process),
    imp.run requests s = Susv3.functions.run requests s := by
  intro all
  have same := all [.sigset ⟨10, by decide⟩ (.disposition (.handler 4096))]
    ⟨{10}, fun _ => .SIG_DFL, {10}, [], Finset.Subset.refl _⟩
  exact absurd (congrArg Prod.fst same) (by decide)

end Tlpi.SystemV
