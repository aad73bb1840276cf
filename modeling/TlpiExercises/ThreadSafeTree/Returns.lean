import TlpiExercises.Library.Transitions
import TlpiExercises.ThreadSafeTree.Progress

/-!
# That the callers return

Each step of a thread is paid for by the nodes that can be above it, so that every run comes to an end. If
no key is added twice, it ends with everything added.
-/

namespace Tlpi.ThreadSafeTree

open LinkTree (Slot)

variable {ι V : Type} [DecidableEq ι] {s s' : State ι V} {i j : ι} {calls : ι → List (Call V)}

/-! ### What has been called -/

def keysOf (calls : List (Call V)) : List CStr := calls.map Call.key

def Pc.current : Pc V → List CStr
  | .idle => []
  | .lockTree call | .testRoot call | .lockNode call _ _ | .unlockParent call _ _ | .compare call _
  | .create call _ _ | .fill call _ _ | .unlockOwner call _ => [call.key]

def Thread.keys (thread : Thread V) : List CStr :=
  thread.results.map Prod.fst ++ thread.pc.current ++ keysOf thread.calls

structure History (calls : ι → List (Call V)) (s : State ι V) : Prop where
  made : ∀ i, (s.threads i).keys = keysOf (calls i)
  found : ∀ i key, (key, -1) ∈ (s.threads i).results → key ∈ s.linked.map Prod.snd
  values : ∀ i, ∀ r ∈ (s.threads i).results, r.2 = 0 ∨ r.2 = -1

theorem setThread_self (s : State ι V) (i : ι) (thread : Thread V) : (s.setThread i thread).threads i = thread :=
  Function.update_self ..

theorem setThread_of_ne (s : State ι V) (other : j ≠ i) (thread : Thread V) :
    (s.setThread i thread).threads j = s.threads j := Function.update_of_ne other ..

theorem goto_self (s : State ι V) (i : ι) (pc : Pc V) : (s.goto i pc).threads i = { s.threads i with pc } :=
  setThread_self ..

theorem finish_self (s : State ι V) (i : ι) (call : Call V) (rv : Int) : (s.finish i call rv).threads i =
    { s.threads i with pc := .idle, results := (s.threads i).results ++ [(call.key, rv)] } :=
  setThread_self ..

theorem moves_others (moves : Moves s i s') (other : j ≠ i) : s'.threads j = s.threads j := by
  cases moves <;> exact setThread_of_ne _ other _

theorem moves_linked (moves : Moves s i s') : s.linked ⊆ s'.linked := by
  cases moves with
  | fill at_ => exact List.subset_append_left _ _
  | _ => exact List.Subset.refl _

theorem moves_made (moves : Moves s i s') : (s'.threads i).keys = (s.threads i).keys := by
  cases moves with
  | call at_ next =>
    rw [setThread_self]
    simp [Thread.keys, Pc.current, keysOf, at_, next]
  | duplicate at_ cell =>
    rw [finish_self]
    simp [Thread.keys, Pc.current, at_]
  | unlockOwner at_ mine =>
    rw [finish_self]
    simp [Thread.keys, Pc.current, at_, State.setOwner]
  | create at_ =>
    rw [State.create, goto_self]
    simp [Thread.keys, Pc.current, at_]
  | fill at_ =>
    rw [State.fill, goto_self]
    simp [Thread.keys, Pc.current, at_]
  | lockTree at_ | empty at_ | root at_ | lockNode at_ | unlockParent at_ | leaf at_ | below at_ =>
    rw [goto_self]
    simp [Thread.keys, Pc.current, at_, State.setOwner]

/-- What a step adds to the results. -/
theorem moves_results (inv : Inv s) (moves : Moves s i s') :
    (s'.threads i).results = (s.threads i).results ∨
      (∃ key, (s'.threads i).results = (s.threads i).results ++ [(key, 0)]) ∨
      ∃ key, (s'.threads i).results = (s.threads i).results ++ [(key, -1)] ∧
        key ∈ s.linked.map Prod.snd := by
  cases moves with
  | @duplicate call node left right mtx value at_ cell =>
    refine Or.inr (Or.inr ⟨call.key, by rw [finish_self], ?_⟩)
    rw [← inv.keys, LinkTree.mem_keys]
    exact ⟨⟨some mtx, value⟩, (LinkTree.entries_deref cell).subset (by simp [LinkTree.entries])⟩
  | unlockOwner at_ mine => exact Or.inr (Or.inl ⟨_, by rw [finish_self]; rfl⟩)
  | _ => exact Or.inl ((congrArg Thread.results (setThread_self ..)).trans rfl)

theorem history_moves (inv : Inv s) (history : History calls s) (moves : Moves s i s') : History calls s' := by
  have linked (key : CStr) (before : key ∈ s.linked.map Prod.snd) : key ∈ s'.linked.map Prod.snd :=
    List.map_subset Prod.snd (moves_linked moves) before
  refine ⟨fun j => ?_, fun j key member => ?_, fun j r member => ?_⟩
  · by_cases same : j = i
    · subst same
      rw [moves_made moves, history.made]
    · rw [moves_others moves same, history.made]
  · by_cases same : j = i
    · subst same
      obtain unchanged | ⟨k, returned⟩ | ⟨k, returned, found⟩ := moves_results inv moves
      · exact linked key (history.found j key (unchanged ▸ member))
      · rw [returned] at member
        exact linked key (history.found j key (by simpa using member))
      · rw [returned, List.mem_append] at member
        obtain before | now := member
        · exact linked key (history.found j key before)
        · obtain rfl : key = k := by simpa using now
          exact linked key found
    · rw [moves_others moves same] at member
      exact linked key (history.found j key member)
  · by_cases same : j = i
    · subst same
      obtain unchanged | ⟨k, returned⟩ | ⟨k, returned, found⟩ := moves_results inv moves
      · exact history.values j r (unchanged ▸ member)
      · rw [returned, List.mem_append] at member
        obtain before | now := member
        · exact history.values j r before
        · exact Or.inl (by rw [List.mem_singleton.mp now])
      · rw [returned, List.mem_append] at member
        obtain before | now := member
        · exact history.values j r before
        · exact Or.inr (by rw [List.mem_singleton.mp now])
    · rw [moves_others moves same] at member
      exact history.values j r member

/-! ### What a run costs -/

/-- The steps of a call from here on, below at most `n` nodes. -/
def Pc.cost (n : Nat) : Pc V → Nat
  | .idle => 0
  | .lockTree _ => 3 * n + 8
  | .testRoot _ => 3 * n + 7
  | .lockNode _ node _ => 3 * (n - node.length) + 6
  | .unlockParent _ node _ => 3 * (n - node.length) + 5
  | .compare _ node => 3 * (n - node.length) + 4
  | .create _ _ _ => 3
  | .fill _ _ _ => 2
  | .unlockOwner _ _ => 1

def Thread.cost (n : Nat) (thread : Thread V) : Nat := thread.calls.length * (3 * n + 9) + thread.pc.cost n

/-- Whether the call has its cell still to store. -/
def Pc.credit : Pc V → Nat
  | .lockTree _ | .testRoot _ | .lockNode _ _ _ | .unlockParent _ _ _ | .compare _ _ | .create _ _ _ => 1
  | .idle | .fill _ _ _ | .unlockOwner _ _ => 0

def Thread.credit (thread : Thread V) : Nat := thread.calls.length + thread.pc.credit

theorem moves_cost {n : Nat} (room : ∀ slot m, NodeAt s.tree slot m → slot.length < n) (moves : Moves s i s') :
    (s'.threads i).cost n < (s.threads i).cost n := by
  cases moves with
  | call at_ next =>
    rw [setThread_self]
    simp only [Thread.cost, Pc.cost, at_, next, List.length_cons, Nat.add_mul]
    omega
  | duplicate at_ cell =>
    rw [finish_self]
    simp [Thread.cost, Pc.cost, at_]
  | unlockOwner at_ mine =>
    rw [finish_self]
    simp [Thread.cost, Pc.cost, at_, State.setOwner]
  | create at_ =>
    rw [State.create, goto_self]
    simp [Thread.cost, Pc.cost, at_]
  | fill at_ =>
    rw [State.fill, goto_self]
    simp [Thread.cost, Pc.cost, at_]
  | below at_ there child =>
    have deeper := room _ _ child
    rw [List.length_append, List.length_singleton] at deeper
    rw [goto_self]
    simp only [Thread.cost, Pc.cost, at_, List.length_append, List.length_singleton]
    omega
  | lockTree at_ | empty at_ | root at_ | lockNode at_ | unlockParent at_ | leaf at_ =>
    rw [goto_self]
    simp only [Thread.cost, Pc.cost, at_, State.setOwner, List.length_nil]
    omega

/-- Every cell of the tree is one that a call has stored. -/
theorem moves_credit (inv : Inv s) (moves : Moves s i s') :
    s'.tree.size + (s'.threads i).credit ≤ s.tree.size + (s.threads i).credit := by
  have placed := inv.placed i
  cases moves with
  | call at_ next =>
    rw [setThread_self]
    simp only [Thread.credit, Pc.credit, at_, next, List.length_cons]
    exact Nat.le_refl _
  | duplicate at_ cell =>
    rw [finish_self]
    simp [Thread.credit, Pc.credit, at_, State.finish, State.setThread]
  | unlockOwner at_ mine =>
    rw [finish_self]
    simp [Thread.credit, Pc.credit, at_, State.setOwner, State.finish, State.setThread]
  | @create call slot mtx at_ =>
    rw [at_] at placed
    have one := LinkTree.size_assign (u := .node .null .null none ⟨none, call.value⟩) placed.2
    rw [State.create, goto_self]
    simp only [LinkTree.size] at one
    simp only [Thread.credit, Pc.credit, at_, State.goto, State.setThread]
    omega
  | @fill call slot mtx at_ =>
    rw [at_] at placed
    have same := LinkTree.size_assign (u := .node .null .null (some call.key) ⟨some s.fresh, call.value⟩) placed.2
    rw [State.fill, goto_self]
    simp only [LinkTree.size] at same
    simp only [Thread.credit, Pc.credit, at_, State.goto, State.setThread]
    omega
  | lockTree at_ | empty at_ | root at_ | lockNode at_ | unlockParent at_ | leaf at_ | below at_ =>
    rw [goto_self]
    simp [Thread.credit, Pc.credit, at_, State.setOwner, State.goto, State.setThread]

section Runs

variable [Fintype ι]

def State.cost (n : Nat) (s : State ι V) : Nat := ∑ i, (s.threads i).cost n

def total (calls : ι → List (Call V)) : Nat := ∑ i, (calls i).length

/-- All that holds of a reachable state. -/
structure Accounts (calls : ι → List (Call V)) (s : State ι V) : Prop where
  inv : Inv s
  locks : Locks s
  history : History calls s
  size : s.tree.size + ∑ i, (s.threads i).credit ≤ total calls

theorem accounts_start (calls : ι → List (Call V)) : Accounts calls (start calls) where
  inv := inv_start calls
  locks := locks_start calls
  history := ⟨fun i => rfl, nofun, nofun⟩
  size := by simp [start, LinkTree.size, Thread.credit, Pc.credit, total]

theorem accounts_step (accounts : Accounts calls s) (h : step s i = .next s') :
    Accounts calls s' ∧ s'.cost (total calls) < s.cost (total calls) := by
  obtain ⟨inv, locks, history, size⟩ := accounts
  have moves := step_moves inv h
  have others (j : ι) (other : j ≠ i) := moves_others moves other
  have credit := Transitions.sum_change (f := fun j => (s'.threads j).credit)
    (g := fun j => (s.threads j).credit) i fun j other => congrArg Thread.credit (others j other)
  have cost := Transitions.sum_change (f := fun j => (s'.threads j).cost (total calls))
    (g := fun j => (s.threads j).cost (total calls)) i fun j other =>
      congrArg (Thread.cost (total calls)) (others j other)
  have room (slot : Slot) (m : Mutex) (there : NodeAt s.tree slot m) : slot.length < total calls := by
    obtain ⟨left, right, key, value, cell⟩ := there
    have deep := LinkTree.length_lt_size cell
    omega
  have falls := moves_cost room moves
  have grows := moves_credit inv moves
  refine ⟨⟨inv_step inv h, locks_moves inv locks moves, history_moves inv history moves, by omega⟩, ?_⟩
  unfold State.cost
  omega

theorem follow_cost (accounts : Accounts calls s) {schedule : List ι} (run : follow s schedule = .next s') :
    Accounts calls s' ∧ s'.cost (total calls) + schedule.length ≤ s.cost (total calls) := by
  induction schedule generalizing s with
  | nil =>
    obtain rfl := Outcome.next.inj run
    exact ⟨accounts, Nat.le_refl _⟩
  | cons i rest ih =>
    unfold follow at run
    split at run
    · rename_i next taken
      obtain ⟨accounts, falls⟩ := accounts_step accounts taken
      obtain ⟨accounts, left⟩ := ih accounts run
      refine ⟨accounts, ?_⟩
      rw [List.length_cons]
      omega
    · rename_i stopped
      exact absurd run (stopped s')

omit [DecidableEq ι] in
theorem start_cost (calls : ι → List (Call V)) :
    (start calls).cost (total calls) = total calls * (3 * total calls + 9) := by
  simp [State.cost, Thread.cost, Pc.cost, start, total, Finset.sum_mul]

end Runs

/-! ### Keys that are added once -/

/-- No key is in two calls. -/
structure Apart (calls : ι → List (Call V)) : Prop where
  once : ∀ i, (keysOf (calls i)).Nodup
  apart : ∀ i j, i ≠ j → ∀ key ∈ keysOf (calls i), key ∉ keysOf (calls j)

/-- Then no call finds its key in the tree. -/
theorem not_duplicate (apart : Apart calls) (inv : Inv s) (history : History calls s) (key : CStr) :
    (key, -1) ∉ (s.threads i).results := by
  intro member
  have mine : key ∈ (s.threads i).results.map Prod.fst := List.mem_map.mpr ⟨_, member, rfl⟩
  obtain ⟨⟨j, k⟩, linked, rfl⟩ := List.mem_map.mp (history.found i key member)
  rw [← mem_linkedBy, inv.log j, Thread.successes, List.mem_append] at linked
  have made := history.made
  simp only [Thread.keys] at made
  obtain added | pending := linked
  · obtain ⟨⟨k', rv⟩, member', rfl⟩ := List.mem_map.mp added
    obtain ⟨there, zero⟩ := List.mem_filter.mp member'
    by_cases same : j = i
    · subst same
      have once := apart.once j
      rw [← made j, List.append_assoc] at once
      have equal := List.inj_on_of_nodup_map (List.nodup_append.mp once).1 there member rfl
      simp [(Prod.mk.inj equal).2] at zero
    · refine apart.apart i j (Ne.symm same) k' ?_ ?_
      · rw [← made i]
        simp [mine]
      · rw [← made j]
        exact List.mem_append_left _ (List.mem_append_left _ (List.mem_map.mpr ⟨_, there, rfl⟩))
  · have current : k ∈ (s.threads j).pc.current := by
      cases at_ : (s.threads j).pc <;> simp_all [Pc.pending, Pc.current]
    by_cases same : j = i
    · subst same
      have once := apart.once j
      rw [← made j] at once
      exact (List.nodup_append.mp (List.nodup_append.mp once).1).2.2 k mine k current rfl
    · refine apart.apart i j (Ne.symm same) k ?_ ?_
      · rw [← made i]
        simp [mine]
      · rw [← made j]
        simp [current]

omit [DecidableEq ι] in
theorem not_tooLong (short : ∀ i, ∀ call ∈ calls i, call.key.length ≤ BT_KEY_MAX) (history : History calls s) :
    ¬ TooLong s i := by
  rintro ⟨call, slot, mtx, at_, long⟩
  have made : call.key ∈ keysOf (calls i) := by
    rw [← history.made i]
    simp [Thread.keys, at_, Pc.current]
  obtain ⟨other, member, same⟩ := List.mem_map.mp made
  have fits := short i other member
  rw [same] at fits
  omega

/-- Threads that add different keys to one tree all return, after a number of steps that depends on the
number of calls alone, and everything has been added. -/
theorem all_return [Fintype ι] (apart : Apart calls)
    (short : ∀ i, ∀ call ∈ calls i, call.key.length ≤ BT_KEY_MAX) {schedule : List ι}
    (run : follow (start calls) schedule = .next s) :
    schedule.length ≤ total calls * (3 * total calls + 9) ∧
    ((∀ i s', step s i ≠ .next s') →
      (∀ i, Returned s i ∧ (s.threads i).results = (keysOf (calls i)).map fun key => (key, 0)) ∧
      ∀ key, key ∈ s.tree.keys ↔ ∃ i, key ∈ keysOf (calls i)) := by
  obtain ⟨accounts, steps⟩ := follow_cost (accounts_start calls) run
  rw [start_cost] at steps
  refine ⟨(Nat.le_add_left _ _).trans steps, fun stuck => ?_⟩
  obtain ⟨inv, locks, history, _⟩ := accounts
  have reachable : Reachable calls s := follow_steps run
  have returned : ∀ i, Returned s i := by
    obtain returned | ⟨i, long⟩ | ⟨i, j, _, _, _, _, _, _, _, _, _, _, _, duplicate⟩ :=
      stuck_cause reachable stuck
    · exact returned
    · exact absurd long (not_tooLong short history)
    · exact absurd duplicate (not_duplicate apart inv history _)
  have results (i : ι) : (s.threads i).results = (keysOf (calls i)).map fun key => (key, 0) := by
    rw [← history.made i]
    obtain ⟨idle, none⟩ := returned i
    simp only [Thread.keys, idle, none, Pc.current, keysOf, List.map_nil, List.append_nil, List.map_map]
    symm
    refine (List.map_congr_left fun r member => ?_).trans (List.map_id _)
    obtain ⟨key, rv⟩ := r
    obtain rfl | rfl := history.values i _ member
    · rfl
    · exact absurd member (not_duplicate apart inv history key)
  refine ⟨fun i => ⟨returned i, results i⟩, fun key => ?_⟩
  obtain ⟨_, _, _, _, all⟩ := reachable_shared_tree reachable
  rw [(all fun i => (returned i).1).2.1 key]
  refine exists_congr fun i => ?_
  rw [results i]
  simp

def twoCalls : Bool → List (Call Nat)
  | false => [⟨.ofBytes [97], 7⟩]
  | true => [⟨.ofBytes [98], 8⟩]

theorem twoCalls_apart : Apart twoCalls where
  once := by rintro (_ | _) <;> decide
  apart := by rintro (_ | _) (_ | _) other <;> simp_all [twoCalls, keysOf] <;> decide

theorem all_return_sample : ∃ s,
    follow (start twoCalls) (List.replicate 6 false ++ List.replicate 9 true) = .next s ∧
    (∀ i s', step s i ≠ .next s') ∧
    (∀ i, Returned s i ∧ (s.threads i).results = (keysOf (twoCalls i)).map fun key => (key, 0)) ∧
    ∀ key, key ∈ s.tree.keys ↔ ∃ i, key ∈ keysOf (twoCalls i) := by
  obtain ⟨s, run, blocked⟩ : ∃ s, follow (start twoCalls)
      (List.replicate 6 false ++ List.replicate 9 true) = .next s ∧ ∀ i, step s i = .blocked :=
    ⟨_, rfl, fun i => by cases i <;> rfl⟩
  have stuck : ∀ i s', step s i ≠ .next s' := fun i s' => by simp [blocked i]
  exact ⟨s, run, stuck, (all_return twoCalls_apart (by rintro (_ | _) <;> decide) run).2 stuck⟩

end Tlpi.ThreadSafeTree
