import TlpiExercises.ProcTree.Hierarchy

/-!
# The indent levels of a run

A call pushes its column and the loop of its caller pops it. `Active` are the calls inside of each other
at some point of the run, the innermost first; the array holds the columns of those that push.
-/

namespace Tlpi.ProcTree

open Loop

/-- A call of `printHierarchy`, with the state that it finds. -/
structure Call where
  state : State
  parent : Nat
  initSpacing : Nat
  firstChild : Bool
  lastChild : Bool
  multiChild : Bool

namespace Call

def visit (visit : State → Nat → Nat → Bool → Bool → Bool → Option State) (c : Call) : Option State :=
  visit c.state c.parent c.initSpacing c.firstChild c.lastChild c.multiChild

def run (fuel : Nat) (c : Call) : Option State := c.visit (printHierarchy fuel)

/-- The array behind the push of the call. -/
def levels (c : Call) : List Nat :=
  if c.multiChild then c.state.indentLevels ++ [c.initSpacing] else c.state.indentLevels

/-- The size of `childSpacing` without its NUL. -/
def spacingSize (c : Call) (info : ProcessInfo) : Nat := (getSpacing (c.initSpacing + 3 + info.pid.length - 3)).length

end Call

/-- What a call has when it comes to its loop. -/
structure Entered where
  childLength : Nat
  childSpacing : List Char
  children : List Nat
  state : State

/-- The part of `printHierarchy` before the loop over the children. -/
def Call.enter (c : Call) : Option Entered :=
  match c.state.dirList[c.parent]? with
  | none => none
  | some info =>
    let childLength := c.initSpacing + 3 + info.pid.length
    match drawLevels (getSpacing (childLength - 3)) c.levels with
    | none => none
    | some childSpacing =>
      match loop (takeChild info.pid) (c.state.dirList.length + 1) (c.state.dirList, []) with
      | none => none
      | some none => none
      | some (some (dirList, children)) =>
        let s : State := ⟨dirList, c.levels, c.state.out⟩
        let s :=
          if c.firstChild then s else s.print [.text (if c.lastChild then headerLast else headerMiddle)]
        let s := s.print [.pid info.pid,
          .text (if children.length > 1 then headerFirstMulti else headerFirstSingle)]
        some ⟨childLength, childSpacing, children, s⟩

/-- The calls that `printChildren` makes. -/
def loopCalls (visit : State → Nat → Nat → Bool → Bool → Bool → Option State)
    (childLength : Nat) (childSpacing : List Char) (size : Nat) : Bool → Nat → List Nat → State → List Call
  | _, _, [], _ => []
  | first, i, child :: rest, s =>
    match s.dirList[child]? with
    | none => []
    | some info =>
      if info.parent then
        let c : Call := ⟨if first then s else s.print [.text childSpacing], child, childLength, first,
          i = size - 1, size > 1⟩
        c :: match c.visit visit with
          | none => []
          | some s => loopCalls visit childLength childSpacing size false (i + 1) rest (if size > 1 then s.pop else s)
      else
        loopCalls visit childLength childSpacing size false (i + 1) rest
          (s.print (leafHeader childSpacing size first i ++ [.pid info.pid, .text ['\n']]))

/-- The calls that a call makes itself, where `fuel` is left to them. -/
def Call.calls (fuel : Nat) (c : Call) : List Call :=
  c.enter.elim [] fun e =>
    loopCalls (printHierarchy fuel) e.childLength e.childSpacing e.children.length true 0 e.children e.state

/-- The call of `main`. -/
def mainCall (snapshot : List (Process × Flags)) : Option Call :=
  (findInit 0 none (scan snapshot)).map fun initProcess =>
    ⟨⟨scan snapshot, [], []⟩, initProcess, 0, true, true, true⟩

/-- The calls inside of each other, and the fuel that the innermost one has. -/
inductive Active (snapshot : List (Process × Flags)) : Nat → List Call → Prop where
  | main {fuel : Nat} {c : Call} (start : mainCall snapshot = some c) : Active snapshot fuel [c]
  | call {fuel : Nat} {inner c : Call} {stack : List Call} (active : Active snapshot (fuel + 1) (c :: stack))
      (made : inner ∈ c.calls fuel) : Active snapshot fuel (inner :: c :: stack)

/-- The columns of the calls that were passed `multiChild`, the outermost first. -/
def spacings (stack : List Call) : List Nat := (stack.reverse.filter Call.multiChild).map Call.initSpacing

/-- What is asked of the array along the whole run for a snapshot. -/
structure Levelled (snapshot : List (Process × Flags)) : Prop where
  found : ∀ {fuel c stack}, Active snapshot fuel (c :: stack) → c.state.indentLevels = spacings stack
  pushed : ∀ {fuel c stack}, Active snapshot fuel (c :: stack) → c.levels = spacings (c :: stack)
  returned : ∀ {fuel c stack t}, Active snapshot fuel (c :: stack) → c.run fuel = some t →
    t.indentLevels = spacings (c :: stack)
  inside : ∀ {fuel c stack info}, Active snapshot fuel (c :: stack) →
    c.state.dirList[c.parent]? = some info →
    ∀ level ∈ c.levels, level > 2 → level - 2 < c.spacingSize info
  ends : one ∈ (snapshot.map Prod.fst).map Process.pid → ∃ bound, ∀ fuel ≥ bound,
    ∃ out, main fuel snapshot = some out

/-! ### The calls of a run -/

section Calls

variable {visit visit' : State → Nat → Nat → Bool → Bool → Bool → Option State} {childLength size i : Nat}
  {childSpacing : List Char} {first : Bool} {children : List Nat} {s t : State} {c inner : Call} {e : Entered}
  {fuel : Nat}

theorem run_succ (fuel : Nat) (c : Call) :
    c.run (fuel + 1) = c.enter.bind fun e => printChildren (printHierarchy fuel) e.childLength e.childSpacing
      e.children.length true 0 e.children e.state := by
  rw [Call.run, Call.visit, printHierarchy, push_level]
  unfold Call.enter
  dsimp only
  cases c.state.dirList[c.parent]? with
  | none => rfl
  | some info =>
    dsimp only
    rw [Call.levels]
    cases drawLevels (getSpacing (c.initSpacing + 3 + info.pid.length - 3))
        (if c.multiChild = true then c.state.indentLevels ++ [c.initSpacing] else c.state.indentLevels) with
    | none => rfl
    | some drawn =>
      dsimp only
      cases loop (takeChild info.pid) (c.state.dirList.length + 1) (c.state.dirList, []) with
      | none => rfl
      | some collected =>
        cases collected with
        | none => rfl
        | some collected => rfl

theorem enter_levels (entered : c.enter = some e) :
    e.state.indentLevels = c.levels ∧ c.initSpacing ≤ e.childLength := by
  unfold Call.enter at entered
  split at entered
  · cases entered
  · rename_i info _
    dsimp only at entered
    split at entered
    · cases entered
    · split at entered
      · cases entered
      · cases entered
      · cases entered
        refine ⟨?_, by dsimp only; omega⟩
        cases c.firstChild with
        | false => rfl
        | true => rfl

/-- The loop depends on nothing but the calls that are listed. -/
theorem printChildren_agrees
    (agree : ∀ c ∈ loopCalls visit childLength childSpacing size first i children s,
      c.visit visit' = c.visit visit) :
    printChildren visit' childLength childSpacing size first i children s =
      printChildren visit childLength childSpacing size first i children s := by
  induction children generalizing first i s with
  | nil => rfl
  | cons child rest ih =>
    rw [loopCalls] at agree
    rw [printChildren, printChildren]
    cases here : s.dirList[child]? with
    | none => rfl
    | some info =>
      rw [here] at agree
      dsimp only at agree ⊢
      by_cases parent : info.parent = true
      · rw [if_pos parent, List.forall_mem_cons] at agree
        obtain ⟨same, agree⟩ := agree
        rw [if_pos parent, if_pos parent]
        unfold Call.visit at same agree
        rw [same]
        cases called : visit (if first = true then s else s.print [.text childSpacing]) child childLength first
            (i = size - 1) (size > 1) with
        | none => rfl
        | some s' =>
          rw [called] at agree
          exact ih agree
      · rw [if_neg parent] at agree
        rw [if_neg parent, if_neg parent]
        exact ih agree

/-- A call leaves its own push behind, and nothing else. -/
def Keeps (visit : State → Nat → Nat → Bool → Bool → Bool → Option State) : Prop :=
  ∀ c t, Call.visit visit c = some t → t.indentLevels = c.levels

/-- What the caller has behind a call, with its pop. -/
theorem popped_levels (keeps : Keeps visit) (child last : Nat)
    (called : visit (if first = true then s else s.print [.text childSpacing]) child childLength first
      (i = last) (size > 1) = some t) :
    (if size > 1 then t.pop else t).indentLevels = s.indentLevels := by
  have found : (if first = true then s else s.print [.text childSpacing]).indentLevels = s.indentLevels :=
    (printed_text s first childSpacing).levels
  have left := keeps ⟨if first = true then s else s.print [.text childSpacing], child, childLength, first,
    i = last, size > 1⟩ t called
  unfold Call.levels at left
  dsimp only at left
  rw [found] at left
  by_cases several : size > 1
  · rw [if_pos (decide_eq_true several)] at left
    rw [if_pos several, State.pop, left, List.dropLast_concat]
  · rw [if_neg (by simpa using several)] at left
    rw [if_neg several, left]

theorem printChildren_levels (keeps : Keeps visit)
    (done : printChildren visit childLength childSpacing size first i children s = some t) :
    t.indentLevels = s.indentLevels := by
  induction children generalizing first i s with
  | nil =>
    cases done
    rfl
  | cons child rest ih =>
    rw [printChildren] at done
    split at done
    · cases done
    · split at done
      · dsimp only at done
        split at done
        · cases done
        · rename_i called
          exact (ih done).trans (popped_levels keeps child (size - 1) called)
      · exact ih (s := s.print _) done

/-- Every call of the loop finds the array as the caller has it, and a column behind the caller's. -/
theorem loopCalls_levels (keeps : Keeps visit)
    (made : inner ∈ loopCalls visit childLength childSpacing size first i children s) :
    inner.state.indentLevels = s.indentLevels ∧ inner.initSpacing = childLength := by
  induction children generalizing first i s with
  | nil => cases made
  | cons child rest ih =>
    rw [loopCalls] at made
    split at made
    · cases made
    · split at made
      · rcases List.mem_cons.mp made with rfl | later
        · exact ⟨(printed_text s first childSpacing).levels, rfl⟩
        · split at later
          · cases later
          · rename_i called
            obtain ⟨found, column⟩ := ih later
            exact ⟨found.trans (popped_levels keeps child (size - 1) called), column⟩
      · exact ih (s := s.print _) made

theorem printHierarchy_keeps (fuel : Nat) : Keeps (printHierarchy fuel) := by
  induction fuel with
  | zero =>
    intro c t called
    cases called
  | succ fuel ih =>
    intro c t called
    have run := run_succ fuel c
    rw [Call.run, called] at run
    obtain ⟨e, entered, done⟩ := Option.bind_eq_some_iff.mp run.symm
    exact (printChildren_levels ih done).trans (enter_levels entered).1

theorem calls_levels (made : inner ∈ c.calls fuel) :
    inner.state.indentLevels = c.levels ∧ c.initSpacing ≤ inner.initSpacing := by
  unfold Call.calls at made
  cases entered : c.enter with
  | none =>
    rw [entered] at made
    cases made
  | some e =>
    rw [entered] at made
    obtain ⟨found, column⟩ := loopCalls_levels (printHierarchy_keeps fuel) made
    obtain ⟨levels, further⟩ := enter_levels entered
    exact ⟨found.trans levels, column ▸ further⟩

end Calls

/-! ### The whole run -/

section Run

variable {snapshot : List (Process × Flags)} {fuel : Nat} {c : Call} {stack : List Call}

theorem levels_spacings (found : c.state.indentLevels = spacings stack) : c.levels = spacings (c :: stack) := by
  unfold spacings at found ⊢
  rw [Call.levels, found, List.reverse_cons, List.filter_append, List.map_append]
  cases several : c.multiChild with
  | false => simp [several]
  | true => simp [several]

/-- The columns of a stack are found by the innermost call, and none is behind its own. -/
theorem active_levels (active : Active snapshot fuel (c :: stack)) :
    c.state.indentLevels = spacings stack ∧ ∀ level ∈ c.levels, level ≤ c.initSpacing := by
  generalize whole : c :: stack = calls at active
  induction active generalizing c stack with
  | main start =>
    cases whole
    obtain ⟨initProcess, _, rfl⟩ := Option.map_eq_some_iff.mp start
    exact ⟨rfl, push_columns (fun _ member => by cases member) true⟩
  | call active made ih =>
    cases whole
    obtain ⟨found, columns⟩ := ih rfl
    obtain ⟨same, further⟩ := calls_levels made
    refine ⟨same.trans (levels_spacings found), push_columns (fun level member => ?_) _⟩
    rw [same] at member
    exact (columns level member).trans further

theorem active_inside (active : Active snapshot fuel (c :: stack)) (info : ProcessInfo) {level : Nat}
    (member : level ∈ c.levels) (wide : level > 2) : level - 2 < c.spacingSize info := by
  have column := (active_levels active).2 level member
  rw [Call.spacingSize, getSpacing, List.length_replicate]
  omega

/-- The array holds the columns of the calls that are active, for every snapshot. -/
theorem levels_follow_calls (snapshot : List (Process × Flags))
    (distinct : ((snapshot.map Prod.fst).map Process.pid).Nodup) : Levelled snapshot where
  found active := (active_levels active).1
  pushed active := levels_spacings (active_levels active).1
  returned active done := (printHierarchy_keeps _ _ _ done).trans (levels_spacings (active_levels active).1)
  inside active _ _ member wide := active_inside active _ member wide
  ends present := by
    refine ⟨(fresh (scan snapshot)).card + 1, fun fuel enough => ?_⟩
    obtain ⟨out, _, _, call, _⟩ := main_visits distinct present enough
    exact ⟨out, call⟩

/-- Init with two children, the first of which has one. -/
theorem levels_follow_calls_family : Levelled
    [(⟨one, ⟨[48], by decide⟩⟩, ⟨false, false⟩), (⟨⟨[50], by decide⟩, one⟩, ⟨false, false⟩),
      (⟨⟨[51], by decide⟩, one⟩, ⟨false, false⟩), (⟨⟨[52], by decide⟩, ⟨[50], by decide⟩⟩, ⟨false, false⟩)] :=
  levels_follow_calls _ (by decide)

end Run

end Tlpi.ProcTree
