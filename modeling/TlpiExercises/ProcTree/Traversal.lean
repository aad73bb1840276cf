import TlpiExercises.Library.Exploration
import TlpiExercises.ProcTree.Model

/-!
# The processes that printHierarchy prints

An entry is fresh as long as it is not taken. A call prints its process and everything below it along
fresh entries, and takes what it prints.
-/

namespace Tlpi.ProcTree

open Loop Exploration

variable {processes : List Process} {d d' d'' pre post : List ProcessInfo} {e e' info : ProcessInfo}
  {pid : CStr} {s s' : State}

def ProcessInfo.process (entry : ProcessInfo) : Process := ⟨entry.pid, entry.ppid⟩

def Parent (processes : List Process) (ppid pid : CStr) : Prop := ⟨pid, ppid⟩ ∈ processes

def fresh (dirList : List ProcessInfo) : Multiset CStr :=
  ((dirList.filter fun entry => !entry.taken).map ProcessInfo.pid : List CStr)

def Piece.pid? : Piece → Option CStr
  | .pid pid => some pid
  | .text _ => none

/-- The pids in what is printed. -/
def pids (out : List Piece) : List CStr := out.filterMap Piece.pid?

/-! ### Entries that are taken -/

theorem mem_fresh : pid ∈ fresh d ↔ ∃ entry ∈ d, entry.taken = false ∧ entry.pid = pid := by
  unfold fresh
  rw [Multiset.mem_coe, List.mem_map]
  constructor
  · rintro ⟨entry, member, same⟩
    obtain ⟨inside, free⟩ := List.mem_filter.mp member
    exact ⟨entry, inside, by simpa using free, same⟩
  · rintro ⟨entry, member, free, same⟩
    exact ⟨entry, List.mem_filter.mpr ⟨member, by simpa using free⟩, same⟩

theorem fresh_taken (free : e.taken = false) (taken : e'.taken = true) :
    fresh (pre ++ e :: post) = e.pid ::ₘ fresh (pre ++ e' :: post) := by
  have one : (e :: post).filter (fun entry => !entry.taken) =
      e :: post.filter fun entry => !entry.taken :=
    List.filter_cons_of_pos (by rw [free]; rfl)
  have other : (e' :: post).filter (fun entry => !entry.taken) =
      post.filter fun entry => !entry.taken :=
    List.filter_cons_of_neg (by rw [taken]; decide)
  unfold fresh
  rw [List.filter_append, List.filter_append, one, other, List.map_append, List.map_append,
    List.map_cons, Multiset.cons_coe, Multiset.coe_eq_coe]
  exact List.perm_middle

/-- An entry stays the same process, and its flags are only set. -/
structure Grown (entry later : ProcessInfo) : Prop where
  process : later.process = entry.process
  taken : later.taken = false → entry.taken = false
  parent : later.parent = false → entry.parent = false

def Grows (d d' : List ProcessInfo) : Prop := List.Forall₂ Grown d d'

theorem Grown.refl (entry : ProcessInfo) : Grown entry entry := ⟨rfl, id, id⟩

theorem grows_refl (d : List ProcessInfo) : Grows d d :=
  List.forall₂_same.mpr fun entry _ => Grown.refl entry

theorem grows_trans (first : Grows d d') (second : Grows d' d'') : Grows d d'' := by
  induction first generalizing d'' with
  | nil => exact second
  | cons here _ ih =>
    cases second with
    | cons there rest =>
      refine List.Forall₂.cons ⟨?_, ?_, ?_⟩ (ih rest)
      · exact there.process.trans here.process
      · exact here.taken ∘ there.taken
      · exact here.parent ∘ there.parent

theorem grows_one (grown : Grown e e') : Grows (pre ++ e :: post) (pre ++ e' :: post) := by
  induction pre with
  | nil => exact List.Forall₂.cons grown (grows_refl post)
  | cons entry pre ih => exact List.Forall₂.cons (Grown.refl entry) ih

theorem grows_process (grows : Grows d d') :
    d'.map ProcessInfo.process = d.map ProcessInfo.process := by
  induction grows with
  | nil => rfl
  | cons here _ ih => rw [List.map_cons, List.map_cons, here.process, ih]

theorem grows_get (grows : Grows d d') {i : Nat} (inside : d[i]? = some e) :
    ∃ e', d'[i]? = some e' ∧ Grown e e' := by
  induction grows generalizing i with
  | nil => cases inside
  | cons here _ ih =>
    cases i with
    | zero =>
      cases inside
      exact ⟨_, rfl, here⟩
    | succ i => exact ih inside

theorem grows_fresh (grows : Grows d d') : fresh d' ≤ fresh d := by
  have sub : ((d'.filter fun entry => !entry.taken).map ProcessInfo.pid).Sublist
      ((d.filter fun entry => !entry.taken).map ProcessInfo.pid) := by
    induction grows with
    | nil => exact List.Sublist.refl _
    | @cons entry later rest rest' here _ ih =>
      have same : later.pid = entry.pid := congrArg Process.pid here.process
      by_cases free : later.taken = false
      · rw [List.filter_cons_of_pos (by rw [free]; rfl),
          List.filter_cons_of_pos (by rw [here.taken free]; rfl), List.map_cons, List.map_cons, same]
        exact ih.cons_cons _
      · rw [List.filter_cons_of_neg (by simpa using free)]
        refine ih.trans (List.Sublist.map _ ?_)
        rw [List.filter_cons]
        split
        · exact List.sublist_cons_self _ _
        · exact List.Sublist.refl _
  exact Multiset.coe_le.mpr sub.subperm

/-! ### The children -/

theorem untakenChild_iff : untakenChild pid e = true ↔ e.ppid = pid ∧ e.taken = false := by
  simp [untakenChild, strcmp_eq_zero]

/-- Distinct pids, so that a link belongs to one entry only. -/
theorem done_of_none (same : d.map ProcessInfo.process = processes)
    (distinct : (processes.map Process.pid).Nodup)
    (none_left : ∀ entry ∈ d, ¬ untakenChild pid entry = true) :
    Done (Parent processes) (fresh d) pid := by
  intro child free link
  obtain ⟨entry, member, untaken, rfl⟩ := mem_fresh.mp free
  unfold Parent at link
  rw [← same] at link
  obtain ⟨other, inside, equal⟩ := List.mem_map.mp link
  have pids : (d.map ProcessInfo.pid).Nodup := by
    have maps : d.map ProcessInfo.pid = processes.map Process.pid := by
      rw [← same, List.map_map]
      rfl
    rw [maps]
    exact distinct
  have entries : other = entry :=
    List.inj_on_of_nodup_map pids inside member (congrArg Process.pid equal)
  subst entries
  exact none_left other member (untakenChild_iff.mpr ⟨congrArg Process.ppid equal, untaken⟩)

theorem modify_here (f : ProcessInfo → ProcessInfo) :
    (pre ++ e :: post).modify pre.length f = pre ++ f e :: post := by
  have inside : pre.length < (pre ++ e :: post).length := by simp
  rw [List.modify_eq_take_cons_drop inside]
  simp

theorem findChild_cases (pid : CStr) (d : List ProcessInfo) :
    (findChild pid d = none ∧ ∀ entry ∈ d, ¬ untakenChild pid entry = true) ∨
    ∃ pre e post, d = pre ++ e :: post ∧ untakenChild pid e = true ∧
      findChild pid d = some (pre.length, pre ++ e.take :: post) := by
  unfold findChild
  cases found : d.findIdx? (untakenChild pid) with
  | none =>
    refine Or.inl ⟨rfl, fun entry member child => ?_⟩
    exact absurd child (by simpa using List.findIdx?_eq_none_iff.mp found entry member)
  | some i =>
    obtain ⟨inside, child, _⟩ := List.findIdx?_eq_some_iff_getElem.mp found
    have split : d = d.take i ++ d[i] :: d.drop (i + 1) := by simp
    have length : (d.take i).length = i := List.length_take_of_le inside.le
    refine Or.inr ⟨d.take i, d[i], d.drop (i + 1), split, child, ?_⟩
    rw [Option.map_some, length, List.modify_eq_take_cons_drop inside]

/-- The entry that a round takes. Without the flag of a parent it has no fresh child. -/
structure Taken (pid : CStr) (e e' : ProcessInfo) (left : List ProcessInfo) : Prop where
  child : e.ppid = pid
  free : e.taken = false
  process : e'.process = e.process
  taken : e'.taken = true
  parent : e'.parent = false → e.parent = false ∧ hasChildren e'.pid left = false

theorem takeChild_cases (pid : CStr) (d : List ProcessInfo) (children : List Nat) :
    (takeChild pid (d, children) = .error (some (d, children)) ∧
      ∀ entry ∈ d, ¬ untakenChild pid entry = true) ∨
    ∃ pre e e' post, d = pre ++ e :: post ∧ Taken pid e e' (pre ++ e' :: post) ∧
      takeChild pid (d, children) = .ok (pre ++ e' :: post, children ++ [pre.length]) := by
  unfold takeChild
  dsimp only
  rcases findChild_cases pid d with ⟨found, none_left⟩ | ⟨pre, e, post, rfl, child, found⟩
  · rw [found]
    exact Or.inl ⟨rfl, none_left⟩
  obtain ⟨parent, free⟩ := untakenChild_iff.mp child
  have here : (pre ++ e.take :: post)[pre.length]? = some e.take := by simp
  refine Or.inr ?_
  rw [found]
  dsimp only
  rw [here]
  dsimp only
  by_cases more : hasChildren e.take.pid (pre ++ e.take :: post) = true
  · rw [if_pos more]
    refine ⟨pre, e, e.take.makeParent, post, rfl, ⟨parent, free, rfl, rfl, fun unset => ?_⟩, ?_⟩
    · cases unset
    have modified : (pre ++ e.take :: post).modify pre.length ProcessInfo.makeParent =
        pre ++ e.take.makeParent :: post := modify_here _
    rw [modified]
  · rw [if_neg more]
    refine ⟨pre, e, e.take, post, rfl, ⟨parent, free, rfl, rfl, ?_⟩, rfl⟩
    exact fun unset => ⟨unset, Bool.not_eq_true _ ▸ more⟩

/-- An index of a child, which has nothing below it unless it has the flag. -/
def Child (processes : List Process) (d : List ProcessInfo) (child : Nat) (pid : CStr) : Prop :=
  ∃ info, d[child]? = some info ∧ info.pid = pid ∧
    (info.parent = false → Done (Parent processes) (fresh d) pid)

theorem child_grows (grows : Grows d d') {child : Nat} (h : Child processes d child pid) :
    Child processes d' child pid := by
  obtain ⟨info, here, rfl, leaf⟩ := h
  obtain ⟨later, there, grown⟩ := grows_get grows here
  refine ⟨later, there, congrArg Process.pid grown.process, fun unset => ?_⟩
  exact done_mono (grows_fresh grows) (leaf (grown.parent unset))

theorem children_grow (grows : Grows d d') {children : List Nat} {queue : List CStr}
    (h : List.Forall₂ (Child processes d) children queue) :
    List.Forall₂ (Child processes d') children queue :=
  h.imp fun _ _ => child_grows grows

/-- The children that the loop collects, in the order in which they are found. -/
structure Collected (processes : List Process) (pid : CStr) (d : List ProcessInfo) (new : List Nat)
    (queue : List CStr) (d' : List ProcessInfo) : Prop where
  grows : Grows d d'
  account : fresh d = ↑queue + fresh d'
  links : ∀ child ∈ queue, Parent processes pid child
  done : Done (Parent processes) (fresh d') pid
  children : List.Forall₂ (Child processes d') new queue

theorem collect (pid : CStr) (children : List Nat) (same : d.map ProcessInfo.process = processes)
    (distinct : (processes.map Process.pid).Nodup) {fuel : Nat}
    (enough : (fresh d).card < fuel) :
    ∃ new queue d', loop (takeChild pid) fuel (d, children) = some (some (d', children ++ new)) ∧
      Collected processes pid d new queue d' := by
  induction fuel generalizing d children with
  | zero => cases enough
  | succ fuel ih =>
    rcases takeChild_cases pid d children with
      ⟨last, none_left⟩ | ⟨pre, e, e', post, rfl, taken, more⟩
    · refine ⟨[], [], d, ?_, grows_refl d, (zero_add _).symm, ?_, ?_, List.Forall₂.nil⟩
      · rw [loop, last, List.append_nil]
      · exact fun _ member => by cases member
      · exact done_of_none same distinct none_left
    · have grown : Grown e e' := by
        refine ⟨taken.process, fun unset => ?_, fun unset => (taken.parent unset).1⟩
        rw [taken.taken] at unset
        cases unset
      have step : Grows (pre ++ e :: post) (pre ++ e' :: post) := grows_one grown
      have same' : (pre ++ e' :: post).map ProcessInfo.process = processes :=
        (grows_process step).trans same
      have fewer : fresh (pre ++ e :: post) = e.pid ::ₘ fresh (pre ++ e' :: post) :=
        fresh_taken taken.free taken.taken
      rw [fewer, Multiset.card_cons] at enough
      obtain ⟨new, queue, d', later, collected⟩ :=
        ih (children ++ [pre.length]) same' (Nat.lt_of_succ_lt_succ enough)
      refine ⟨pre.length :: new, e.pid :: queue, d', ?_, ?_⟩
      · rw [loop, more]
        dsimp only
        rw [later, List.append_assoc, List.singleton_append]
      refine ⟨grows_trans step collected.grows, ?_, ?_, collected.done, ?_⟩
      · rw [fewer, collected.account, ← Multiset.cons_coe, Multiset.cons_add]
      · refine List.forall_mem_cons.mpr ⟨?_, collected.links⟩
        unfold Parent
        rw [← same]
        refine List.mem_map.mpr ⟨e, List.mem_append_right _ List.mem_cons_self, ?_⟩
        rw [ProcessInfo.process, taken.child]
      · refine List.Forall₂.cons ?_ collected.children
        refine child_grows collected.grows ⟨e', by simp, congrArg Process.pid taken.process, ?_⟩
        intro unset
        have childless := (taken.parent unset).2
        refine done_of_none same' distinct fun entry member child => ?_
        rw [← show e'.pid = e.pid from congrArg Process.pid taken.process] at child
        have found : hasChildren e'.pid (pre ++ e' :: post) = true :=
          List.any_eq_true.mpr ⟨entry, member, child⟩
        rw [childless] at found
        cases found

end Tlpi.ProcTree
