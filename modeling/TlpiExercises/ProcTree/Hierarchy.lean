import TlpiExercises.ProcTree.Traversal

/-!
# What the whole tree shows

All processes below init are shown once, unless flags that `main` has not assigned hide some of them, or
init is found a second time as a child.
-/

namespace Tlpi.ProcTree

open Loop Exploration

variable {processes : List Process} {info : ProcessInfo} {s s' t : State} {found queue : List CStr}
  {root : CStr} {levels : List Nat}

/-! ### The lines between the processes -/

theorem drawLevels_inside {spacing : List Char} (inside : ∀ level ∈ levels, level < spacing.length + 2) :
    ∃ drawn, drawLevels spacing levels = some drawn := by
  induction levels generalizing spacing with
  | nil => exact ⟨spacing, rfl⟩
  | cons level rest ih =>
    rw [List.forall_mem_cons] at inside
    rw [drawLevels]
    by_cases wide : level > 2
    · have column : level - 2 < spacing.length := by omega
      rw [if_pos wide, if_pos column]
      exact ih (by rw [List.length_set]; exact inside.2)
    · rw [if_neg wide]
      exact ih inside.2

/-- No level is further to the right than the pids that are drawn below it. -/
theorem drawLevels_columns {initSpacing : Nat} (columns : ∀ level ∈ levels, level ≤ initSpacing)
    (pid : CStr) :
    ∃ drawn, drawLevels (getSpacing (initSpacing + 3 + pid.length - 3)) levels = some drawn := by
  refine drawLevels_inside fun level member => ?_
  have column := columns level member
  rw [getSpacing, List.length_replicate]
  omega

theorem pids_append (out more : List Piece) : pids (out ++ more) = pids out ++ pids more :=
  List.filterMap_append

/-- The pids that have been printed since `s`, with nothing else changed. -/
structure Printed (s : State) (shown : List CStr) (t : State) : Prop where
  entries : t.dirList = s.dirList
  levels : t.indentLevels = s.indentLevels
  shown : pids t.out = pids s.out ++ shown

theorem Printed.print {shown : List CStr} (printed : Printed s shown t) (pieces : List Piece) :
    Printed s (shown ++ pids pieces) (t.print pieces) where
  entries := printed.entries
  levels := printed.levels
  shown := by rw [State.print, pids_append, printed.shown, List.append_assoc]

theorem printed_nothing (s : State) : Printed s [] s := ⟨rfl, rfl, (List.append_nil _).symm⟩

theorem printed_text (s : State) (first : Bool) (chars : List Char) :
    Printed s [] (if first = true then s else s.print [.text chars]) := by
  cases first with
  | false => exact (printed_nothing s).print [.text chars]
  | true => exact printed_nothing s

theorem leafHeader_pids {childSpacing : List Char} {size i : Nat} {first : Bool} :
    pids (leafHeader childSpacing size first i) = [] := by
  unfold leafHeader
  split_ifs <;> rfl

/-! ### The calls -/

/-- What a call for `root` does. -/
structure Visited (processes : List Process) (s : State) (root : CStr) (found : List CStr)
    (levels : List Nat) (t : State) : Prop where
  grows : Grows s.dirList t.dirList
  visit : Visit (Parent processes) (fresh s.dirList) root found (fresh t.dirList)
  printed : pids t.out = pids s.out ++ root :: found
  levels : t.indentLevels = levels

/-- What the loop over the children does. -/
structure Scanned (processes : List Process) (s : State) (queue found : List CStr) (t : State) :
    Prop where
  grows : Grows s.dirList t.dirList
  scan : Scan (Parent processes) (fresh s.dirList) queue found (fresh t.dirList)
  printed : pids t.out = pids s.out ++ found
  levels : t.indentLevels = s.indentLevels

/-- What is promised of a call when fewer than `bound` entries are fresh. -/
def Visits (processes : List Process)
    (visit : State → Nat → Nat → Bool → Bool → Bool → Option State) (bound : Nat) : Prop :=
  ∀ (s : State) (parent initSpacing : Nat) (firstChild lastChild multiChild : Bool)
    (info : ProcessInfo), (fresh s.dirList).card < bound →
    s.dirList.map ProcessInfo.process = processes → s.dirList[parent]? = some info →
    (∀ level ∈ s.indentLevels, level ≤ initSpacing) →
    ∃ t found, visit s parent initSpacing firstChild lastChild multiChild = some t ∧
      Visited processes s info.pid found
        (if multiChild then s.indentLevels ++ [initSpacing] else s.indentLevels) t

theorem Scanned.cons (visited : Visited processes s root found s.indentLevels s')
    {later : List CStr} (scanned : Scanned processes s' queue later t) :
    Scanned processes s (root :: queue) (root :: found ++ later) t where
  grows := grows_trans visited.grows scanned.grows
  scan := Scan.cons visited.visit scanned.scan
  printed := by rw [scanned.printed, visited.printed, List.append_assoc]
  levels := scanned.levels.trans visited.levels

/-- A child that is visited. The level that the visit has added is taken away again. -/
theorem visited_parent {visit : State → Nat → Nat → Bool → Bool → Bool → Option State}
    {bound child childLength : Nat} (visits : Visits processes visit bound)
    (less : (fresh s.dirList).card < bound) (same : s.dirList.map ProcessInfo.process = processes)
    (here : s.dirList[child]? = some info) (columns : ∀ level ∈ s.indentLevels, level ≤ childLength)
    (first last : Bool) (childSpacing : List Char) (size : Nat) :
    ∃ t found, visit (if first = true then s else s.print [.text childSpacing]) child childLength
        first last (size > 1) = some t ∧
      Visited processes s info.pid found s.indentLevels (if size > 1 then t.pop else t) := by
  obtain ⟨entries, levels₀, shown⟩ := printed_text s first childSpacing
  generalize (if first = true then s else s.print [.text childSpacing]) = s₀ at entries levels₀ shown ⊢
  rw [← entries] at less same here
  rw [← levels₀] at columns
  obtain ⟨t, found, call, grows, visit, printed, levels⟩ :=
    visits s₀ child childLength first last (size > 1) info less same here columns
  rw [entries] at grows visit
  rw [shown, List.append_nil] at printed
  rw [levels₀] at levels
  refine ⟨t, found, call, ?_⟩
  by_cases several : size > 1
  · rw [if_pos several]
    rw [if_pos (decide_eq_true several)] at levels
    refine ⟨grows, visit, printed, ?_⟩
    rw [State.pop, levels, List.dropLast_concat]
  · rw [if_neg several]
    rw [if_neg (by simpa using several)] at levels
    exact ⟨grows, visit, printed, levels⟩

theorem visited_leaf (leaf : Done (Parent processes) (fresh s.dirList) info.pid)
    (childSpacing : List Char) (size i : Nat) (first : Bool) :
    Visited processes s info.pid [] s.indentLevels
      (s.print (leafHeader childSpacing size first i ++ [.pid info.pid, .text ['\n']])) := by
  have printed := (printed_nothing s).print
    (leafHeader childSpacing size first i ++ [.pid info.pid, .text ['\n']])
  rw [pids_append, leafHeader_pids] at printed
  exact ⟨grows_refl _, Visit.leaf leaf, printed.shown, rfl⟩

theorem printChildren_scans {visit : State → Nat → Nat → Bool → Bool → Bool → Option State}
    {bound childLength size i : Nat} {childSpacing : List Char} {first : Bool} {children : List Nat}
    (visits : Visits processes visit bound) (fits : queue.length + (fresh s.dirList).card ≤ bound)
    (same : s.dirList.map ProcessInfo.process = processes)
    (columns : ∀ level ∈ s.indentLevels, level ≤ childLength)
    (queued : List.Forall₂ (Child processes s.dirList) children queue) :
    ∃ t found, printChildren visit childLength childSpacing size first i children s = some t ∧
      Scanned processes s queue found t := by
  induction children generalizing s queue first i with
  | nil =>
    cases queued
    exact ⟨s, [], rfl, grows_refl _, Scan.nil, (List.append_nil _).symm, rfl⟩
  | cons child rest ih =>
    obtain @⟨_, _⟩ | @⟨_, _, _, queue, ⟨info, here, rfl, leaf⟩, queued⟩ := queued
    rw [List.length_cons] at fits
    -- the state after this child, from which the loop goes on
    have next : ∀ {s' : State} {found : List CStr},
        Visited processes s info.pid found s.indentLevels s' →
        ∃ t later, printChildren visit childLength childSpacing size false (i + 1) rest s' = some t ∧
          Scanned processes s' queue later t := by
      intro s' found visited
      refine ih ?_ ?_ ?_ (children_grow visited.grows queued)
      · have fewer := Multiset.card_le_card visited.visit.left_le
        omega
      · exact (grows_process visited.grows).trans same
      · rw [visited.levels]
        exact columns
    rw [printChildren, here]
    dsimp only
    by_cases parent : info.parent = true
    · obtain ⟨s', found, call, visited⟩ :=
        visited_parent visits (by omega) same here columns first (i = size - 1) childSpacing size
      rw [if_pos parent, call]
      dsimp only
      obtain ⟨t, later, rest, scanned⟩ := next visited
      exact ⟨t, _, rest, Scanned.cons visited scanned⟩
    · rw [if_neg parent]
      have visited := visited_leaf (leaf (Bool.not_eq_true _ ▸ parent)) childSpacing size i first
      obtain ⟨t, later, rest, scanned⟩ := next visited
      exact ⟨t, _, rest, Scanned.cons visited scanned⟩

/-- The column of the process, where it is one of several children. -/
theorem push_level (s : State) (multiChild : Bool) (column : Nat) :
    (if multiChild = true then { s with indentLevels := s.indentLevels ++ [column] } else s) =
      { s with indentLevels := if multiChild then s.indentLevels ++ [column] else s.indentLevels } := by
  cases multiChild
  · rfl
  · rfl

theorem push_columns {column : Nat} (columns : ∀ level ∈ levels, level ≤ column) (multiChild : Bool) :
    ∀ level ∈ (if multiChild = true then levels ++ [column] else levels), level ≤ column := by
  cases multiChild with
  | false => exact columns
  | true => exact List.forall_mem_append.mpr ⟨columns, List.forall_mem_singleton.mpr le_rfl⟩

theorem fresh_rounds (d : List ProcessInfo) : (fresh d).card < d.length + 1 := by
  unfold fresh
  rw [Multiset.coe_card, List.length_map]
  exact Nat.lt_succ_of_le (List.length_filter_le _ _)

theorem printHierarchy_visits (distinct : (processes.map Process.pid).Nodup) (fuel : Nat) :
    Visits processes (printHierarchy fuel) fuel := by
  induction fuel with
  | zero => exact fun s _ _ _ _ _ _ enough => absurd enough (Nat.not_lt_zero _)
  | succ fuel ih =>
    intro s parent initSpacing firstChild lastChild multiChild info enough same here columns
    have pushed := push_columns columns multiChild
    rw [printHierarchy, push_level]
    dsimp only
    rw [here]
    dsimp only
    generalize (if multiChild = true then s.indentLevels ++ [initSpacing] else s.indentLevels) =
      levels at pushed ⊢
    obtain ⟨drawn, draws⟩ := drawLevels_columns pushed info.pid
    obtain ⟨children, queue, d', collects, collected⟩ :=
      collect info.pid [] same distinct (fresh_rounds s.dirList)
    rw [draws]
    dsimp only
    rw [collects]
    dsimp only
    -- the state with the line of this process, in which the children are printed
    have printed := (printed_text (State.mk d' levels s.out) firstChild
      (if lastChild = true then headerLast else headerMiddle)).print [.pid info.pid,
        .text (if ([] ++ children).length > 1 then headerFirstMulti else headerFirstSingle)]
    generalize State.print (if firstChild = true then State.mk d' levels s.out else _) _ = s₁ at printed ⊢
    have entries : s₁.dirList = d' := printed.entries
    have columns₁ : ∀ level ∈ s₁.indentLevels, level ≤ initSpacing + 3 + info.pid.length := by
      rw [printed.levels]
      exact fun level member => (pushed level member).trans (by omega)
    have fits : queue.length + (fresh d').card ≤ fuel := by
      have total := congrArg Multiset.card collected.account
      rw [Multiset.card_add, Multiset.coe_card] at total
      omega
    have same' : d'.map ProcessInfo.process = processes :=
      (grows_process collected.grows).trans same
    have queued := collected.children
    rw [← entries] at fits same' queued
    obtain ⟨t, found, call, scanned⟩ := printChildren_scans ih fits same' columns₁ queued
    refine ⟨t, found, call, ?_, ?_, ?_, ?_⟩
    · exact grows_trans collected.grows (entries ▸ scanned.grows)
    · exact Scan.visit collected.account collected.links collected.done (entries ▸ scanned.scan)
    · rw [scanned.printed, printed.shown, List.append_assoc]
      rfl
    · exact scanned.levels.trans printed.levels

/-! ### The whole tree -/

/-- The parent links lead to init. -/
inductive Reaches (processes : List Process) : CStr → Prop where
  | init : Reaches processes one
  | link {process : Process} : process ∈ processes → Reaches processes process.ppid →
      Reaches processes process.pid

/-- The program ends, and shows each process that reaches init once, and no other. -/
def PrintsTree (snapshot : List (Process × Flags)) : Prop :=
  ∃ bound, ∀ fuel ≥ bound, ∃ out, main fuel snapshot = some out ∧ (pids out).Nodup ∧
    ∀ pid, pid ∈ pids out ↔ Reaches (snapshot.map Prod.fst) pid

theorem findInit_some {d : List ProcessInfo} (i : Nat) (initProcess : Option Nat)
    (present : initProcess.isSome ∨ ∃ entry ∈ d, entry.pid = one) :
    ∃ k, findInit i initProcess d = some k ∧
      (initProcess = some k ∨ ∃ j info, k = i + j ∧ d[j]? = some info ∧ info.pid = one) := by
  induction d generalizing i initProcess with
  | nil =>
    obtain ⟨k, rfl⟩ : ∃ k, initProcess = some k := by
      rcases present with known | ⟨_, member, _⟩
      · exact Option.isSome_iff_exists.mp known
      · cases member
    exact ⟨k, rfl, Or.inl rfl⟩
  | cons entry rest ih =>
    rw [findInit]
    by_cases here : strcmp entry.pid one = 0
    · rw [if_pos here]
      obtain ⟨k, call, same | ⟨j, info, index, there, pid⟩⟩ := ih (i + 1) (some i) (Or.inl rfl)
      · cases same
        exact ⟨i, call, Or.inr ⟨0, entry, rfl, rfl, strcmp_eq_zero.mp here⟩⟩
      · exact ⟨k, call, Or.inr ⟨j + 1, info, by omega, there, pid⟩⟩
    · rw [if_neg here]
      have later : initProcess.isSome ∨ ∃ entry ∈ rest, entry.pid = one := by
        refine present.imp_right ?_
        rintro ⟨other, member, pid⟩
        rcases List.mem_cons.mp member with rfl | inside
        · exact absurd (strcmp_eq_zero.mpr pid) here
        · exact ⟨other, inside, pid⟩
      obtain ⟨k, call, same | ⟨j, info, index, there, pid⟩⟩ := ih (i + 1) initProcess later
      · exact ⟨k, call, Or.inl same⟩
      · exact ⟨k, call, Or.inr ⟨j + 1, info, by omega, there, pid⟩⟩

section Main

variable {snapshot : List (Process × Flags)} {pid : CStr}

theorem scan_processes :
    (scan snapshot).map ProcessInfo.process = snapshot.map Prod.fst := by
  rw [scan, List.map_map]
  rfl

theorem main_visits (distinct : ((snapshot.map Prod.fst).map Process.pid).Nodup)
    (present : one ∈ (snapshot.map Prod.fst).map Process.pid) {fuel : Nat}
    (enough : (fresh (scan snapshot)).card < fuel) :
    ∃ out found left, main fuel snapshot = some out ∧ pids out = one :: found ∧
      Visit (Parent (snapshot.map Prod.fst)) (fresh (scan snapshot)) one found left := by
  have entry : ∃ entry ∈ scan snapshot, entry.pid = one := by
    obtain ⟨process, member, pid⟩ := List.mem_map.mp present
    rw [← scan_processes] at member
    obtain ⟨info, inside, rfl⟩ := List.mem_map.mp member
    exact ⟨info, inside, pid⟩
  obtain ⟨k, found, same | ⟨j, info, index, here, pid⟩⟩ := findInit_some 0 none (Or.inr entry)
  · cases same
  rw [Nat.zero_add] at index
  subst index
  obtain ⟨t, below, call, visited⟩ := printHierarchy_visits distinct fuel ⟨scan snapshot, [], []⟩ k 0
    true true true info enough scan_processes here (fun _ member => by cases member)
  refine ⟨t.out, below, fresh t.dirList, ?_, ?_, ?_⟩
  · rw [main, found]
    exact congrArg (Option.map State.out) call
  · rw [visited.printed, pid]
    rfl
  · rw [← pid]
    exact visited.visit

theorem reaches_below (below : Below (Parent (snapshot.map Prod.fst)) (fresh (scan snapshot)) one pid) :
    Reaches (snapshot.map Prod.fst) pid := by
  induction below with
  | single step => exact Reaches.link step.1 Reaches.init
  | tail _ step ih => exact Reaches.link step.1 ih

/-- The pids that are printed, by what is fresh below init. -/
theorem printsTree_below (distinct : ((snapshot.map Prod.fst).map Process.pid).Nodup)
    (present : one ∈ (snapshot.map Prod.fst).map Process.pid) :
    PrintsTree snapshot ↔
      ¬ Below (Parent (snapshot.map Prod.fst)) (fresh (scan snapshot)) one one ∧
      ∀ pid ≠ one, Reaches (snapshot.map Prod.fst) pid →
        Below (Parent (snapshot.map Prod.fst)) (fresh (scan snapshot)) one pid := by
  have distinct_fresh : (fresh (scan snapshot)).Nodup := by
    have pids : (scan snapshot).map ProcessInfo.pid =
        (snapshot.map Prod.fst).map Process.pid := by
      rw [← scan_processes, List.map_map]
      rfl
    rw [← pids] at distinct
    exact Multiset.coe_nodup.mpr (distinct.sublist (List.filter_sublist.map _))
  constructor
  · rintro ⟨bound, prints⟩
    obtain ⟨out, call, nodup, shown⟩ :=
      prints (bound + ((fresh (scan snapshot)).card + 1)) (Nat.le_add_right _ _)
    obtain ⟨out', found, left, call', printed, visit⟩ := main_visits distinct present
      (show (fresh (scan snapshot)).card < bound + ((fresh (scan snapshot)).card + 1) by omega)
    obtain rfl := Option.some.inj (call.symm.trans call')
    rw [printed] at nodup shown
    refine ⟨fun below => (List.nodup_cons.mp nodup).1 (visit.mem_iff.mpr below), ?_⟩
    intro pid other reaches
    exact visit.mem_iff.mp (List.mem_of_ne_of_mem other ((shown pid).mpr reaches))
  · rintro ⟨once, all⟩
    refine ⟨(fresh (scan snapshot)).card + 1, fun fuel enough => ?_⟩
    obtain ⟨out, found, left, call, printed, visit⟩ := main_visits distinct present enough
    refine ⟨out, call, ?_, fun pid => ?_⟩
    · rw [printed]
      exact List.nodup_cons.mpr ⟨once ∘ visit.mem_iff.mp, visit.nodup distinct_fresh⟩
    · rw [printed, List.mem_cons, visit.mem_iff]
      constructor
      · rintro (rfl | below)
        · exact Reaches.init
        · exact reaches_below below
      · intro reaches
        by_cases top : pid = one
        · exact Or.inl top
        · exact Or.inr (all pid top reaches)

theorem fresh_scan : pid ∈ fresh (scan snapshot) ↔
    ∃ element ∈ snapshot, element.2.taken = false ∧ element.1.pid = pid := by
  rw [mem_fresh]
  constructor
  · rintro ⟨_, member, free, same⟩
    obtain ⟨element, inside, rfl⟩ := List.mem_map.mp member
    exact ⟨element, inside, free, same⟩
  · rintro ⟨element, member, free, same⟩
    exact ⟨_, List.mem_map_of_mem member, free, same⟩

/-- The element that a pid belongs to. -/
theorem element_unique (distinct : ((snapshot.map Prod.fst).map Process.pid).Nodup)
    {first second : Process × Flags} (one_in : first ∈ snapshot) (other_in : second ∈ snapshot)
    (same : first.1.pid = second.1.pid) : first = second := by
  rw [List.map_map] at distinct
  exact List.inj_on_of_nodup_map distinct one_in other_in same

/-- No process but init has the flag `taken` from the start, and init has it if its parent is shown. -/
theorem printsTree_iff (snapshot : List (Process × Flags))
    (distinct : ((snapshot.map Prod.fst).map Process.pid).Nodup)
    (present : one ∈ (snapshot.map Prod.fst).map Process.pid) :
    PrintsTree snapshot ↔
      (∀ element ∈ snapshot, element.1.pid ≠ one →
        Reaches (snapshot.map Prod.fst) element.1.pid → element.2.taken = false) ∧
      ∀ element ∈ snapshot, element.1.pid = one →
        Reaches (snapshot.map Prod.fst) element.1.ppid → element.2.taken = true := by
  rw [printsTree_below distinct present]
  constructor
  · rintro ⟨once, all⟩
    constructor
    · intro element member other reaches
      obtain ⟨found, inside, free, same⟩ := fresh_scan.mp (below_fresh (all _ other reaches))
      exact element_unique distinct inside member same ▸ free
    · intro element member top reaches
      by_contra free
      have link : Parent (snapshot.map Prod.fst) element.1.ppid one ∧ one ∈ fresh (scan snapshot) := by
        rw [← top]
        exact ⟨List.mem_map_of_mem member,
          fresh_scan.mpr ⟨element, member, Bool.not_eq_true _ ▸ free, rfl⟩⟩
      by_cases self : element.1.ppid = one
      · exact once (Relation.TransGen.single (self ▸ link))
      · exact once (Relation.TransGen.tail (all _ self reaches) link)
  · rintro ⟨shown, marked⟩
    constructor
    · intro below
      obtain ⟨ppid, above, link, free⟩ := Relation.TransGen.tail'_iff.mp below
      obtain ⟨element, member, unmarked, top⟩ := fresh_scan.mp free
      obtain ⟨other, inside, same⟩ := List.mem_map.mp link
      obtain rfl := element_unique distinct inside member ((congrArg Process.pid same).trans top.symm)
      have reaches : Reaches (snapshot.map Prod.fst) other.1.ppid := by
        rw [congrArg Process.ppid same]
        rcases Relation.reflTransGen_iff_eq_or_transGen.mp above with rfl | further
        · exact Reaches.init
        · exact reaches_below further
      rw [marked other inside top reaches] at unmarked
      cases unmarked
    · intro pid other reaches
      induction reaches with
      | init => exact absurd rfl other
      | @link process member above ih =>
        obtain ⟨element, inside, rfl⟩ := List.mem_map.mp member
        have link : Parent (snapshot.map Prod.fst) element.1.ppid element.1.pid ∧
            element.1.pid ∈ fresh (scan snapshot) :=
          ⟨member, fresh_scan.mpr
            ⟨element, inside, shown element inside other (Reaches.link member above), rfl⟩⟩
        by_cases top : element.1.ppid = one
        · exact Relation.TransGen.single (top ▸ link)
        · exact Relation.TransGen.tail (ih top) link

theorem reaches_known {processes : List Process} (reaches : Reaches processes pid) :
    pid = one ∨ ∃ process ∈ processes, process.pid = pid := by
  cases reaches with
  | init => exact Or.inl rfl
  | link member _ => exact Or.inr ⟨_, member, rfl⟩

/-- `0` is not a process, and its child init has one child, `2`. -/
theorem printsTree_two : PrintsTree
    [(⟨⟨[50], by decide⟩, one⟩, ⟨false, true⟩), (⟨one, ⟨[48], by decide⟩⟩, ⟨false, false⟩)] := by
  refine (printsTree_iff _ (by decide) (by decide)).mpr ⟨by simp, ?_⟩
  intro element member top reaches
  rcases List.mem_cons.mp member with rfl | last
  · exact absurd top (by decide)
  · obtain rfl := List.mem_singleton.mp last
    rcases reaches_known reaches with same | known
    · exact absurd same (by decide)
    · exact absurd known (by decide)

/-- The element of the process `2` has the flag `taken` from the memory that it was given. -/
theorem child_hidden : ¬ ∀ snapshot : List (Process × Flags),
    ((snapshot.map Prod.fst).map Process.pid).Nodup →
    one ∈ (snapshot.map Prod.fst).map Process.pid → PrintsTree snapshot := by
  intro all
  let two : CStr := ⟨[50], by decide⟩
  let snapshot : List (Process × Flags) :=
    [(⟨one, ⟨[48], by decide⟩⟩, ⟨false, false⟩), (⟨two, one⟩, ⟨true, false⟩)]
  obtain ⟨_, shown⟩ := (printsTree_below (by decide) (by decide)).mp
    (all snapshot (by decide) (by decide))
  have reaches : Reaches (snapshot.map Prod.fst) two :=
    @Reaches.link _ ⟨two, one⟩ (by decide) Reaches.init
  obtain ⟨element, member, free, same⟩ := fresh_scan.mp (below_fresh (shown two (by decide) reaches))
  rcases List.mem_cons.mp member with rfl | last
  · exact absurd same (by decide)
  · obtain rfl := List.mem_singleton.mp last
    cases free

end Main

end Tlpi.ProcTree
