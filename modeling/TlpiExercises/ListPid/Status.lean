import TlpiExercises.GetLine.Agreement
import TlpiExercises.ListPid.Fields

/-!
# The loop over a status file

The loop has no way out at the end of the file: `getline_clone` returns the empty string there, like
for an empty line, and the next round reads the same again.
-/

namespace Tlpi.ListPid

open Fields GetLine Loop

/-- A line of this length needs a block that no allocator has, and `getline_clone` returns NULL. -/
def LINE_LIMIT : Nat := 2 ^ 62 - 1

/-- The line has one of the three fields. -/
def counted (line : CStr) : Bool :=
  match getField line with
  | .ok field => field = UID || field = NAME || field = PID
  | .error _ => false

/-- The line takes one of the functions out of its buffer or behind the NUL. -/
def faulty (line : CStr) : Bool :=
  match getField line, getValue line with
  | .error _, _ => true
  | .ok _, .error _ => counted line
  | .ok _, .ok _ => false

/-- The line gives another user, or none. -/
def foreign (uid : UInt32) (line : CStr) : Bool :=
  match getField line, getValue line with
  | .ok field, .ok value =>
    field = UID && !((strtol value.bytes).rest = [] && uid = UInt32.ofInt (strtol value.bytes).value)
  | _, _ => false

/-- The loop leaves the file at this line. -/
def stops (uid : UInt32) (body : List UInt8) : Bool :=
  LINE_LIMIT ≤ body.length || foreign uid (.ofBytes body)

def breaks (body : List UInt8) : Bool := body.length < LINE_LIMIT && faulty (.ofBytes body)

/-- The lines that the loop can read safely. -/
def readable (lines : List (List UInt8)) : List (List UInt8) := lines.takeWhile (fun body => !breaks body)

/-- The lines end the loop that has `n` of its fields. -/
def Ends (uid : UInt32) (n : Nat) (lines : List (List UInt8)) : Prop :=
  (∃ body ∈ readable lines, stops uid body = true) ∨
    3 ≤ n + (readable lines).countP (fun body => counted (.ofBytes body))

/-- A `return`, a `break` or an `errExit`. -/
def Proper (outcome : Outcome) : Prop := ∀ fault, outcome ≠ .fault fault

/-- The loop comes to an end, whatever the allocator does. -/
def Terminates (uid : UInt32) (content : List UInt8) : Prop :=
  ∀ (alloc : Nat → Allocator) (info : ProcessInfo), ∃ fuel outcome,
    getProcessInfo alloc uid content info fuel = some outcome ∧ Proper outcome

/-! ### One line -/

theorem getValue_short {line value : CStr} (call : getValue line = .ok value) :
    value.length < STATIC_SIZE := by
  rw [getValue_eq] at call
  split at call
  · rename_i inside
    cases call
    exact ((List.takeWhile_sublist _).length_le).trans_lt inside.2
  · cases call

/-- A value fits behind either place of the structure. -/
theorem copy_fits (info : ProcessInfo) {offset : Nat} {text : CStr} (low : offset ≤ MAX_PID)
    (short : text.length < STATIC_SIZE) : ∃ info', info.copy offset text = .ok info' := by
  have room : offset + (text.bytes ++ [0]).length ≤ info.1.length := by
    have length : text.bytes.length < STATIC_SIZE := short
    rw [info.2, List.length_append, List.length_singleton]
    unfold MAX_PID MAX_COMM_NAME STATIC_SIZE at *
    omega
  obtain ⟨bytes, written⟩ := Buffer.write_fits room
  unfold ProcessInfo.copy
  split
  · exact ⟨_, rfl⟩
  · rename_i full
    rw [written] at full
    cases full

theorem collectText_ok {offset : Nat} {line value : CStr} (s : Scan) (low : offset ≤ MAX_PID)
    (call : getValue line = .ok value) :
    ∃ info, collectText offset line s = .ok { s with info := info, collected := s.collected + 1 } := by
  obtain ⟨info, copied⟩ := copy_fits s.info low (getValue_short call)
  refine ⟨info, ?_⟩
  unfold collectText
  rw [call]
  dsimp only
  rw [copied]

/-- What a line does to the loop. -/
inductive Effect (uid : UInt32) (line : CStr) (s : Scan) : Prop where
  | fault (fault : Fault) (yes : faulty line = true)
      (result : collect uid line s = .error (.fault fault))
  | stop (outcome : Outcome) (safe : faulty line = false) (yes : foreign uid line = true)
      (result : collect uid line s = .error outcome) (proper : Proper outcome)
  | count (info : ProcessInfo) (safe : faulty line = false) (own : foreign uid line = false)
      (yes : counted line = true)
      (result : collect uid line s = .ok { s with info := info, collected := s.collected + 1 })
  | skip (safe : faulty line = false) (own : foreign uid line = false) (no : counted line = false)
      (result : collect uid line s = .ok s)

section Effects

variable {uid : UInt32} {line field : CStr} {s : Scan}

theorem effect_uid (named : getField line = .ok UID) (result : collect uid line s = collectUid uid line s) :
    Effect uid line s := by
  have yes : counted line = true := by simp [counted, named]
  cases found : getValue line with
  | error fault =>
    refine .fault fault (by simp [faulty, named, found, yes]) ?_
    rw [result, collectUid, found]
  | ok value =>
    have safe : faulty line = false := by simp [faulty, named, found]
    rw [collectUid, found] at result
    dsimp only at result
    by_cases number : (strtol value.bytes).rest = []
    · rw [if_neg (not_not.mpr number)] at result
      by_cases same : uid = UInt32.ofInt (strtol value.bytes).value
      · rw [if_neg (not_not.mpr same)] at result
        refine .count s.info safe ?_ yes result
        simp only [foreign, named, found]
        simp [number, ← same]
      · rw [if_pos same] at result
        refine .stop _ safe ?_ result fun fault => Outcome.noConfusion
        simp only [foreign, named, found]
        simp [same]
    · rw [if_pos number] at result
      refine .stop _ safe ?_ result fun fault => Outcome.noConfusion
      simp only [foreign, named, found]
      simp [number]

theorem effect_text {offset : Nat} (named : getField line = .ok field) (other : field ≠ UID)
    (yes : counted line = true) (low : offset ≤ MAX_PID)
    (result : collect uid line s = collectText offset line s) : Effect uid line s := by
  cases found : getValue line with
  | error fault =>
    refine .fault fault (by simp [faulty, named, found, yes]) ?_
    rw [result, collectText, found]
  | ok value =>
    obtain ⟨info, copied⟩ := collectText_ok s low found
    refine .count info (by simp [faulty, named, found]) ?_ yes (result.trans copied)
    simp [foreign, named, found, other]

end Effects

theorem collect_effect (uid : UInt32) (line : CStr) (s : Scan) : Effect uid line s := by
  cases named : getField line with
  | error fault =>
    refine .fault fault (by simp [faulty, named]) ?_
    rw [collect, named]
  | ok field =>
    have branches : collect uid line s =
        if field = UID then collectUid uid line s
        else if field = NAME then collectText MAX_PID line s
        else if field = PID then collectText 0 line s else .ok s := by
      simp only [collect, named, strcmp_eq_zero]
    by_cases isUid : field = UID
    · rw [if_pos isUid] at branches
      exact effect_uid (isUid ▸ named) branches
    · rw [if_neg isUid] at branches
      by_cases isName : field = NAME
      · rw [if_pos isName] at branches
        exact effect_text named isUid (by simp [counted, named, isName]) (Nat.le_refl _) branches
      · rw [if_neg isName] at branches
        by_cases isPid : field = PID
        · rw [if_pos isPid] at branches
          exact effect_text named isUid (by simp [counted, named, isPid]) (Nat.zero_le _) branches
        · rw [if_neg isPid] at branches
          have no : counted line = false := by simp [counted, named, isUid, isName, isPid]
          refine .skip ?_ ?_ no branches
          · cases found : getValue line with
            | error fault => simp [faulty, named, found, no]
            | ok value => simp [faulty, named, found]
          · cases found : getValue line with
            | error fault => simp [foreign, named, found]
            | ok value => simp [foreign, named, found, isUid]

/-! ### The lines of the file -/

/-- The line at a place of the file, what goes on behind it, and the bytes that reading it consumes. -/
def lineAt (content : List UInt8) (position : Nat) : List UInt8 :=
  before NEWLINE (content.drop position)

def restAt (content : List UInt8) (position : Nat) : List UInt8 :=
  after NEWLINE (content.drop position)

def consumedAt (content : List UInt8) (position : Nat) : Nat :=
  (lineAt content position).length + if restAt content position = [] then 0 else 1

def linesFrom (content : List UInt8) (position : Nat) : List (List UInt8) :=
  (content.drop position).splitOn NEWLINE

section Lines

variable (content : List UInt8) (position : Nat)

theorem line_append_rest : lineAt content position ++ restAt content position = content.drop position :=
  before_append_after _

theorem read_fileAt (k : Nat) :
    (fileAt content position).read k = ((content.drop position)[k]?).elim .eof .byte := by
  unfold Input.read fileAt
  rw [List.getElem?_drop, if_neg Bool.false_ne_true]
  dsimp only
  cases content[position + k]? with
  | none => rfl
  | some c => rfl

theorem read_behind :
    (fileAt content position).read (lineAt content position).length =
      (restAt content position).head?.elim .eof .byte := by
  rw [read_fileAt, ← line_append_rest, List.getElem?_append_right (Nat.le_refl _), Nat.sub_self,
    List.head?_eq_getElem?]

theorem isLine_lineAt : IsLine (fileAt content position) (lineAt content position) := by
  refine ⟨fun k inside => ?_, before_free _, fun c read => ?_⟩
  · rw [read_fileAt, ← line_append_rest, List.getElem?_append_left inside,
      List.getElem?_eq_getElem inside]
    rfl
  · rw [read_behind] at read
    cases rest : restAt content position with
    | nil =>
      rw [rest] at read
      cases read
    | cons d tail =>
      rw [rest] at read
      cases read
      exact after_head rest

theorem textResult_lineAt :
    textResult (fileAt content position) (lineAt content position) =
      ⟨some ((lineAt content position).takeWhile (· ≠ 0)), consumedAt content position⟩ := by
  unfold textResult lineResult consumedAt
  rw [read_behind]
  cases restAt content position with
  | nil => rfl
  | cons d tail => rfl

theorem drop_consumed :
    content.drop (position + consumedAt content position) = (restAt content position).tail := by
  rw [← List.drop_drop, consumedAt]
  have whole : (lineAt content position ++ restAt content position).drop
      (lineAt content position).length = restAt content position := List.drop_left
  rw [line_append_rest] at whole
  by_cases last : restAt content position = []
  · rw [if_pos last, Nat.add_zero, whole, last]
    rfl
  · rw [if_neg last, ← List.tail_drop, whole]

/-- Behind the last line there is an empty one. -/
theorem linesFrom_step :
    linesFrom content position =
        lineAt content position :: linesFrom content (position + consumedAt content position) ∨
      linesFrom content position = [lineAt content position] ∧
        linesFrom content (position + consumedAt content position) = [[]] := by
  have parts := line_append_rest content position
  have later := drop_consumed content position
  have free : NEWLINE ∉ lineAt content position := before_free _
  unfold linesFrom
  rw [later]
  cases rest : restAt content position with
  | nil =>
    rw [rest, List.append_nil] at parts
    rw [← parts, List.splitOn_eq_singleton free]
    exact Or.inr ⟨rfl, List.splitOn_nil _⟩
  | cons d tail =>
    obtain rfl : d = NEWLINE := after_head rest
    rw [rest] at parts
    rw [← parts, List.splitOn_append_cons_self_of_not_mem free]
    exact Or.inl rfl

end Lines

/-! ### What ends the loop -/

section Ends

variable {uid : UInt32} {n : Nat} {body : List UInt8} {lines : List (List UInt8)}

theorem counted_of_foreign {line : CStr} (yes : foreign uid line = true) : counted line = true := by
  unfold foreign at yes
  split at yes
  · rename_i field value named _
    rw [Bool.and_eq_true, decide_eq_true_eq] at yes
    simp [counted, named, yes.1]
  · cases yes

theorem blank_line (uid : UInt32) :
    breaks [] = false ∧ stops uid [] = false ∧ counted (.ofBytes []) = false := by
  have no : counted (.ofBytes []) = false := by decide
  have own : foreign uid (.ofBytes []) = false := by
    apply Bool.eq_false_iff.mpr
    intro yes
    rw [counted_of_foreign yes] at no
    cases no
  exact ⟨by decide, by simp [stops, own, LINE_LIMIT], no⟩

theorem ends_breaks (breaking : breaks body = true) : Ends uid n (body :: lines) ↔ 3 ≤ n := by
  have nothing : readable (body :: lines) = [] := List.takeWhile_cons_of_neg (by simpa using breaking)
  simp [Ends, nothing]

theorem readable_cons (safe : breaks body = false) :
    readable (body :: lines) = body :: readable lines :=
  List.takeWhile_cons_of_pos (by simpa using safe)

theorem ends_stops (safe : breaks body = false) (stop : stops uid body = true) :
    Ends uid n (body :: lines) := by
  refine Or.inl ⟨body, ?_, stop⟩
  rw [readable_cons safe]
  exact List.mem_cons_self

theorem ends_counts (safe : breaks body = false) (own : stops uid body = false)
    (yes : counted (.ofBytes body) = true) : Ends uid n (body :: lines) ↔ Ends uid (n + 1) lines := by
  simp only [Ends, readable_cons safe, List.mem_cons, exists_eq_or_imp, List.countP_cons, own, yes,
    Bool.false_eq_true, false_or, if_true, Nat.add_assoc, Nat.add_comm]

theorem ends_skips (safe : breaks body = false) (own : stops uid body = false)
    (no : counted (.ofBytes body) = false) : Ends uid n (body :: lines) ↔ Ends uid n lines := by
  simp only [Ends, readable_cons safe, List.mem_cons, exists_eq_or_imp, List.countP_cons, own, no,
    Bool.false_eq_true, false_or, if_false, Nat.add_zero]

theorem ends_congr {lines' : List (List UInt8)} (same : ∀ m, Ends uid m lines ↔ Ends uid m lines') :
    Ends uid n (body :: lines) ↔ Ends uid n (body :: lines') := by
  cases breaking : breaks body with
  | true => rw [ends_breaks breaking, ends_breaks breaking]
  | false =>
    cases stop : stops uid body with
    | true => exact iff_of_true (ends_stops breaking stop) (ends_stops breaking stop)
    | false =>
      cases yes : counted (.ofBytes body) with
      | true => rw [ends_counts breaking stop yes, ends_counts breaking stop yes, same]
      | false => rw [ends_skips breaking stop yes, ends_skips breaking stop yes, same]

/-- The empty line at the end of the file changes nothing. -/
theorem ends_step (content : List UInt8) (position : Nat) :
    Ends uid n (linesFrom content position) ↔
      Ends uid n (lineAt content position :: linesFrom content (position + consumedAt content position)) := by
  rcases linesFrom_step content position with more | ⟨last, blank⟩
  · rw [more]
  · obtain ⟨safe, own, no⟩ := blank_line uid
    rw [last, blank]
    exact ends_congr fun m => (ends_skips safe own no).symm

end Ends

/-! ### One round -/

section Round

variable {alloc : Nat → Allocator} {uid : UInt32} {content : List UInt8} {s : Scan} {fuel : Nat}

/-- The state behind the line at its place. -/
def Scan.behind (s : Scan) (content : List UInt8) : Scan :=
  { s with position := s.position + consumedAt content s.position, round := s.round + 1 }

theorem readStatus_null {consumed : Nat}
    (call : getlineClone (alloc s.round) (fileAt content s.position) fuel = some (.ok ⟨none, consumed⟩)) :
    readStatus alloc uid content fuel s = .error (some .exited) := by
  rw [readStatus, call]

theorem readStatus_line (uid : UInt32)
    (call : getlineClone (alloc s.round) (fileAt content s.position) fuel =
      some (.ok (textResult (fileAt content s.position) (lineAt content s.position)))) :
    readStatus alloc uid content fuel s =
      finishRound (collect uid (.ofBytes (lineAt content s.position)) (s.behind content)) := by
  have text : CStr.ofBytes ((lineAt content s.position).takeWhile (· ≠ 0)) =
      .ofBytes (lineAt content s.position) := by
    apply CStr.ext
    exact List.takeWhile_idem
  rw [readStatus, call, textResult_lineAt]
  dsimp only
  rw [text]
  rfl

/-- A line that is read ends the loop in undefined behaviour or properly, or hands the question on to
the lines behind it. -/
theorem round_effect (uid : UInt32) (missing : s.collected < 3)
    (short : (lineAt content s.position).length < LINE_LIMIT) :
    (∃ fault, finishRound (collect uid (.ofBytes (lineAt content s.position)) (s.behind content)) =
        .error (some (.fault fault)) ∧ ¬ Ends uid s.collected (linesFrom content s.position)) ∨
    (∃ outcome, finishRound (collect uid (.ofBytes (lineAt content s.position)) (s.behind content)) =
        .error (some outcome) ∧ Proper outcome ∧
        Ends uid s.collected (linesFrom content s.position)) ∨
    ∃ t, finishRound (collect uid (.ofBytes (lineAt content s.position)) (s.behind content)) = .ok t ∧
      t.position = (s.behind content).position ∧ t.collected < 3 ∧
      (Ends uid s.collected (linesFrom content s.position) ↔
        Ends uid t.collected (linesFrom content t.position)) := by
  have breaking : breaks (lineAt content s.position) = faulty (.ofBytes (lineAt content s.position)) := by
    simp [breaks, short]
  have stopping : stops uid (lineAt content s.position) =
      foreign uid (.ofBytes (lineAt content s.position)) := by
    simp [stops, Nat.not_le.mpr short]
  rw [ends_step]
  rcases collect_effect uid (.ofBytes (lineAt content s.position)) (s.behind content) with
    ⟨fault, yes, result⟩ | ⟨outcome, safe, yes, result, proper⟩ |
    ⟨info, safe, own, yes, result⟩ | ⟨safe, own, no, result⟩
  · refine Or.inl ⟨fault, by rw [result, finishRound], ?_⟩
    rw [ends_breaks (breaking.trans yes)]
    omega
  · exact Or.inr (Or.inl ⟨outcome, by rw [result, finishRound], proper,
      ends_stops (breaking.trans safe) (stopping.trans yes)⟩)
  · rw [ends_counts (breaking.trans safe) (stopping.trans own) yes, result]
    by_cases third : s.collected + 1 = 3
    · exact Or.inr (Or.inl ⟨.returned 0, if_pos third, fun fault => Outcome.noConfusion,
        Or.inr (third.symm.le.trans (Nat.le_add_right _ _))⟩)
    · exact Or.inr (Or.inr ⟨_, if_neg third, rfl, by show s.collected + 1 < 3; omega, Iff.rfl⟩)
  · have more : ¬ s.collected = 3 := by omega
    rw [ends_skips (breaking.trans safe) (stopping.trans own) no, result]
    exact Or.inr (Or.inr ⟨_, if_neg more, rfl, missing, Iff.rfl⟩)

/-- A round gets the file on, unless it is at its end. -/
theorem behind_shorter (more : content.drop s.position ≠ []) :
    (content.drop (s.behind content).position).length < (content.drop s.position).length := by
  have total := congrArg List.length (line_append_rest content s.position)
  rw [List.length_append] at total
  have positive := List.length_pos_iff.mpr more
  rw [Scan.behind, drop_consumed, List.length_tail]
  omega

theorem more_of_ends (missing : s.collected < 3)
    (ends : Ends uid s.collected (linesFrom content s.position)) : content.drop s.position ≠ [] := by
  intro done
  obtain ⟨safe, own, no⟩ := blank_line uid
  rw [linesFrom, done, List.splitOn_nil, ends_skips safe own no] at ends
  rcases ends with ⟨body, member, _⟩ | enough
  · cases member
  · rw [readable, List.takeWhile_nil, List.countP_nil] at enough
    omega

end Round

/-! ### The whole loop -/

/-- Lines that end the loop do so whatever the allocator does. -/
theorem status_ends (alloc : Nat → Allocator) {uid : UInt32} {content : List UInt8} {s : Scan}
    (missing : s.collected < 3) (ends : Ends uid s.collected (linesFrom content s.position)) :
    ∃ enough rounds outcome, Proper outcome ∧ ∀ fuel, enough ≤ fuel →
      loop (readStatus alloc uid content fuel) rounds s = some (some outcome) := by
  induction left : (content.drop s.position).length using Nat.strongRecOn generalizing s with
  | _ k ih =>
    subst left
    have shorter := behind_shorter (more_of_ends missing ends)
    obtain ⟨enough, returned, call, result⟩ :=
      getlineClone_returns (alloc s.round) (isLine_lineAt content s.position)
    rcases result with null | ⟨short, rfl⟩
    · obtain ⟨string, consumed⟩ := returned
      obtain rfl : string = none := null
      exact ⟨enough, 1, .exited, fun fault => Outcome.noConfusion, fun fuel more =>
        loop_error (readStatus_null (getlineClone_more call more))⟩
    · have round (fuel : Nat) (more : enough ≤ fuel) :=
        readStatus_line uid (getlineClone_more call more)
      rcases round_effect uid missing short with
        ⟨fault, _, never⟩ | ⟨outcome, result, proper, _⟩ | ⟨t, result, place, missing', same⟩
      · exact absurd ends never
      · exact ⟨enough, 1, outcome, proper, fun fuel more =>
          loop_error ((round fuel more).trans result)⟩
      · obtain ⟨enough', rounds, outcome, proper, later⟩ :=
          ih _ (place ▸ shorter) missing' (same.mp ends) rfl
        refine ⟨max enough enough', rounds + 1, outcome, proper, fun fuel more => ?_⟩
        exact loop_ok ((round fuel (le_of_max_le_left more)).trans result)
          (later fuel (le_of_max_le_right more))

/-- A loop that ends properly, where no allocation fails, has had lines that end it. -/
theorem ends_of_loop {alloc : Nat → Allocator} (grants : ∀ n, Grants (alloc n)) {uid : UInt32}
    {content : List UInt8} {fuel rounds : Nat} {s : Scan} {outcome : Outcome} (missing : s.collected < 3)
    (proper : Proper outcome)
    (ended : loop (readStatus alloc uid content fuel) rounds s = some (some outcome)) :
    Ends uid s.collected (linesFrom content s.position) := by
  induction rounds generalizing s with
  | zero => cases ended
  | succ rounds ih =>
    by_cases short : (lineAt content s.position).length < LINE_LIMIT
    · obtain ⟨enough, text⟩ :=
        getlineClone_text (grants s.round) (isLine_lineAt content s.position) short
      rw [loop] at ended
      cases call : getlineClone (alloc s.round) (fileAt content s.position) fuel with
      | none =>
        rw [readStatus, call] at ended
        cases ended
      | some returned =>
        rw [getlineClone_unique call text] at call
        rw [readStatus_line uid call] at ended
        rcases round_effect uid missing short with
          ⟨fault, result, _⟩ | ⟨_, _, _, ends⟩ | ⟨t, result, _, missing', same⟩
        · rw [result] at ended
          cases ended
          exact absurd rfl (proper fault)
        · exact ends
        · rw [result] at ended
          exact same.mpr (ih missing' ended)
    · rw [ends_step]
      apply ends_stops
      · simp [breaks, short]
      · simp [stops, Nat.not_lt.mp short]

theorem ends_content (uid : UInt32) (content : List UInt8) :
    Ends uid 0 (linesFrom content 0) ↔
      (∃ body ∈ readable (content.splitOn NEWLINE), stops uid body = true) ∨
        3 ≤ (readable (content.splitOn NEWLINE)).countP (fun body => counted (.ofBytes body)) := by
  rw [Ends, linesFrom, List.drop_zero, Nat.zero_add]

def noInfo : ProcessInfo := ⟨List.replicate 96 0, List.length_replicate⟩

theorem ends_of_terminates {uid : UInt32} {content : List UInt8} (terminates : Terminates uid content) :
    Ends uid 0 (linesFrom content 0) := by
  obtain ⟨fuel, outcome, ended, proper⟩ := terminates (fun _ => granting) noInfo
  exact ends_of_loop (s := ⟨0, 0, noInfo, 0⟩) (fun _ _ => rfl) (by decide) proper
    (Option.join_eq_some_iff.mp ended)

theorem terminates_of_ends {uid : UInt32} {content : List UInt8}
    (ends : Ends uid 0 (linesFrom content 0)) : Terminates uid content := by
  intro alloc info
  obtain ⟨enough, rounds, outcome, proper, later⟩ :=
    status_ends alloc (s := ⟨0, 0, info, 0⟩) (by decide : 0 < 3) ends
  refine ⟨rounds + enough, outcome, ?_, proper⟩
  have all : loop (readStatus alloc uid content (rounds + enough)) (rounds + enough) ⟨0, 0, info, 0⟩ =
      some (some outcome) := loop_more (later _ (Nat.le_add_left _ _))
  rw [getProcessInfo, all]
  rfl

/-- The loop terminates exactly for the files that, before any line that breaks the buffers, have
three of its fields or a line at which it leaves. -/
theorem terminates_iff (uid : UInt32) (content : List UInt8) :
    Terminates uid content ↔
      (∃ body ∈ readable (content.splitOn NEWLINE), stops uid body = true) ∨
        3 ≤ (readable (content.splitOn NEWLINE)).countP (fun body => counted (.ofBytes body)) :=
  ⟨fun terminates => (ends_content uid content).mp (ends_of_terminates terminates),
    fun ends => terminates_of_ends ((ends_content uid content).mpr ends)⟩

/-- The empty file. -/
theorem empty_file_fails : ¬ ∀ (uid : UInt32) (content : List UInt8), Terminates uid content := by
  intro all
  exact more_of_ends (s := ⟨0, 0, noInfo, 0⟩) (by decide : 0 < 3) (ends_of_terminates (all 0 [])) rfl

end Tlpi.ListPid
