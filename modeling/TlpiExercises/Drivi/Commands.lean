import TlpiExercises.Drivi.Model
import TlpiExercises.Library.Fields

/-!
# The commands that the editor gets

The script reader keeps the lines that are not blank, and the translation of a line writes what
the line denotes. `last` and `first` are written without the newline.
-/

namespace Tlpi.Drivi

open Fields

/-! ### What a script denotes -/

inductive Command where
  | last
  | first
  | delete (n : Bytes)
  | goto (n : Bytes)
  | edit (file : Bytes)
  deriving DecidableEq

def Command.text : Command → Bytes
  | .last => [36]
  | .first => [49]
  | .delete n => n ++ [100]
  | .goto n => n
  | .edit file => [101, SPACE] ++ file

def command (token1 token2 : Bytes) : Option Command :=
  if token1 = LAST then some .last
  else if token1 = FIRST then some .first
  else if token1 = DELETE then some (.delete token2)
  else if token1 = GOTO then some (.goto token2)
  else if token1 = EDIT then some (.edit token2)
  else none

def denotes (line : Bytes) : Option Command :=
  match fields SPACE line with
  | [token1, token2] => command token1 token2
  | _ => none

/-- A NUL is not part of the text. -/
def textOf (bytes : List UInt8) : Bytes := bytes.filter (· ≠ 0)

/-- The lines that are not blank. -/
def scriptLines (script : List UInt8) : List Bytes := (fields NEWLINE script).map textOf

/-- The editor gets a line for each command. -/
def Faithful (script out : List UInt8) : Prop :=
  ∃ cmds : List Command, (scriptLines script).map denotes = cmds.map some ∧
    out = cmds.flatMap (fun cmd => cmd.text ++ [NEWLINE]) ++ SAVE_AND_QUIT

/-! ### The script reader -/

theorem strcat_short {dest src : Bytes} (short : dest.length + src.length < BUF_SIZE) :
    strcat dest src = .ok (dest ++ src) := if_pos short

theorem charText_eq (c : UInt8) : charText c = textOf [c] := by
  unfold charText textOf
  by_cases nul : c = 0
  · rw [if_pos nul, List.filter_cons_of_neg (by simpa using nul)]
    rfl
  · rw [if_neg nul, List.filter_cons_of_pos (by simpa using nul)]
    rfl

theorem charText_length (c : UInt8) : (charText c).length ≤ 1 := by
  unfold charText
  split
  · exact Nat.zero_le 1
  · exact Nat.le_refl 1

theorem textOf_cons (c : UInt8) (bytes : List UInt8) : textOf (c :: bytes) = charText c ++ textOf bytes := by
  rw [charText_eq]
  exact List.filter_append [c] bytes

/-- Both loops, by induction on the file. -/
theorem read_short (file : List UInt8) :
    (∀ lines, (∀ line ∈ fields NEWLINE file, line.length < BUF_SIZE) →
      readLines lines file = .ok (lines ++ scriptLines file)) ∧
    ∀ lines line, line.length + (before NEWLINE file).length < BUF_SIZE →
      (∀ line ∈ fields NEWLINE (after NEWLINE file), line.length < BUF_SIZE) →
      readLine lines line file =
        .ok (lines ++ (line ++ textOf (before NEWLINE file)) :: scriptLines (after NEWLINE file)) := by
  unfold scriptLines
  induction file with
  | nil =>
    refine ⟨fun lines _ => ?_, fun lines line _ _ => ?_⟩
    · rw [readLines, fields_nil, List.map_nil, List.append_nil]
    · rw [readLine]
      exact congrArg (fun line => Except.ok (lines ++ [line])) (List.append_nil line).symm
  | cons c file ih =>
    obtain ⟨outer, inner⟩ := ih
    refine ⟨fun lines short => ?_, fun lines line fits short => ?_⟩
    · rw [readLines]
      by_cases newline : c = NEWLINE
      · rw [if_pos newline, newline, fields_sep]
        rw [newline, fields_sep] at short
        exact outer lines short
      · rw [fields_cons newline] at short
        obtain ⟨own, others⟩ := List.forall_mem_cons.mp short
        rw [List.length_cons] at own
        have one := charText_length c
        rw [if_neg newline, strcat_short (by rw [List.length_nil]; omega), List.nil_append]
        dsimp only
        rw [inner lines (charText c) (by omega) others, fields_cons newline, List.map_cons, textOf_cons]
    · rw [readLine]
      by_cases newline : c = NEWLINE
      · rw [newline, after_sep, fields_sep] at short
        rw [if_pos newline, outer (lines ++ [line]) short, newline, before_sep, after_sep, fields_sep,
          List.append_assoc]
        exact congrArg (fun line => Except.ok (lines ++ line :: _)) (List.append_nil line).symm
      · rw [before_cons newline, List.length_cons] at fits
        rw [after_cons newline] at short
        have one := charText_length c
        rw [if_neg newline, strcat_short (by omega)]
        dsimp only
        rw [inner lines (line ++ charText c) (by rw [List.length_append]; omega) short,
          before_cons newline, after_cons newline, textOf_cons, List.append_assoc]

/-! ### strtok -/

theorem strtok_space (s : Bytes) : strtok [SPACE] s =
    if s.dropWhile (· = SPACE) = [] then (none, [])
    else (some (before SPACE (s.dropWhile (· = SPACE))), (after SPACE (s.dropWhile (· = SPACE))).tail) := by
  have space : (fun c => decide (c ∈ [SPACE])) = fun c => decide (c = SPACE) := by
    funext c
    simp
  have other : (fun c => decide (c ∉ [SPACE])) = fun c => decide (c ≠ SPACE) := by
    funext c
    simp
  unfold strtok before after
  rw [space, other]
  cases s.dropWhile (· = SPACE) with
  | nil => exact (if_pos rfl).symm
  | cons c u => exact (if_neg (List.cons_ne_nil c u)).symm

theorem strtok_some {s token rest : Bytes} (h : strtok [SPACE] s = (some token, rest)) :
    fields SPACE s = token :: fields SPACE rest ∧ token.length + rest.length ≤ s.length := by
  rw [strtok_space] at h
  rw [← fields_dropWhile s]
  have shorter : (s.dropWhile (· = SPACE)).length ≤ s.length := List.length_dropWhile_le ..
  cases left : s.dropWhile (· = SPACE) with
  | nil =>
    rw [left, if_pos rfl] at h
    cases h
  | cons c u =>
    rw [left] at shorter
    rw [left, if_neg (List.cons_ne_nil c u)] at h
    obtain ⟨same, rfl⟩ := Prod.mk.inj h
    obtain rfl := Option.some.inj same
    have other : c ≠ SPACE := by
      have stop := List.head?_dropWhile_not (· = SPACE) s
      rw [left] at stop
      exact of_decide_eq_false stop
    refine ⟨?_, ?_⟩
    · rw [fields_cons other, fields_tail, after_cons other, before_cons other]
    · have whole : before SPACE (c :: u) ++ after SPACE (c :: u) = c :: u := before_append_after _
      have parts := congrArg List.length whole
      rw [List.length_append] at parts
      rw [List.length_tail]
      omega

theorem strtok_rest {s rest : Bytes} (h : strtok [] s = (none, rest)) : s = [] := by
  cases s with
  | nil => rfl
  | cons c s => cases h

/-! ### The translation of a line -/

/-- What is written for a command. -/
def Command.sent : Command → Bytes
  | .last => [36]
  | .first => [49]
  | cmd => cmd.text ++ [NEWLINE]

def Stop.IsExit : Stop → Prop
  | .fault _ => False
  | _ => True

theorem strcats_short {dest : Bytes} {texts : List Bytes}
    (short : dest.length + texts.flatten.length < BUF_SIZE) :
    strcats dest texts = .ok (dest ++ texts.flatten) := by
  induction texts generalizing dest with
  | nil => exact congrArg Except.ok (List.append_nil dest).symm
  | cons src rest ih =>
    rw [List.flatten_cons, List.length_append] at short
    rw [strcats, strcat_short (by omega)]
    dsimp only
    rw [ih (by rw [List.length_append]; omega), List.flatten_cons, List.append_assoc]

theorem sendCmd_short {texts : List Bytes} {text : Bytes} {s : State} (empty : s.cmd = [])
    (same : texts.flatten = text) (short : text.length < BUF_SIZE) :
    sendCmd texts s = .ok ⟨text, s.master ++ text⟩ := by
  subst same
  unfold sendCmd
  rw [empty, strcats_short (by rw [List.length_nil]; omega), List.nil_append]

/-- The keyword is at least as long as what is put around the second token. -/
theorem sendCmd_command {keyword token1 token2 : Bytes} {texts : List Bytes} {cmd : Command} {s : State}
    (empty : s.cmd = []) (short : token1.length + token2.length < BUF_SIZE) (same : token1 = keyword)
    (sent : texts.flatten = cmd.sent) (length : cmd.sent.length ≤ keyword.length + token2.length) :
    sendCmd texts s = .ok ⟨cmd.sent, s.master ++ cmd.sent⟩ := by
  rw [← same] at length
  exact sendCmd_short empty sent (Nat.lt_of_le_of_lt length short)

theorem interpret_cases (opens : Bytes → Bool) {token1 token2 : Bytes} {s : State} (empty : s.cmd = [])
    (short : token1.length + token2.length < BUF_SIZE) :
    (∃ cmd buffer, command token1 token2 = some cmd ∧
      interpret opens token1 token2 s = .ok ⟨buffer, s.master ++ cmd.sent⟩) ∨
    ∃ stop, interpret opens token1 token2 s = .error stop ∧ stop.IsExit := by
  unfold interpret command
  by_cases last : token1 = LAST
  · rw [if_pos last, if_pos last]
    exact Or.inl ⟨.last, s.cmd, rfl, rfl⟩
  rw [if_neg last, if_neg last]
  by_cases first : token1 = FIRST
  · rw [if_pos first, if_pos first]
    exact Or.inl ⟨.first, s.cmd, rfl, rfl⟩
  rw [if_neg first, if_neg first]
  by_cases delete : token1 = DELETE
  · rw [if_pos delete, if_pos delete]
    cases GetNum.getInt token2 GetNum.GN_NONNEG with
    | none => exact Or.inr ⟨.notANumber, rfl, trivial⟩
    | some _ =>
      refine Or.inl ⟨.delete token2, _, rfl, sendCmd_command empty short delete ?_ ?_⟩
      · simp [Command.sent, Command.text]
      · simp [Command.sent, Command.text, DELETE]
        omega
  rw [if_neg delete, if_neg delete]
  by_cases goto : token1 = GOTO
  · rw [if_pos goto, if_pos goto]
    cases GetNum.getInt token2 GetNum.GN_NONNEG with
    | none => exact Or.inr ⟨.notANumber, rfl, trivial⟩
    | some _ =>
      refine Or.inl ⟨.goto token2, _, rfl, sendCmd_command empty short goto ?_ ?_⟩
      · simp [Command.sent, Command.text]
      · simp [Command.sent, Command.text, GOTO]
  rw [if_neg goto, if_neg goto]
  by_cases edit : token1 = EDIT
  · rw [if_pos edit, if_pos edit]
    cases opens token2 with
    | false => exact Or.inr ⟨_, rfl, trivial⟩
    | true =>
      refine Or.inl ⟨.edit token2, _, rfl, sendCmd_command empty short edit ?_ ?_⟩
      · simp [Command.sent, Command.text]
      · simp [Command.sent, Command.text, EDIT]
        omega
  rw [if_neg edit, if_neg edit]
  exact Or.inr ⟨_, rfl, trivial⟩

theorem processLine_cases (opens : Bytes → Bool) {line : Bytes} {s : State} (empty : s.cmd = [])
    (short : line.length < BUF_SIZE) :
    (∃ cmd, denotes line = some cmd ∧ processLine opens line s = .ok ⟨[], s.master ++ cmd.sent⟩) ∨
    ∃ stop, processLine opens line s = .error stop ∧ stop.IsExit := by
  unfold processLine denotes
  cases call1 : strtok [SPACE] line with
  | mk found1 rest1 =>
    cases found1 with
    | none => exact Or.inr ⟨_, rfl, trivial⟩
    | some token1 =>
      obtain ⟨fields1, length1⟩ := strtok_some call1
      dsimp only
      cases call2 : strtok [SPACE] rest1 with
      | mk found2 rest2 =>
        cases found2 with
        | none => exact Or.inr ⟨_, rfl, trivial⟩
        | some token2 =>
          obtain ⟨fields2, length2⟩ := strtok_some call2
          dsimp only
          cases call3 : strtok [] rest2 with
          | mk found3 rest3 =>
            cases found3 with
            | some _ => exact Or.inr ⟨_, rfl, trivial⟩
            | none =>
              rw [fields1, fields2, strtok_rest call3, fields_nil]
              dsimp only
              have tokens : token1.length + token2.length < BUF_SIZE := by omega
              rcases interpret_cases opens empty tokens with
                ⟨cmd, buffer, same, ok⟩ | ⟨stop, error, exits⟩
              · rw [ok]
                exact Or.inl ⟨cmd, same, rfl⟩
              · rw [error]
                exact Or.inr ⟨stop, rfl, exits⟩

theorem processLines_cases (opens : Nat → Bytes → Bool) (i : Nat) {lines : List Bytes} {s : State}
    (empty : s.cmd = []) (short : ∀ line ∈ lines, line.length < BUF_SIZE) :
    (∃ cmds : List Command, lines.map denotes = cmds.map some ∧
      processLines opens i lines s = .ok ⟨[], s.master ++ cmds.flatMap Command.sent⟩) ∨
    ∃ stop, processLines opens i lines s = .error stop ∧ stop.IsExit := by
  induction lines generalizing i s with
  | nil =>
    refine Or.inl ⟨[], rfl, ?_⟩
    rw [processLines, List.flatMap_nil, List.append_nil, ← empty]
  | cons line rest ih =>
    obtain ⟨own, others⟩ := List.forall_mem_cons.mp short
    rw [processLines]
    rcases processLine_cases (opens i) empty own with ⟨cmd, same, ok⟩ | ⟨stop, error, exits⟩
    · rw [ok]
      dsimp only
      rcases ih (i + 1) (s := ⟨[], s.master ++ cmd.sent⟩) rfl others with
        ⟨cmds, all, ok⟩ | ⟨stop, error, exits⟩
      · refine Or.inl ⟨cmd :: cmds, ?_, ?_⟩
        · rw [List.map_cons, List.map_cons, same, all]
        · rw [ok, List.flatMap_cons, List.append_assoc]
      · exact Or.inr ⟨stop, error, exits⟩
    · rw [error]
      exact Or.inr ⟨stop, rfl, exits⟩

/-! ### The program -/

theorem textOf_length (bytes : List UInt8) : (textOf bytes).length ≤ bytes.length :=
  List.length_filter_le ..

theorem main_cases (opens : Nat → Bytes → Bool) {script : List UInt8}
    (short : ∀ line ∈ fields NEWLINE script, line.length < BUF_SIZE) :
    (∃ cmds : List Command, (scriptLines script).map denotes = cmds.map some ∧
      main opens script = .ok (cmds.flatMap Command.sent ++ SAVE_AND_QUIT)) ∨
    ∃ stop, main opens script = .error stop ∧ stop.IsExit := by
  have lines_short : ∀ line ∈ scriptLines script, line.length < BUF_SIZE := by
    intro line member
    obtain ⟨bytes, inside, rfl⟩ := List.mem_map.mp member
    exact Nat.lt_of_le_of_lt (textOf_length bytes) (short bytes inside)
  unfold main
  rw [(read_short script).1 [] short, List.nil_append]
  dsimp only
  rcases processLines_cases opens 0 (s := ⟨[], []⟩) rfl lines_short with
    ⟨cmds, all, ok⟩ | ⟨stop, error, exits⟩
  · rw [ok]
    exact Or.inl ⟨cmds, all, rfl⟩
  · rw [error]
    exact Or.inr ⟨stop, rfl, exits⟩

/-- The two commands that are not terminated. -/
def Command.Bare (cmd : Command) : Prop := cmd = .last ∨ cmd = .first

theorem sent_of_not_bare {cmd : Command} (terminated : ¬ cmd.Bare) : cmd.sent = cmd.text ++ [NEWLINE] := by
  cases cmd with
  | last => exact absurd (Or.inl rfl) terminated
  | first => exact absurd (Or.inr rfl) terminated
  | delete n => rfl
  | goto n => rfl
  | edit file => rfl

theorem sent_of_bare {cmd : Command} (bare : cmd.Bare) : cmd.sent ++ [NEWLINE] = cmd.text ++ [NEWLINE] := by
  rcases bare with rfl | rfl <;> rfl

theorem sent_length_le (cmd : Command) : cmd.sent.length ≤ (cmd.text ++ [NEWLINE]).length := by
  by_cases bare : cmd.Bare
  · rw [← sent_of_bare bare, List.length_append]
    exact Nat.le_add_right _ _
  · rw [sent_of_not_bare bare]

theorem all_sent_length_le (cmds : List Command) : (cmds.flatMap Command.sent).length ≤
    (cmds.flatMap fun cmd => cmd.text ++ [NEWLINE]).length := by
  induction cmds with
  | nil => exact Nat.le_refl 0
  | cons cmd rest ih =>
    have own := sent_length_le cmd
    rw [List.flatMap_cons, List.flatMap_cons, List.length_append, List.length_append]
    omega

/-- A newline that is missing is missed, since no other command can make up for its length. -/
theorem all_sent_iff (cmds : List Command) :
    cmds.flatMap Command.sent = cmds.flatMap (fun cmd => cmd.text ++ [NEWLINE]) ↔
      ∀ cmd ∈ cmds, ¬ cmd.Bare := by
  induction cmds with
  | nil => exact iff_of_true rfl (List.forall_mem_nil _)
  | cons cmd rest ih =>
    rw [List.flatMap_cons, List.flatMap_cons, List.forall_mem_cons]
    constructor
    · intro same
      have terminated : ¬ cmd.Bare := by
        intro bare
        have lengths := congrArg List.length same
        have others := all_sent_length_le rest
        rw [← sent_of_bare bare] at lengths
        simp only [List.length_append, List.length_singleton] at lengths
        omega
      rw [sent_of_not_bare terminated] at same
      exact ⟨terminated, ih.mp (List.append_cancel_left same)⟩
    · rintro ⟨terminated, others⟩
      rw [sent_of_not_bare terminated, ih.mpr others]

theorem faithful_iff_sent {script : List UInt8} {cmds : List Command}
    (all : (scriptLines script).map denotes = cmds.map some) :
    Faithful script (cmds.flatMap Command.sent ++ SAVE_AND_QUIT) ↔ ∀ cmd ∈ cmds, ¬ cmd.Bare := by
  rw [← all_sent_iff]
  constructor
  · rintro ⟨cmds', same, out⟩
    have unique : cmds' = cmds := List.map_injective_iff.mpr (Option.some_injective _) (same.symm.trans all)
    subst unique
    exact List.append_cancel_right out
  · intro same
    exact ⟨cmds, all, congrArg (· ++ SAVE_AND_QUIT) same⟩

/-- The buffers do not overflow. The editor gets what the script says if it does not say `last` or
`first`. -/
theorem faithful_iff (opens : Nat → Bytes → Bool) (script : List UInt8)
    (short : ∀ line ∈ fields NEWLINE script, line.length < BUF_SIZE) :
    (∀ fault, main opens script ≠ .error (.fault fault)) ∧
      ∀ out, main opens script = .ok out → (Faithful script out ↔
        ∀ line ∈ scriptLines script, denotes line ≠ some .last ∧ denotes line ≠ some .first) := by
  rcases main_cases opens short with ⟨cmds, all, ok⟩ | ⟨stop, error, exits⟩
  · refine ⟨fun fault failed => ?_, fun out accepted => ?_⟩
    · cases ok.symm.trans failed
    · obtain rfl := Except.ok.inj (ok.symm.trans accepted)
      rw [faithful_iff_sent all]
      have each : (∀ cmd ∈ cmds, ¬ cmd.Bare) ↔ ∀ found ∈ (scriptLines script).map denotes,
          found ≠ some .last ∧ found ≠ some .first := by
        rw [all, List.forall_mem_map]
        refine forall₂_congr fun cmd _ => ?_
        unfold Command.Bare
        rw [not_or, Option.some_inj.ne, Option.some_inj.ne]
      rw [each, List.forall_mem_map]
  · refine ⟨fun fault failed => ?_, fun out accepted => ?_⟩
    · obtain rfl := Except.error.inj (error.symm.trans failed)
      exact exits
    · cases error.symm.trans accepted

/-- `goto 3`, `delete 2` and `edit f` -/
theorem faithful_three : Faithful
    [103, 111, 116, 111, 32, 51, 10, 100, 101, 108, 101, 116, 101, 32, 50, 10, 101, 100, 105, 116, 32, 102, 10]
    [51, 10, 50, 100, 10, 101, 32, 102, 10, 119, 10, 113, 33, 10] :=
  ((faithful_iff (fun _ _ => true) [103, 111, 116, 111, 32, 51, 10, 100, 101, 108, 101, 116, 101, 32, 50, 10,
    101, 100, 105, 116, 32, 102, 10] (by decide)).2 _ rfl).mpr (by decide)

/-- `last x` and `goto 3` become the one line `$3`. -/
theorem last_goto : ¬ ∀ (opens : Nat → Bytes → Bool) (script out : List UInt8),
    (∀ line ∈ fields NEWLINE script, line.length < BUF_SIZE) → main opens script = .ok out →
      Faithful script out := by
  intro all
  have faithful := all (fun _ _ => false)
    [108, 97, 115, 116, 32, 120, 10, 103, 111, 116, 111, 32, 51, 10] [36, 51, 10, 119, 10, 113, 33, 10]
    (by decide) rfl
  have denoted : (scriptLines [108, 97, 115, 116, 32, 120, 10, 103, 111, 116, 111, 32, 51, 10]).map denotes =
      [.last, .goto [51]].map some := by decide
  have terminated := (faithful_iff_sent denoted).mp faithful
  exact terminated .last List.mem_cons_self (Or.inl rfl)

end Tlpi.Drivi
