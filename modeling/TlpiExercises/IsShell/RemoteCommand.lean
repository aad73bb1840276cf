import TlpiExercises.DynamicArray.Growth
import TlpiExercises.GetLine.Agreement
import TlpiExercises.IsShell.Model

/-!
# A command and its output

What is run is what was typed, each argument with a space behind it, and what is printed is what the
command has written.
-/

namespace Tlpi.IsShell

open DynamicArray GetLine

/-- The arguments that `execve` hands over: they are shorter than an `int` counts. -/
structure Args where
  list : List CStr
  short : (list.map fun arg => arg.length + 1).sum < 2 ^ 31 - 1

/-- What stands behind the host. -/
def Args.command (args : Args) : Args where
  list := args.list.tail
  short := by
    have short := args.short
    cases whole : args.list with
    | nil => decide
    | cons host command =>
      rw [whole, List.map_cons, List.sum_cons] at short
      rw [List.tail_cons]
      omega

def spaced (args : List CStr) : List UInt8 := args.flatMap fun arg => arg.bytes ++ [32]

/-! ### The command line -/

theorem length_spaced (args : List CStr) :
    (spaced args).length = (args.map fun arg => arg.length + 1).sum := by
  unfold spaced
  rw [List.length_flatMap]
  refine congrArg List.sum (List.map_congr_left fun arg _ => ?_)
  rw [List.length_append]
  rfl

theorem cmdLen_from (args : List CStr) {n : Nat} (short : n + (spaced args).length < 2 ^ 31) :
    args.foldl (fun n arg => toInt (n + (arg.length + 1))) (n : Int) = (n + (spaced args).length : Nat) := by
  induction args generalizing n with
  | nil => rfl
  | cons arg args ih =>
    have length : (spaced (arg :: args)).length = arg.length + 1 + (spaced args).length := by
      rw [length_spaced, length_spaced, List.map_cons, List.sum_cons]
    rw [length] at short ⊢
    have exact : toInt ((n : Int) + (arg.length + 1)) = (n + (arg.length + 1) : Nat) := by
      rw [toInt_of_nonneg (by omega) (by unfold INT_MAX; omega)]
      rfl
    rw [List.foldl_cons, exact, ih (by omega), Nat.add_assoc]

theorem cmdLen_exact (args : Args) : cmdLen args.list = ((spaced args.list).length + 1 : Nat) := by
  have short := args.short
  rw [← length_spaced] at short
  have counted := cmdLen_from args.list (n := 1) (by omega)
  rw [Nat.add_comm] at counted
  exact counted

theorem appendArg_fits (cmdBuf arg : CStr) (room : cmdBuf.length + (arg.length + 1) ≤ MAX_CMD) :
    appendArg cmdBuf arg = .ok ((cmdBuf.append arg).append SPACE) := by
  have first : cmdBuf.length + arg.length < MAX_CMD + 1 := by omega
  have second : (cmdBuf.append arg).length + SPACE.length < MAX_CMD + 1 := by
    rw [CStr.length_append]
    show _ + 1 < _
    omega
  unfold appendArg strcat
  rw [if_pos first, ok_bind, if_pos second]

theorem appendArgs_fit (args : List CStr) (cmdBuf : CStr)
    (room : cmdBuf.length + (spaced args).length ≤ MAX_CMD) :
    ∃ all : CStr, args.foldlM appendArg cmdBuf = .ok all ∧ all.bytes = cmdBuf.bytes ++ spaced args := by
  induction args generalizing cmdBuf with
  | nil => exact ⟨cmdBuf, rfl, (List.append_nil _).symm⟩
  | cons arg args ih =>
    have length : (spaced (arg :: args)).length = arg.length + 1 + (spaced args).length := by
      rw [length_spaced, length_spaced, List.map_cons, List.sum_cons]
    rw [length] at room
    have here := appendArg_fits cmdBuf arg (by omega)
    obtain ⟨all, rest, bytes⟩ := ih ((cmdBuf.append arg).append SPACE) (by
      rw [CStr.length_append, CStr.length_append]
      show _ + 1 + _ ≤ _
      omega)
    refine ⟨all, ?_, bytes.trans ?_⟩
    · rw [List.foldlM_cons, here, ok_bind, rest]
    · show cmdBuf.bytes ++ arg.bytes ++ [32] ++ spaced args = cmdBuf.bytes ++ spaced (arg :: args)
      rw [List.append_assoc, List.append_assoc, ← List.append_assoc arg.bytes]
      rfl

/-- Either the check refuses, or the array has room and the string is sent with its NUL. -/
theorem command_spaced (args : Args) : command args.list =
    .ok (if MAX_CMD < (spaced args.list).length + 1 then none else some (spaced args.list ++ [0])) := by
  unfold command
  rw [cmdLen_exact]
  by_cases long : MAX_CMD < (spaced args.list).length + 1
  · rw [if_pos long, if_pos (by omega)]
  · obtain ⟨all, appended, bytes⟩ := appendArgs_fit args.list
      ⟨[], List.not_mem_nil⟩ (by show 0 + _ ≤ _; omega)
    rw [if_neg long, if_neg (by omega), appended, ok_bind, pure_eq_ok]
    have bytes : all.bytes = spaced args.list := bytes
    have zeros : List.replicate (MAX_CMD + 1 - all.length) (0 : UInt8) =
        0 :: List.replicate (MAX_CMD - all.length) 0 := by
      have length : all.length = (spaced args.list).length := congrArg List.length bytes
      rw [← List.replicate_succ]
      congr 1
      omega
    rw [zeros, bytes, Int.toNat_natCast, List.take_append, List.take_of_length_le (by omega)]
    simp

/-! ### Reading up to the end -/

/-- The characters that are pushed: where a `read` fails the one before it comes again. -/
def heard (c : UInt8) : List (Option UInt8) → List UInt8
  | [] => []
  | read :: reads => read.getD c :: heard (read.getD c) reads

theorem heard_length (c : UInt8) (reads : List (Option UInt8)) : (heard c reads).length = reads.length := by
  induction reads generalizing c with
  | nil => rfl
  | cons read reads ih => rw [heard, List.length_cons, ih, List.length_cons]

theorem heard_bytes (c : UInt8) (bytes : List UInt8) : heard c (bytes.map some) = bytes := by
  induction bytes generalizing c with
  | nil => rfl
  | cons b bytes ih => rw [List.map_cons, heard, Option.getD_some, ih]

/-- What there is to push fits into the address space. -/
theorem room_for {text : List UInt8} (short : text.length < 2 ^ 62) :
    max 1 (2 * (cells text).length) * 1 ≤ PTRDIFF_MAX := by
  rw [cells_length, Nat.mul_one]
  unfold PTRDIFF_MAX
  omega

theorem gather_granted (exits : Bool) (alloc : Nat → Allocation) {i : Nat} {c : UInt8}
    {text : List UInt8} {reads : List (Option UInt8)} {da : DynArray}
    (rep : Represents da (cells text)) (short : text.length + reads.length < 2 ^ 62)
    (fine : exits = true → none ∉ reads) :
    ∃ da', gather exits (fun i => some (alloc i)) i c reads da = .ok (.all da') ∧
      Represents da' (cells (text ++ heard c reads)) := by
  induction reads generalizing i c text da with
  | nil =>
    refine ⟨da, rfl, ?_⟩
    rw [heard, List.append_nil]
    exact rep
  | cons read reads ih =>
    rw [List.length_cons] at short
    have goes_on : ¬ (read.isNone = true ∧ exits = true) := by
      rintro ⟨failed, exits⟩
      refine fine exits (List.mem_cons.mpr (Or.inl ?_))
      exact (Option.isNone_iff_eq_none.mp failed).symm
    obtain ⟨pointer, da', notNull, pushed, rep'⟩ :=
      push_granted rep Nat.one_pos (alloc i) ⟨[read.getD c], rfl⟩ (room_for (by omega))
    rw [← cells_append] at rep'
    obtain ⟨last, gathered, all⟩ := ih (i := i + 1) (c := read.getD c) rep'
      (by rw [List.length_append, List.length_singleton]; omega)
      fun exits member => fine exits (List.mem_cons_of_mem _ member)
    refine ⟨last, ?_, ?_⟩
    · rw [gather, if_neg goes_on]
      dsimp only
      rw [pushed, ok_bind]
      dsimp only
      rw [if_neg fun null => notNull (Returned.pointer.inj null)]
      exact gathered
    · rw [List.append_assoc] at all
      exact all

theorem terminate_granted (allocation : Allocation) {text : List UInt8} {da : DynArray}
    (rep : Represents da (cells text)) (short : text.length < 2 ^ 62) :
    terminate (some allocation) da = .ok (text.takeWhile (· ≠ 0)) := by
  rcases daPush_slot (some allocation) rep Nat.one_pos (by decide) with
    ⟨refused, _⟩ | ⟨grown, pushed, notNull, al, size, slots⟩
  · exact absurd refused (makeRoom_granted rep Nat.one_pos allocation (room_for short))
  · have size : grown.size = (cells text).length + 1 := size
    rw [cells_length] at pushed notNull
    obtain ⟨da', stored, rep', _⟩ := store_char ⟨al, size, slots⟩ 0
    obtain ⟨rest, bytes⟩ := cells_bytes rep'
    unfold terminate
    rw [pushed]
    dsimp only
    rw [if_neg notNull, stored, ok_bind, bytes, List.append_assoc]
    have ended : (0 : UInt8) ∈ text ++ ([0] ++ rest) :=
      List.mem_append_right text (List.mem_append_left rest List.mem_cons_self)
    rw [if_pos ended, pure_eq_ok]
    exact congrArg Except.ok (takeWhile_nul text rest)

theorem fresh_array (outcome : Option Allocation) (uninitialised : DynArray) :
    Represents (daInit outcome uninitialised 0 1).2 (cells []) := by
  rw [daInit, if_neg (by decide)]
  exact represents_empty outcome rfl rfl rfl rfl

/-- The client repeats a character for each `read` that fails. -/
theorem showOutput_heard (alloc : Nat → Allocation) (da : DynArray) (c : UInt8)
    {reads : List (Option UInt8)} (short : reads.length < 2 ^ 62) :
    showOutput (fun i => some (alloc i)) da c reads =
      .ok (.printed ((heard c reads).takeWhile (· ≠ 0))) := by
  have room : ([] : List UInt8).length + reads.length < 2 ^ 62 := by
    rw [List.length_nil, Nat.zero_add]
    exact short
  obtain ⟨last, gathered, rep⟩ := gather_granted false alloc (i := 1) (c := c)
    (fresh_array (some (alloc 0)) da) room nofun
  rw [List.nil_append] at rep
  unfold showOutput
  rw [gathered, ok_bind]
  dsimp only
  rw [terminate_granted _ rep (by rw [heard_length]; exact short), ok_bind, pure_eq_ok]

theorem handleRequest_command (alloc : Nat → Allocation) (da : DynArray) (c : UInt8)
    {bytes : List UInt8} (short : bytes.length < 2 ^ 62) :
    handleRequest (fun i => some (alloc i)) da c (bytes.map some) =
      .ok (.ran (bytes.takeWhile (· ≠ 0))) := by
  have room : ([] : List UInt8).length + (bytes.map some).length < 2 ^ 62 := by
    rw [List.length_nil, Nat.zero_add, List.length_map]
    exact short
  have fine : (none : Option UInt8) ∉ bytes.map some := by
    rw [List.mem_map]
    rintro ⟨_, _, same⟩
    cases same
  obtain ⟨last, gathered, rep⟩ := gather_granted true alloc (i := 1) (c := c)
    (fresh_array (some (alloc 0)) da) room fun _ => fine
  rw [List.nil_append, heard_bytes] at rep
  unfold handleRequest
  rw [gathered, ok_bind]
  dsimp only
  rw [terminate_granted _ rep short, ok_bind, pure_eq_ok]

/-! ### Both programs -/

/-- What a process writes fits into its address space. -/
abbrev Output := { bytes : List UInt8 // bytes.length < 2 ^ 62 }

/-- A process whose allocations all succeed. -/
def granting (da : DynArray) (c : UInt8) (alloc : Nat → Allocation) : Process :=
  ⟨da, c, fun i => some (alloc i)⟩

theorem spaced_nulFree (args : List CStr) : (0 : UInt8) ∉ spaced args := by
  intro member
  obtain ⟨arg, _, inside⟩ := List.mem_flatMap.mp member
  rcases List.mem_append.mp inside with char | space
  · exact arg.nulFree char
  · cases List.mem_singleton.mp space

theorem take_nulFree {args : List CStr} {written : Nat} (part : written < (spaced args ++ [0]).length) :
    ((spaced args ++ [0]).take written).takeWhile (· ≠ 0) = (spaced args).take written := by
  rw [List.length_append, List.length_singleton] at part
  rw [List.take_append_of_le_length (by omega)]
  exact CStr.ofBytes_free fun member => spaced_nulFree args (List.mem_of_mem_take member)

/-- The client shows its usage, or the command line is refused, or cut by a `write` that fails, or it is run
as it was typed, and what it writes up to the first NUL is printed. -/
theorem exchange_runs (shell : List UInt8 → Output) (args : Args) (written : Nat)
    (server client : DynArray) (c c' : UInt8) (alloc alloc' : Nat → Allocation) :
    exchange (fun command => (shell command).1) (granting server c alloc) (granting client c' alloc')
        args.list written = .ok
      (if args.list.length < 2 ∨ args.list.head?.map CStr.bytes = some HELP then ⟨none, .usage⟩
      else if MAX_CMD < (spaced args.list.tail).length + 1 then ⟨none, .cmdTooLong⟩
      else if written < (spaced args.list.tail).length + 1 then
        ⟨some ((spaced args.list.tail).take written), .partialWrite⟩
      else ⟨some (spaced args.list.tail),
        .printed ((shell (spaced args.list.tail)).1.takeWhile (· ≠ 0))⟩) := by
  by_cases usage : args.list.length < 2 ∨ args.list.head?.map CStr.bytes = some HELP
  · unfold exchange
    rw [if_pos usage, if_pos usage]
    rfl
  have line : command args.list.tail = _ := command_spaced args.command
  have tail : args.command.list = args.list.tail := rfl
  rw [tail] at line
  have length : (spaced args.list.tail ++ [0]).length = (spaced args.list.tail).length + 1 :=
    List.length_append
  unfold exchange
  rw [if_neg usage, if_neg usage, line]
  by_cases long : MAX_CMD < (spaced args.list.tail).length + 1
  · rw [if_pos long, if_pos long]
    rfl
  · have small : ((spaced args.list.tail ++ [0]).take written).length < 2 ^ 62 := by
      rw [List.length_take, length]
      unfold MAX_CMD at long
      omega
    rw [if_neg long, if_neg long]
    simp only [ok_bind]
    rw [granting, handleRequest_command alloc server c small, ok_bind, length]
    by_cases part : written < (spaced args.list.tail).length + 1
    · rw [if_pos part, if_pos part, take_nulFree (length.symm ▸ part)]
      rfl
    · have whole : (spaced args.list.tail ++ [0]).take written = spaced args.list.tail ++ 0 :: [] :=
        List.take_of_length_le (by omega)
      have text : (spaced args.list.tail).takeWhile (· ≠ 0) = spaced args.list.tail :=
        CStr.ofBytes_free (spaced_nulFree args.list.tail)
      rw [if_neg part, if_neg part, whole, takeWhile_nul, text, Handled.ran?, Option.map_some,
        Option.getD_some, granting, showOutput_heard alloc' client c' ?_, heard_bytes]
      · rfl
      · rw [List.length_map]
        exact (shell (spaced args.list.tail)).2

end Tlpi.IsShell
