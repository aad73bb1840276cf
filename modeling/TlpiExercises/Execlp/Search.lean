import TlpiExercises.C.Strings
import TlpiExercises.Library.FileSystem
import TlpiExercises.Library.Loop

/-!
# 27_Program_Execution/imp_execlp.c: the search along PATH

The pathnames that are given to `execve`, which fails for each of them. An allocation for a string
succeeds, and has room for the string that is put into it.
-/

namespace Tlpi.Execlp

open Loop Pathnames
open FileSystem (slash)

abbrev Byte := UInt8

def dot : Byte := 46

/-- `.:/usr/bin:/bin` -/
def defaultPath : CStr where
  bytes := [46, 58, 47, 117, 115, 114, 47, 98, 105, 110, 58, 47, 98, 105, 110]
  nulFree := by decide

/-- `strtok` with `":"`: the token, and the string behind it. -/
def strtok (string : List Byte) : Option (List Byte × List Byte) :=
  match string.dropWhile (· = COLON) with
  | [] => none
  | c :: rest =>
    some ((c :: rest).takeWhile (· ≠ COLON), ((c :: rest).dropWhile (· ≠ COLON)).drop 1)

/-- A round of the loop over the tokens, with the pathnames that it has tried. -/
def tryToken (file : List Byte) (s : List Byte × List (List Byte)) :
    Except (List (List Byte)) (List Byte × List (List Byte)) :=
  match strtok s.1 with
  | none => .error s.2
  | some (token, rest) => .ok (rest, s.2 ++ [token ++ [slash] ++ file])

def searchPath (pathEnv : Option CStr) : CStr :=
  match pathEnv with
  | none => defaultPath
  | some path => path

/-- The pathnames that are tried, one round of the loop for each at most. -/
def search (pathEnv : Option CStr) (file : CStr) : Option (List (List Byte)) :=
  let path := (searchPath pathEnv).bytes
  loop (tryToken file.bytes) (path.length + 1) (path, [])

/-! ### The tokens -/

variable {string : List Byte} {file : List Byte}

/-- `strtok` gives the names of a string, without the empty ones. -/
theorem strtok_cases (string : List Byte) :
    (strtok string = none ∧ names COLON string = []) ∨
    ∃ token rest, strtok string = some (token, rest) ∧
      names COLON string = token :: names COLON rest ∧ rest.length < string.length := by
  have skipped : names COLON (string.dropWhile (· = COLON)) = names COLON string :=
    names_dropWhile string
  have shorter := (List.dropWhile_sublist (l := string) (· = COLON)).length_le
  unfold strtok
  cases start : string.dropWhile (· = COLON) with
  | nil =>
    rw [start] at skipped
    exact Or.inl ⟨rfl, skipped.symm⟩
  | cons c rest =>
    have other : c ≠ COLON := by
      have stops := List.head?_dropWhile_not (· = COLON) string
      rw [start] at stops
      simpa using stops
    rw [start] at skipped shorter
    refine Or.inr ⟨_, _, rfl, ?_, ?_⟩
    · rw [← skipped, names_takeWhile other, names_behind]
    · have behind := (List.dropWhile_sublist (l := rest) (· ≠ COLON)).length_le
      rw [List.dropWhile_cons_of_pos (by simpa using other), List.length_drop]
      rw [List.length_cons] at shorter
      omega

theorem tryToken_loop (tried : List (List Byte)) {fuel : Nat} (enough : string.length < fuel) :
    loop (tryToken file) fuel (string, tried) =
      some (tried ++ (names COLON string).map (· ++ [slash] ++ file)) := by
  induction fuel generalizing string tried with
  | zero => cases enough
  | succ fuel ih =>
    rw [loop, tryToken]
    dsimp only
    rcases strtok_cases string with ⟨none, no_names⟩ | ⟨token, rest, some, more, shorter⟩
    · rw [none, no_names, List.map_nil, List.append_nil]
    · rw [some, more]
      dsimp only
      rw [ih _ (by omega), List.map_cons, List.append_assoc, List.singleton_append]

theorem search_names (pathEnv : Option CStr) (file : CStr) :
    search pathEnv file = some
      ((names COLON (searchPath pathEnv).bytes).map (· ++ [slash] ++ file.bytes)) := by
  unfold search
  dsimp only
  rw [tryToken_loop [] (Nat.lt_succ_self _), List.nil_append]

/-! ### What execlp tries -/

/-- The pathname of a file in a directory; an empty name stands for the current directory. -/
def Names (file element pathname : List Byte) : Prop :=
  if element = [] then pathname = file ∨ pathname = [dot, slash] ++ file
  else pathname = element ++ [slash] ++ file

/-- The pathnames that `execlp` tries, in their order. `libDefault` is the path that the C library
searches when PATH is not set. -/
def Tries (libDefault : CStr) (pathEnv : Option CStr) (file : CStr) (tried : List (List Byte)) : Prop :=
  if slash ∈ file.bytes then tried = [file.bytes]
  else List.Forall₂ (Names file.bytes) (fields COLON (pathEnv.getD libDefault).bytes) tried

theorem names_elements {file : List Byte} {elements : List (List Byte)} :
    List.Forall₂ (Names file) elements
      ((elements.filter (· ≠ [])).map (· ++ [slash] ++ file)) ↔ [] ∉ elements := by
  constructor
  · intro tried member
    have length := tried.length_eq
    rw [List.length_map] at length
    have all := List.length_filter_eq_length_iff.mp length.symm [] member
    exact absurd all (by decide)
  · intro none_empty
    have all : elements.filter (· ≠ []) = elements :=
      List.filter_eq_self.mpr fun element member =>
        decide_eq_true fun empty => none_empty (empty ▸ member)
    rw [all, List.forall₂_map_right_iff]
    refine List.forall₂_same.mpr fun element member => ?_
    have some_name : element ≠ [] := by
      rintro rfl
      exact none_empty member
    rw [Names, if_neg some_name]

def usrBin : List Byte := [47, 117, 115, 114, 47, 98, 105, 110]

def bin : List Byte := [47, 98, 105, 110]

theorem default_names : names COLON defaultPath.bytes = [[dot], usrBin, bin] := by decide

theorem names_iff {file element other : List Byte} (some_name : other ≠ []) :
    Names file element (other ++ [slash] ++ file) ↔
      element = other ∨ element = [] ∧ other = [dot] := by
  unfold Names
  by_cases empty : element = []
  · have longer : other ++ [slash] ++ file ≠ file := by
      intro same
      have lengths := congrArg List.length same
      rw [List.length_append, List.length_append, List.length_singleton] at lengths
      omega
    rw [if_pos empty, or_iff_right longer, List.append_left_inj, empty,
      or_iff_right (Ne.symm some_name), and_iff_right rfl]
    exact (List.append_left_inj [slash] : other ++ [slash] = [dot] ++ [slash] ↔ other = [dot])
  · rw [if_neg empty, List.append_left_inj, List.append_left_inj, or_iff_left fun both => empty both.1]
    exact eq_comm

/-- The current directory, `/usr/bin` and `/bin`. -/
def LikeDefault (libDefault : CStr) : Prop :=
  ∃ here, (here = [dot] ∨ here = []) ∧ fields COLON libDefault.bytes = [here, usrBin, bin]

theorem default_tries (libDefault : CStr) (file : List Byte) :
    List.Forall₂ (Names file) (fields COLON libDefault.bytes)
      ([[dot], usrBin, bin].map (· ++ [slash] ++ file)) ↔ LikeDefault libDefault := by
  have named (element : List Byte) {other : List Byte} (some_name : other ≠ [])
      (elsewhere : other ≠ [dot]) : Names file element (other ++ [slash] ++ file) ↔ element = other :=
    (names_iff some_name).trans (or_iff_left fun both => elsewhere both.2)
  unfold LikeDefault
  constructor
  · intro tried
    obtain ⟨here, _, first, two, elements⟩ := List.forall₂_cons_right_iff.mp tried
    obtain ⟨second, _, usr, one, rfl⟩ := List.forall₂_cons_right_iff.mp two
    obtain ⟨third, _, last, none, rfl⟩ := List.forall₂_cons_right_iff.mp one
    obtain rfl := List.forall₂_nil_right_iff.mp none
    obtain rfl := (named second (by decide) (by decide)).mp usr
    obtain rfl := (named third (by decide) (by decide)).mp last
    have here_or := (names_iff (List.cons_ne_nil _ _)).mp first
    exact ⟨here, here_or.imp_right And.left, elements⟩
  · rintro ⟨here, here_or, elements⟩
    rw [elements]
    refine .cons ?_ (.cons ?_ (.cons ?_ .nil))
    · exact (names_iff (List.cons_ne_nil _ _)).mpr (here_or.imp_right fun empty => ⟨empty, rfl⟩)
    · exact (named _ (by decide) (by decide)).mpr rfl
    · exact (named _ (by decide) (by decide)).mpr rfl

/-- `strtok` skips the empty elements, and nothing looks for a slash in the name. Without PATH the
directories have to be those that the C library searches. -/
theorem tries_iff (libDefault : CStr) (pathEnv : Option CStr) (file : CStr) :
    (∃ tried, search pathEnv file = some tried ∧ Tries libDefault pathEnv file tried) ↔
      slash ∉ file.bytes ∧ (∀ path, pathEnv = some path → [] ∉ fields COLON path.bytes) ∧
        (pathEnv = none → LikeDefault libDefault) := by
  have only : (∃ tried, search pathEnv file = some tried ∧ Tries libDefault pathEnv file tried) ↔
      Tries libDefault pathEnv file
        ((names COLON (searchPath pathEnv).bytes).map (· ++ [slash] ++ file.bytes)) := by
    rw [search_names]
    simp only [Option.some.injEq, exists_eq_left']
  rw [only, Tries]
  by_cases slashed : slash ∈ file.bytes
  · rw [if_pos slashed]
    refine iff_of_false (fun same => ?_) (fun plain => plain.1 slashed)
    obtain ⟨token, -, longer⟩ := List.map_eq_singleton_iff.mp same
    have lengths := congrArg List.length longer
    rw [List.length_append, List.length_append, List.length_singleton] at lengths
    omega
  · rw [if_neg slashed, and_iff_right slashed]
    cases pathEnv with
    | none =>
      have default : names COLON (searchPath none).bytes = [[dot], usrBin, bin] := default_names
      rw [default, Option.getD_none, default_tries]
      exact ⟨fun like => ⟨nofun, fun _ => like⟩, fun both => both.2 rfl⟩
    | some path =>
      have set : searchPath (some path) = path := rfl
      rw [set, names_eq_fields, Option.getD_some, names_elements]
      constructor
      · intro none_empty
        refine ⟨?_, nofun⟩
        rintro _ ⟨⟩
        exact none_empty
      · exact fun both => both.1 path rfl

/-- `/bin::/usr` has the current directory in the middle. -/
theorem empty_element_skipped : ¬ ∀ (libDefault : CStr) (pathEnv : Option CStr) (file : CStr),
    ∃ tried, search pathEnv file = some tried ∧ Tries libDefault pathEnv file tried := by
  intro all
  obtain ⟨tried, call, tries⟩ := all defaultPath
    (some ⟨[47, 98, 105, 110, 58, 58, 47, 117, 115, 114], by decide⟩) ⟨[108, 115], by decide⟩
  rw [search_names] at call
  obtain rfl := Option.some.inj call
  rw [Tries, if_neg (by decide)] at tries
  exact absurd tries.length_eq (by decide)

end Tlpi.Execlp
