import TlpiExercises.Library.FileSystem

/-!
# The resolution of pathnames

Every step of a walk is one of a few, and `walk_induction` follows them. `Reaches` says which
directory a part of the names leads to, and by how many symbolic links.
-/

namespace FileSystem

open Pathnames

variable {fs : Tree} {follow : Bool} {links k m : Nat} {p q d : Position} {n : Name}
  {t : List UInt8} {a b c rest : List Name}

/-! ### The steps of a walk -/

/-- What is done at a symbolic link. -/
def atLink (fs : Tree) (follow : Bool) : Nat → Position → List UInt8 → List Name → Except Error Position
  | 0 => fun _ _ _ => .error .ELOOP
  | links + 1 => fun p target rest => walk fs follow links (start p target) (path target ++ rest)

theorem walk_nil : walk fs follow links p [] = .ok p := by
  cases links <;> rfl

/-- One name of a walk. -/
theorem walk_cons : walk fs follow links p (n :: rest) =
    if n = dot then walk fs follow links p rest
    else if n = dotDot then walk fs follow links p.tail rest
    else
      match fs.kind (n :: p) with
      | none => .error .ENOENT
      | some .dir => walk fs follow links (n :: p) rest
      | some .file => if rest = [] then .ok (n :: p) else .error .ENOTDIR
      | some (.link target) =>
        if rest = [] ∧ follow = false then .ok (n :: p) else atLink fs follow links p target rest := by
  cases links <;> rfl

theorem walk_dot : walk fs follow links p (dot :: rest) = walk fs follow links p rest := by
  rw [walk_cons, if_pos rfl]

theorem walk_up : walk fs follow links p (dotDot :: rest) = walk fs follow links p.tail rest := by
  rw [walk_cons, if_neg (by decide), if_pos rfl]

theorem walk_missing (not_dot : n ≠ dot) (not_up : n ≠ dotDot) (here : fs.kind (n :: p) = none) :
    walk fs follow links p (n :: rest) = .error .ENOENT := by
  rw [walk_cons, if_neg not_dot, if_neg not_up, here]

theorem walk_dir (here : fs.kind (n :: p) = some .dir) :
    walk fs follow links p (n :: rest) = walk fs follow links (n :: p) rest := by
  rw [walk_cons, if_neg (fs.name here).not_dot, if_neg (fs.name here).not_dotDot, here]

theorem walk_file (here : fs.kind (n :: p) = some .file) :
    walk fs follow links p (n :: rest) = if rest = [] then .ok (n :: p) else .error .ENOTDIR := by
  rw [walk_cons, if_neg (fs.name here).not_dot, if_neg (fs.name here).not_dotDot, here]

theorem walk_last_link (here : fs.kind (n :: p) = some (.link t)) :
    walk fs false links p [n] = .ok (n :: p) := by
  rw [walk_cons, if_neg (fs.name here).not_dot, if_neg (fs.name here).not_dotDot, here]
  exact if_pos ⟨rfl, rfl⟩

theorem walk_link (here : fs.kind (n :: p) = some (.link t)) (on : ¬ (rest = [] ∧ follow = false)) :
    walk fs follow (links + 1) p (n :: rest) =
      walk fs follow links (start p t) (path t ++ rest) := by
  rw [walk_cons, if_neg (fs.name here).not_dot, if_neg (fs.name here).not_dotDot, here]
  exact if_neg on

theorem walk_loop (here : fs.kind (n :: p) = some (.link t)) (on : ¬ (rest = [] ∧ follow = false)) :
    walk fs follow 0 p (n :: rest) = .error .ELOOP := by
  rw [walk_cons, if_neg (fs.name here).not_dot, if_neg (fs.name here).not_dotDot, here]
  exact if_neg on

/-- Every way to get past a name that is neither `.` nor `..`. -/
theorem walk_name_cases (not_dot : n ≠ dot) (not_up : n ≠ dotDot)
    (walked : walk fs follow links p (n :: rest) = .ok q) :
    (fs.kind (n :: p) = some .dir ∧ walk fs follow links (n :: p) rest = .ok q) ∨
    (fs.kind (n :: p) = some .file ∧ rest = [] ∧ q = n :: p) ∨
    (∃ t, fs.kind (n :: p) = some (.link t) ∧ rest = [] ∧ follow = false ∧ q = n :: p) ∨
    ∃ t m, fs.kind (n :: p) = some (.link t) ∧ ¬ (rest = [] ∧ follow = false) ∧ links = m + 1 ∧
      walk fs follow m (start p t) (path t ++ rest) = .ok q := by
  cases here : fs.kind (n :: p) with
  | none =>
    rw [walk_missing not_dot not_up here] at walked
    cases walked
  | some kind =>
    cases kind with
    | dir =>
      rw [walk_dir here] at walked
      exact Or.inl ⟨rfl, walked⟩
    | file =>
      rw [walk_file here] at walked
      split at walked
      next last => exact Or.inr (Or.inl ⟨rfl, last, (Except.ok.inj walked).symm⟩)
      next => cases walked
    | link t =>
      by_cases last : rest = [] ∧ follow = false
      · obtain ⟨rfl, rfl⟩ := last
        rw [walk_last_link here] at walked
        exact Or.inr (Or.inr (Or.inl ⟨t, rfl, rfl, rfl, (Except.ok.inj walked).symm⟩))
      · cases links with
        | zero =>
          rw [walk_loop here last] at walked
          cases walked
        | succ links =>
          rw [walk_link here last] at walked
          exact Or.inr (Or.inr (Or.inr ⟨t, links, rfl, last, rfl, walked⟩))

/-- Along the names, and at a symbolic link along those of its target with one link less. -/
@[elab_as_elim]
theorem walk_induction (fs : Tree) {motive : Nat → Position → List Name → Prop}
    (nil : ∀ links p, motive links p [])
    (here : ∀ links p rest, motive links p rest → motive links p (dot :: rest))
    (up : ∀ links p rest, motive links p.tail rest → motive links p (dotDot :: rest))
    (name : ∀ links p n rest, n ≠ dot → n ≠ dotDot →
      (fs.kind (n :: p) = some .dir → motive links (n :: p) rest) →
      (∀ l t, links = l + 1 → fs.kind (n :: p) = some (.link t) →
        motive l (start p t) (path t ++ rest)) → motive links p (n :: rest))
    (links : Nat) (p : Position) (names : List Name) : motive links p names := by
  induction links generalizing p names with
  | zero =>
    induction names generalizing p with
    | nil => exact nil 0 p
    | cons n rest ih =>
      by_cases is_dot : n = dot
      · exact is_dot ▸ here 0 p rest (ih p)
      by_cases is_up : n = dotDot
      · exact is_up ▸ up 0 p rest (ih p.tail)
      · exact name 0 p n rest is_dot is_up (fun _ => ih (n :: p)) fun _ _ none => nomatch none
  | succ links fewer =>
    induction names generalizing p with
    | nil => exact nil (links + 1) p
    | cons n rest ih =>
      by_cases is_dot : n = dot
      · exact is_dot ▸ here (links + 1) p rest (ih p)
      by_cases is_up : n = dotDot
      · exact is_up ▸ up (links + 1) p rest (ih p.tail)
      · refine name (links + 1) p n rest is_dot is_up (fun _ => ih (n :: p)) fun l t same _ => ?_
        obtain rfl := Nat.succ.inj same
        exact fewer _ _

/-- One more link changes nothing where the links were enough. -/
theorem walk_succ (settled : walk fs follow links p a ≠ .error .ELOOP) :
    walk fs follow (links + 1) p a = walk fs follow links p a := by
  induction links, p, a using walk_induction fs with
  | nil => rw [walk_nil, walk_nil]
  | here links p rest ih =>
    rw [walk_dot] at settled ⊢
    rw [walk_dot, ih settled]
  | up links p rest ih =>
    rw [walk_up] at settled ⊢
    rw [walk_up, ih settled]
  | name links p n rest not_dot not_up down through =>
    cases here : fs.kind (n :: p) with
    | none => rw [walk_missing not_dot not_up here, walk_missing not_dot not_up here]
    | some kind =>
      cases kind with
      | dir =>
        rw [walk_dir here] at settled ⊢
        rw [walk_dir here, down here settled]
      | file => rw [walk_file here, walk_file here]
      | link t =>
        by_cases last : rest = [] ∧ follow = false
        · obtain ⟨rfl, rfl⟩ := last
          rw [walk_last_link here, walk_last_link here]
        · cases links with
          | zero => exact absurd (walk_loop here last) settled
          | succ links =>
            rw [walk_link here last] at settled ⊢
            rw [walk_link here last, through links t rfl here settled]

theorem walk_more (settled : walk fs follow links p a ≠ .error .ELOOP) (le : links ≤ m) :
    walk fs follow m p a = walk fs follow links p a := by
  induction m, le using Nat.le_induction with
  | base => rfl
  | succ m le ih => rw [walk_succ (ih ▸ settled), ih]

/-! ### What the names lead to -/

/-- Walking the names from `p`, through `k` symbolic links, leads to `q` with some still to walk. -/
inductive Reaches (fs : Tree) : Position → List Name → Nat → Position → List Name → Prop where
  | refl {p : Position} {a : List Name} : Reaches fs p a 0 p a
  | here {p q : Position} {a b : List Name} {k : Nat} :
      Reaches fs p a k q b → Reaches fs p (dot :: a) k q b
  | up {p q : Position} {a b : List Name} {k : Nat} :
      Reaches fs p.tail a k q b → Reaches fs p (dotDot :: a) k q b
  | down {p q : Position} {n : Name} {a b : List Name} {k : Nat}
      (here : fs.kind (n :: p) = some .dir) :
      Reaches fs (n :: p) a k q b → Reaches fs p (n :: a) k q b
  | through {p q : Position} {n : Name} {t : List UInt8} {a b : List Name} {k : Nat}
      (here : fs.kind (n :: p) = some (.link t)) :
      Reaches fs (start p t) (path t ++ a) k q b → Reaches fs p (n :: a) (k + 1) q b

theorem Reaches.append (reaches : Reaches fs p a k q b) : Reaches fs p (a ++ c) k q (b ++ c) := by
  induction reaches with
  | refl => exact .refl
  | here _ ih => exact .here ih
  | up _ ih => exact .up ih
  | down here _ ih => exact .down here ih
  | through here _ ih =>
    rw [List.append_assoc] at ih
    exact .through here ih

theorem Reaches.trans (first : Reaches fs p a k q b) (second : Reaches fs q b m d c) :
    Reaches fs p a (k + m) d c := by
  induction first with
  | refl =>
    rw [Nat.zero_add]
    exact second
  | here _ ih => exact .here (ih second)
  | up _ ih => exact .up (ih second)
  | down here _ ih => exact .down here (ih second)
  | through here _ ih =>
    rw [Nat.add_right_comm]
    exact .through here (ih second)

theorem dir_tail (dir : fs.kind p = some .dir) : fs.kind p.tail = some .dir := by
  cases p with
  | nil => exact fs.root
  | cons n p => exact fs.parent dir

theorem dir_start (dir : fs.kind p = some .dir) : fs.kind (start p t) = some .dir := by
  unfold start
  split
  · exact fs.root
  · exact dir

theorem Reaches.dir (reaches : Reaches fs p a k q b) (dir : fs.kind p = some .dir) :
    fs.kind q = some .dir := by
  induction reaches with
  | refl => exact dir
  | here _ ih => exact ih dir
  | up _ ih => exact ih (dir_tail dir)
  | down here _ ih => exact ih here
  | through _ _ ih => exact ih (dir_start dir)

theorem Reaches.walk (reaches : Reaches fs p a k q b) (on : follow = true ∨ c ≠ []) :
    walk fs follow (k + m) p (a ++ c) = FileSystem.walk fs follow m q (b ++ c) := by
  induction reaches with
  | refl => rw [Nat.zero_add]
  | here _ ih => rw [List.cons_append, walk_dot, ih]
  | up _ ih => rw [List.cons_append, walk_up, ih]
  | down here _ ih => rw [List.cons_append, walk_dir here, ih]
  | through here _ ih =>
    rw [List.cons_append, Nat.add_right_comm, walk_link here, ← List.append_assoc, ih]
    rintro ⟨none, off⟩
    rcases on with on | more
    · exact absurd (on.symm.trans off) (by decide)
    · exact more (List.append_eq_nil_iff.mp none).2

/-- With fewer links than lie on the way the walk does not get through. -/
theorem Reaches.walk_few (reaches : Reaches fs p a k q b) (on : follow = true ∨ c ≠ [])
    (few : links < k) : FileSystem.walk fs follow links p (a ++ c) = .error .ELOOP := by
  induction reaches generalizing links with
  | refl => exact absurd few (Nat.not_lt_zero links)
  | here _ ih => rw [List.cons_append, walk_dot, ih few]
  | up _ ih => rw [List.cons_append, walk_up, ih few]
  | down here _ ih => rw [List.cons_append, walk_dir here, ih few]
  | @through p q n t a b k here _ ih =>
    have goes_on : ¬ (a ++ c = [] ∧ follow = false) := by
      rintro ⟨none, off⟩
      rcases on with on | more
      · exact absurd (on.symm.trans off) (by decide)
      · exact more (List.append_eq_nil_iff.mp none).2
    cases links with
    | zero => exact walk_loop here goes_on
    | succ links =>
      rw [List.cons_append, walk_link here goes_on, ← List.append_assoc,
        ih (Nat.lt_of_succ_lt_succ few)]

/-- A walk that succeeds has come by every directory on its way. -/
theorem walk_split (more : c ≠ []) (walked : walk fs follow links p (a ++ c) = .ok q) :
    ∃ k m d, k + m = links ∧ Reaches fs p a k d [] ∧ walk fs follow m d c = .ok q := by
  induction links, p, a using walk_induction fs with
  | nil links p => exact ⟨0, links, p, Nat.zero_add _, .refl, walked⟩
  | here links p rest ih =>
    rw [List.cons_append, walk_dot] at walked
    obtain ⟨k, m, d, sum, reaches, last⟩ := ih walked
    exact ⟨k, m, d, sum, .here reaches, last⟩
  | up links p rest ih =>
    rw [List.cons_append, walk_up] at walked
    obtain ⟨k, m, d, sum, reaches, last⟩ := ih walked
    exact ⟨k, m, d, sum, .up reaches, last⟩
  | name links p n rest not_dot not_up down through =>
    have not_last : rest ++ c ≠ [] := fun none => more (List.append_eq_nil_iff.mp none).2
    rw [List.cons_append] at walked
    rcases walk_name_cases not_dot not_up walked with
      ⟨here, walked⟩ | ⟨_, last, _⟩ | ⟨_, _, last, _⟩ | ⟨t, links, here, _, rfl, later⟩
    · obtain ⟨k, m, d, sum, reaches, last⟩ := down here walked
      exact ⟨k, m, d, sum, .down here reaches, last⟩
    · exact absurd last not_last
    · exact absurd last not_last
    · rw [← List.append_assoc] at later
      obtain ⟨k, m, d, sum, reaches, last⟩ := through links t rfl here later
      exact ⟨k + 1, m, d, by omega, .through here reaches, last⟩

/-! ### The last name of a pathname -/

/-- Only a name of an entry can lead to something that is not a directory. -/
theorem walk_last (dir : fs.kind p = some .dir) (walked : walk fs follow links p a = .ok q)
    (other : fs.kind q ≠ some .dir) : ∃ b n, a = b ++ [n] ∧ n ≠ dot ∧ n ≠ dotDot := by
  rcases List.eq_nil_or_concat' a with rfl | ⟨b, n, rfl⟩
  · rw [walk_nil] at walked
    cases walked
    exact absurd dir other
  · obtain ⟨k, m, d, _, reaches, last⟩ := walk_split (List.cons_ne_nil n []) walked
    have inside := reaches.dir dir
    refine ⟨b, n, rfl, ?_, ?_⟩
    · rintro rfl
      rw [walk_dot, walk_nil] at last
      cases last
      exact other inside
    · rintro rfl
      rw [walk_up, walk_nil] at last
      cases last
      exact other (dir_tail inside)

/-- Without following it, the last name is an entry of the directory that the others lead to. -/
theorem walk_entry (not_dot : n ≠ dot) (not_up : n ≠ dotDot)
    (walked : walk fs false links p [n] = .ok q) : q = n :: p ∧ fs.kind q ≠ none := by
  rcases walk_name_cases not_dot not_up walked with
    ⟨here, walked⟩ | ⟨here, _, rfl⟩ | ⟨t, here, _, _, rfl⟩ | ⟨_, _, _, on, _⟩
  · rw [walk_nil] at walked
    cases walked
    exact ⟨rfl, here ▸ Option.some_ne_none _⟩
  · exact ⟨rfl, here ▸ Option.some_ne_none _⟩
  · exact ⟨rfl, here ▸ Option.some_ne_none _⟩
  · exact absurd ⟨rfl, rfl⟩ on

/-- What a walk leads to. -/
theorem walk_kind (dir : fs.kind p = some .dir) (walked : walk fs follow links p a = .ok q) :
    fs.kind q = some .dir ∨ fs.kind q = some .file ∨
      (follow = false ∧ ∃ t, fs.kind q = some (.link t)) := by
  induction links, p, a using walk_induction fs with
  | nil =>
    rw [walk_nil] at walked
    cases walked
    exact Or.inl dir
  | here links p rest ih =>
    rw [walk_dot] at walked
    exact ih dir walked
  | up links p rest ih =>
    rw [walk_up] at walked
    exact ih (dir_tail dir) walked
  | name links p n rest not_dot not_up down through =>
    rcases walk_name_cases not_dot not_up walked with
      ⟨here, walked⟩ | ⟨here, _, rfl⟩ | ⟨t, here, _, off, rfl⟩ | ⟨t, links, here, _, rfl, later⟩
    · exact down here here walked
    · exact Or.inr (Or.inl here)
    · exact Or.inr (Or.inr ⟨off, t, here⟩)
    · exact through links t rfl here (dir_start dir) later

/-- Following the last name changes nothing unless it is a symbolic link. -/
theorem walk_follow (walked : walk fs false links p a = .ok q)
    (other : ∀ t, fs.kind q ≠ some (.link t)) : walk fs true links p a = .ok q := by
  induction links, p, a using walk_induction fs with
  | nil =>
    rw [walk_nil] at walked
    rw [walk_nil, walked]
  | here links p rest ih =>
    rw [walk_dot] at walked ⊢
    exact ih walked
  | up links p rest ih =>
    rw [walk_up] at walked ⊢
    exact ih walked
  | name links p n rest not_dot not_up down through =>
    rcases walk_name_cases not_dot not_up walked with
      ⟨here, walked⟩ | ⟨here, last, rfl⟩ | ⟨t, here, _, _, rfl⟩ | ⟨t, links, here, _, rfl, later⟩
    · rw [walk_dir here]
      exact down here walked
    · rw [walk_file here, if_pos last]
    · exact absurd here (other t)
    · have goes_on : ¬ (rest = [] ∧ true = false) := fun both => nomatch both.2
      rw [walk_link here goes_on]
      exact through links t rfl here later

theorem walk_exists (dir : fs.kind p = some .dir) (walked : walk fs follow links p a = .ok q) :
    fs.kind q ≠ none := by
  rcases walk_kind dir walked with here | here | ⟨_, t, here⟩ <;>
  · rw [here]
    exact Option.some_ne_none _

theorem walk_error {errno : Error} (failed : walk fs follow links p a = .error errno) :
    errno = .ENOENT ∨ errno = .ENOTDIR ∨ errno = .ELOOP := by
  induction links, p, a using walk_induction fs with
  | nil =>
    rw [walk_nil] at failed
    cases failed
  | here links p rest ih =>
    rw [walk_dot] at failed
    exact ih failed
  | up links p rest ih =>
    rw [walk_up] at failed
    exact ih failed
  | name links p n rest not_dot not_up down through =>
    cases here : fs.kind (n :: p) with
    | none =>
      rw [walk_missing not_dot not_up here] at failed
      cases failed
      exact Or.inl rfl
    | some kind =>
      cases kind with
      | dir =>
        rw [walk_dir here] at failed
        exact down here failed
      | file =>
        rw [walk_file here] at failed
        split at failed
        · cases failed
        · cases failed
          exact Or.inr (Or.inl rfl)
      | link t =>
        by_cases last : rest = [] ∧ follow = false
        · obtain ⟨rfl, rfl⟩ := last
          rw [walk_last_link here] at failed
          cases failed
        · cases links with
          | zero =>
            rw [walk_loop here last] at failed
            cases failed
            exact Or.inr (Or.inr rfl)
          | succ links =>
            rw [walk_link here last] at failed
            exact through links t rfl here failed

/-! ### Short pathnames -/

theorem resolve_dot : resolve fs follow p dot = .ok p := walk_dot

theorem resolve_dotDot : resolve fs follow p dotDot = .ok p.tail := walk_up

theorem path_name (valid : ValidName n) : path n = [n] := by
  have inside : ¬ n.getLast? = some slash := by
    intro last
    exact valid.free (List.mem_of_getLast? last)
  rw [path, if_neg inside, List.append_nil, names_free valid.free valid.nonempty]

theorem resolve_name (valid : ValidName n) :
    resolve fs follow p n = walk fs follow MAXSYMLINKS p [n] := by
  have relative : ¬ n.head? = some slash := by
    intro first
    exact valid.free (List.mem_of_head? first)
  have short := valid.short
  unfold NAME_MAX at short
  have fits : ¬ PATH_MAX ≤ n.length := by
    unfold PATH_MAX
    omega
  rw [resolve, if_neg valid.nonempty, if_neg fits, start, if_neg relative, path_name valid]

/-! ### Absolute pathnames -/

theorem valid_names {k : Kind} (there : fs.kind p = some k) : ∀ n ∈ p, ValidName n := by
  induction p generalizing k with
  | nil => nofun
  | cons n p ih => exact List.forall_mem_cons.mpr ⟨fs.name there, ih (fs.parent there)⟩

theorem reaches_reverse (dir : fs.kind p = some .dir) : Reaches fs [] p.reverse 0 p [] := by
  induction p with
  | nil => exact .refl
  | cons n p ih =>
    rw [List.reverse_cons]
    exact (ih (fs.parent dir)).append.trans (.down dir .refl)

theorem names_absolute {k : Kind} (there : fs.kind p = some k) :
    names slash (absolute p) = p.reverse :=
  names_render fun n member =>
    have valid := valid_names there n (List.mem_reverse.mp member)
    ⟨valid.nonempty, valid.free⟩

theorem absolute_head : (absolute p).head? = some slash := by
  unfold absolute render
  cases p.reverse with
  | nil => rfl
  | cons n rest => rfl

theorem absolute_ne_nil : absolute p ≠ [] := by
  intro none
  have head := absolute_head (p := p)
  rw [none] at head
  cases head

/-- An absolute pathname leads back to its directory from anywhere. -/
theorem chdir_absolute (dir : fs.kind p = some .dir) (short : (absolute p).length < PATH_MAX) :
    chdir fs d (absolute p) = .ok p := by
  have down := (reaches_reverse dir).walk (m := MAXSYMLINKS)
    (c := if (absolute p).getLast? = some slash then [dot] else []) (Or.inl (Eq.refl true))
  have walked : resolve fs true d (absolute p) = .ok p := by
    unfold resolve
    rw [if_neg absolute_ne_nil, if_neg (Nat.not_le.mpr short), start, if_pos absolute_head, path,
      names_absolute dir]
    rw [Nat.zero_add, List.nil_append] at down
    rw [down]
    split
    · rw [walk_dot, walk_nil]
    · rw [walk_nil]
  unfold chdir
  rw [walked]
  exact if_pos dir

end FileSystem
