import TlpiExercises.ThreadStorage.Model

/-!
# The parts of a path that the buffers hold

`dirname_ts` copies what stands before the last slash, and `basename_ts` what stands behind it. POSIX
treats slashes at the end, runs of them and paths without any apart.
-/

namespace Tlpi.ThreadStorage

open FileSystem Pathnames

variable {buf : Buf} {path : CStr} {source : Source} {cells l rest : List Byte} {c : Byte}
  {i j k n y : Nat}

/-- What stands before the last slash. -/
def front (s : List Byte) : List Byte := (s.rdropWhile (· ≠ slash)).dropLast

/-- What stands behind the last slash. -/
def base (s : List Byte) : List Byte := basePart slash s

/-! ### The loops -/

theorem baseLen_eq : baseLen n l = n + min ((l.takeWhile (· ≠ slash)).length + 1) l.length := by
  induction l generalizing n with
  | nil => rfl
  | cons c rest ih =>
    rw [baseLen, List.length_cons]
    by_cases here : c = slash
    · rw [if_pos here, List.takeWhile_cons_of_neg (by simpa using here), List.length_nil]
      omega
    · rw [if_neg here, ih, List.takeWhile_cons_of_pos (by simpa using here), List.length_cons]
      omega

theorem front_eq_take (s : List Byte) :
    s.take (s.length - min ((s.reverse.takeWhile (· ≠ slash)).length + 1) s.length) = front s := by
  have whole : s.rdropWhile (· ≠ slash) ++ s.rtakeWhile (· ≠ slash) = s :=
    List.rdropWhile_append_rtakeWhile
  have taken : (s.rtakeWhile (· ≠ slash)).length = (s.reverse.takeWhile (· ≠ slash)).length :=
    List.length_reverse
  have length := congrArg List.length whole
  rw [List.length_append, taken] at length
  rw [front]
  generalize s.rdropWhile (· ≠ slash) = u at whole length ⊢
  have count : s.length - min ((s.reverse.takeWhile (· ≠ slash)).length + 1) s.length =
      u.length - 1 := by omega
  rw [count, List.dropLast_eq_take]
  conv_lhs => rw [← whole]
  exact List.take_append_of_le_length (Nat.sub_le _ _)

/-- The bytes are put from `i` on, and a NUL behind them. -/
def write : Buf → Nat → List Byte → Buf
  | buf, i, [] => buf.set i 0
  | buf, i, c :: rest => write (buf.set i c) (i + 1) rest

theorem write_bytes (buf : Buf) (inside : i + cells.length < 256) :
    (write buf i cells).bytes =
      buf.bytes.take i ++ cells ++ 0 :: buf.bytes.drop (i + cells.length + 1) := by
  induction cells generalizing buf i with
  | nil =>
    rw [write, Buf.set, List.append_nil]
    exact List.set_eq_take_append_cons_drop.trans (if_pos (by rw [buf.size]; exact inside))
  | cons c rest ih =>
    rw [List.length_cons] at inside
    have here : (buf.set i c).bytes = buf.bytes.take i ++ [c] ++ buf.bytes.drop (i + 1) := by
      rw [List.append_assoc]
      exact List.set_eq_take_append_cons_drop.trans (if_pos (by rw [buf.size]; omega))
    have length : (buf.bytes.take i ++ [c]).length = i + 1 := by
      rw [List.length_append, List.length_take, buf.size, List.length_singleton]
      omega
    have before : (buf.set i c).bytes.take (i + 1) = buf.bytes.take i ++ [c] := by
      rw [here]
      exact List.take_left' length
    have behind : (buf.set i c).bytes.drop (i + 1 + rest.length + 1) =
        buf.bytes.drop (i + (rest.length + 1) + 1) := by
      have index : i + 1 + rest.length + 1 =
          (buf.bytes.take i ++ [c]).length + (rest.length + 1) := by omega
      rw [here, index, List.drop_length_add_append, List.drop_drop]
      congr 1
      omega
    rw [write, ih _ (by omega), before, behind, List.length_cons, List.append_assoc (_ ++ _),
      List.append_assoc, List.append_assoc]
    rfl

theorem get_set (buf : Buf) (i j : Nat) (c : Byte) :
    (buf.set i c).get j = if i = j ∧ i < 256 then c else buf.get j := by
  unfold Buf.get Buf.set
  dsimp only
  rw [List.getD_eq_getElem?_getD, List.getElem?_set, buf.size, List.getD_eq_getElem?_getD]
  by_cases same : i = j
  · subst same
    by_cases inside : i < 256
    · rw [if_pos rfl, if_pos inside, if_pos ⟨rfl, inside⟩]
      rfl
    · have short : buf.bytes.length ≤ i := by
        rw [buf.size]
        omega
      rw [if_pos rfl, if_neg inside, if_neg fun both => inside both.2, List.getElem?_eq_none short]
  · rw [if_neg same, if_neg fun both => same both.1]

/-- What is behind the byte that is set is read as before. -/
theorem char_set (behind : i < j) : source.char (buf.set i c) j = source.char buf j := by
  cases source with
  | outside path => rfl
  | inside offset => exact (get_set buf i (offset + j) c).trans (if_neg (by omega))

theorem char_string (within : j < (source.string buf).length) :
    source.char buf j = (source.string buf).bytes.getD j 0 := by
  cases source with
  | outside path => rfl
  | inside offset =>
    have found := List.prefix_iff_getElem?.mp
      (List.takeWhile_prefix (fun c : Byte => decide (c ≠ 0)) (l := buf.bytes.drop offset)) j within
    rw [List.getElem?_drop] at found
    rw [Source.char, Buf.get, List.getD_eq_getElem?_getD, found, List.getD_eq_getElem _ _ within]
    rfl

theorem copyFront_write (buf : Buf)
    (reads : ∀ j < cells.length, source.char buf (i + j) = cells.getD j 0) :
    copyFront source cells.length i buf = write buf i cells := by
  induction cells generalizing buf i with
  | nil => rfl
  | cons c rest ih =>
    have here : source.char buf i = c := reads 0 (Nat.succ_pos _)
    rw [List.length_cons, copyFront, write, here]
    refine ih _ fun j within => ?_
    rw [char_set (by omega), Nat.add_assoc, Nat.add_comm 1 j]
    exact reads (j + 1) (Nat.succ_lt_succ within)

theorem copyBase_outside (buf : Buf) (within : i ≤ path.bytes.length) :
    copyBase (.outside path) i y buf =
      write buf y ((path.bytes.take i).reverse.takeWhile (· ≠ slash)) := by
  induction i generalizing y buf with
  | zero => rfl
  | succ i ih =>
    have char : Source.char (.outside path) buf i = path.bytes[i] := List.getD_eq_getElem _ _ within
    rw [copyBase, char, List.take_succ_eq_append_getElem within, List.reverse_append,
      List.reverse_singleton, List.singleton_append]
    by_cases here : path.bytes[i] = slash
    · rw [if_pos here, List.takeWhile_cons_of_neg (by simpa using here)]
      rfl
    · rw [if_neg here, List.takeWhile_cons_of_pos (by simpa using here), write]
      exact ih _ (by omega)

/-- The copy ends with a NUL, and holds no slash. -/
theorem copyBase_ends (source : Source) (buf : Buf) (inside : y + i < 256) : ∃ k, y ≤ k ∧ k ≤ y + i ∧
    (copyBase source i y buf).get k = 0 ∧ (∀ j < y, (copyBase source i y buf).get j = buf.get j) ∧
      ∀ j < k, y ≤ j → (copyBase source i y buf).get j ≠ slash := by
  induction i generalizing y buf with
  | zero =>
    refine ⟨y, le_rfl, le_rfl, ?_, ?_, fun j before behind => absurd behind (by omega)⟩
    · rw [copyBase, get_set, if_pos ⟨rfl, by omega⟩]
    · intro j before
      rw [copyBase, get_set, if_neg (by omega)]
  | succ i ih =>
    rw [copyBase]
    by_cases here : source.char buf i = slash
    · rw [if_pos here]
      refine ⟨y, le_rfl, by omega, ?_, ?_, fun j before behind => absurd behind (by omega)⟩
      · rw [get_set, if_pos ⟨rfl, by omega⟩]
      · intro j before
        rw [get_set, if_neg (by omega)]
    · rw [if_neg here]
      obtain ⟨k, low, high, nul, kept, free⟩ := ih (buf.set y (source.char buf i)) (y := y + 1) (by omega)
      refine ⟨k, by omega, by omega, nul, ?_, ?_⟩
      · intro j before
        rw [kept j (by omega), get_set, if_neg (by omega)]
      · intro j before behind
        by_cases first : j = y
        · rw [first, kept y (by omega), get_set, if_pos ⟨rfl, by omega⟩]
          exact here
        · exact free j before (by omega)

theorem string_eq (bytes : buf.bytes = cells ++ 0 :: rest) (free : (0 : Byte) ∉ cells) :
    buf.string.bytes = cells := by
  have all : ∀ c ∈ cells, decide (c ≠ 0) = true := by
    intro c member
    refine decide_eq_true ?_
    rintro rfl
    exact free member
  unfold Buf.string CStr.ofBytes
  dsimp only
  rw [bytes, List.takeWhile_append_of_pos all]
  simp

theorem get_eq {pre post : List Byte} {c : Byte} (bytes : buf.bytes = pre ++ c :: post) :
    buf.get pre.length = c := by
  rw [Buf.get, bytes]
  simp

theorem set_eq {pre post : List Byte} {c d : Byte} (bytes : buf.bytes = pre ++ c :: post) :
    (buf.set pre.length d).bytes = pre ++ d :: post := by
  have cells : (buf.set pre.length d).bytes = buf.bytes.set pre.length d := rfl
  rw [cells, bytes]
  simp

/-- The swaps go from both ends to the middle. -/
theorem swapEnds_reverse {pre post : List Byte} {stop : Int}
    (bytes : buf.bytes = pre ++ (cells ++ post)) (last : stop = pre.length + cells.length - 1) :
    (swapEnds buf pre.length stop).bytes = pre ++ (cells.reverse ++ post) := by
  induction cells using List.bidirectionalRec generalizing buf pre post stop with
  | nil =>
    rw [List.length_nil] at last
    rw [swapEnds, if_neg (by omega), bytes]
    rfl
  | singleton c =>
    rw [List.length_singleton] at last
    rw [swapEnds, if_neg (by omega), bytes]
    rfl
  | cons_append a mid b ih =>
    rw [List.length_cons, List.length_append, List.length_singleton] at last
    have inner : buf.bytes = (pre ++ a :: mid) ++ b :: post := by
      rw [bytes]
      simp
    have ends : stop.toNat = (pre ++ a :: mid).length := by
      rw [List.length_append, List.length_cons]
      omega
    have same : (pre ++ b :: mid).length = (pre ++ a :: mid).length := by
      rw [List.length_append, List.length_append]
      rfl
    have right : buf.get stop.toNat = b := by
      rw [ends]
      exact get_eq inner
    have left : buf.get pre.length = a := get_eq bytes
    have once : (buf.set pre.length b).bytes = (pre ++ b :: mid) ++ b :: post := by
      rw [set_eq bytes]
      simp
    have twice : ((buf.set pre.length b).set stop.toNat a).bytes = (pre ++ b :: mid) ++ a :: post := by
      rw [ends, ← same]
      exact set_eq once
    have moved : ((buf.set pre.length b).set stop.toNat a).bytes =
        (pre ++ [b]) ++ (mid ++ a :: post) := by
      rw [twice]
      simp
    have longer : (pre ++ [b]).length = pre.length + 1 := by
      rw [List.length_append, List.length_singleton]
    have rest := ih moved (show stop - 1 = (pre ++ [b]).length + mid.length - 1 by omega)
    rw [longer] at rest
    rw [swapEnds, if_pos (by omega), right, left, rest]
    simp

/-! ### The buffers -/

theorem toInt_length {path : CStr} (short : path.length ≤ 255) : toInt path.length = path.length :=
  toInt_of_nonneg (Int.natCast_nonneg _) (by unfold INT_MAX; omega)

theorem nulFree_of_sublist (sublist : cells.Sublist path.bytes) : (0 : Byte) ∉ cells :=
  fun member => path.nulFree (sublist.subset member)

theorem front_part (s : List Byte) : front s <+: s := by
  rw [← front_eq_take]
  exact List.take_prefix _ _

/-- Even where the path lies in the buffer, what is read has not been written. -/
theorem dirnameInto_bytes (short : (source.string buf).length ≤ 255) :
    (dirnameInto (toInt (source.string buf).length) source buf).bytes =
      front (source.string buf).bytes ++
        0 :: buf.bytes.drop ((front (source.string buf).bytes).length + 1) := by
  have part := front_part (source.string buf).bytes
  have shorter : (front (source.string buf).bytes).length ≤ (source.string buf).length := part.length_le
  have count : (((source.string buf).length : Int) -
      baseLen 0 (source.string buf).bytes.reverse).toNat = (front (source.string buf).bytes).length := by
    rw [← front_eq_take, List.length_take, baseLen_eq, List.length_reverse, Nat.zero_add, CStr.length]
    omega
  have whole : (source.string buf).bytes.take (source.string buf).length = (source.string buf).bytes :=
    List.take_length
  have inside : 0 + (front (source.string buf).bytes).length < 256 := by omega
  rw [dirnameInto, toInt_length short, Int.toNat_natCast, whole, count, copyFront_write,
    write_bytes _ inside]
  · rw [List.take_zero, List.nil_append, Nat.zero_add]
  · intro j within
    have reads := part.getElem within
    rw [Nat.zero_add, char_string (within.trans_le shorter), List.getD_eq_getElem _ _ within, reads]
    exact List.getD_eq_getElem _ _ (within.trans_le shorter)

theorem dirnameInto_string (source : Source) (buf : Buf) (short : (source.string buf).length ≤ 255) :
    (dirnameInto (toInt (source.string buf).length) source buf).string.bytes =
      front (source.string buf).bytes :=
  string_eq (dirnameInto_bytes short) (nulFree_of_sublist (front_part _).sublist)

/-- A buffer that holds a string. -/
theorem string_bytes (terminated : 0 ∈ buf.bytes) :
    ∃ rest, buf.bytes = buf.string.bytes ++ 0 :: rest := by
  have split := List.takeWhile_append_dropWhile (p := fun c : Byte => decide (c ≠ 0)) (l := buf.bytes)
  cases behind : buf.bytes.dropWhile (fun c : Byte => decide (c ≠ 0)) with
  | nil => exact absurd rfl (of_decide_eq_true (List.dropWhile_eq_nil_iff.mp behind 0 terminated))
  | cons c rest =>
    have stops := List.head?_dropWhile_not (fun c : Byte => decide (c ≠ 0)) buf.bytes
    rw [behind] at split stops
    obtain rfl : c = 0 := by simpa using stops
    exact ⟨rest, split.symm⟩

/-- The swaps turn the string of the buffer around. -/
theorem swapEnds_bytes (bytes : buf.bytes = cells ++ 0 :: rest) (free : 0 ∉ cells) :
    (swapEnds buf 0 (toInt ((buf.string.length : Int) - 1))).bytes = cells.reverse ++ 0 :: rest := by
  have string : buf.string.length = cells.length := congrArg List.length (string_eq bytes free)
  have size := congrArg List.length bytes
  rw [buf.size, List.length_append, List.length_cons] at size
  have last : toInt ((buf.string.length : Int) - 1) =
      ([] : List Byte).length + cells.length - 1 := by
    rw [string, toInt_small (by unfold INT_MIN; omega) (by unfold INT_MAX; omega), List.length_nil]
    omega
  have whole : buf.bytes = [] ++ (cells ++ 0 :: rest) := bytes
  exact swapEnds_reverse whole last

theorem copyBase_terminated (source : Source) (buf : Buf) (inside : n < 256) :
    0 ∈ (copyBase source n 0 buf).bytes := by
  obtain ⟨k, _, high, nul, _⟩ := copyBase_ends source buf (show 0 + n < 256 by omega)
  have short : k < (copyBase source n 0 buf).bytes.length := by
    rw [(copyBase source n 0 buf).size]
    omega
  rw [Buf.get, List.getD_eq_getElem _ _ short] at nul
  rw [← nul]
  exact List.getElem_mem short

/-- The string that the copy has left is turned around. -/
theorem basenameInto_bytes (source : Source) (short : n ≤ 255) (buf : Buf) : ∃ rest,
    (basenameInto (toInt n) source buf).bytes =
      (copyBase source n 0 buf).string.bytes.reverse ++ 0 :: rest := by
  have length : toInt n = n := toInt_of_nonneg (Int.natCast_nonneg _) (by unfold INT_MAX; omega)
  obtain ⟨rest, bytes⟩ := string_bytes (copyBase_terminated source buf (Nat.lt_succ_of_le short))
  have swapped := swapEnds_bytes bytes (copyBase source n 0 buf).string.nulFree
  rw [basenameInto, length, Int.toNat_natCast]
  exact ⟨rest, swapped⟩

theorem basenameInto_reverse (short : n ≤ 255) (buf : Buf) :
    (basenameInto (toInt n) source buf).string.bytes = (copyBase source n 0 buf).string.bytes.reverse := by
  obtain ⟨rest, bytes⟩ := basenameInto_bytes source short buf
  refine string_eq bytes fun member => ?_
  exact (copyBase source n 0 buf).string.nulFree (List.mem_reverse.mp member)

theorem basenameInto_string (short : path.length ≤ 255) (buf : Buf) :
    (basenameInto (toInt path.length) (.outside path) buf).string.bytes = base path.bytes := by
  have reversed : (path.bytes.take path.bytes.length).reverse.takeWhile (· ≠ slash) =
      (base path.bytes).reverse := by
    rw [List.take_length]
    exact (List.reverse_reverse _).symm
  have copy : copyBase (.outside path) path.length 0 buf = write buf 0 (base path.bytes).reverse := by
    rw [CStr.length, copyBase_outside buf le_rfl, reversed]
  have part : (base path.bytes).Sublist path.bytes := (List.rtakeWhile_suffix _ _).sublist
  have shorter : (base path.bytes).length ≤ path.length := part.length_le
  have inside : 0 + (base path.bytes).reverse.length < 256 := by
    rw [List.length_reverse]
    omega
  have bytes := write_bytes buf inside
  rw [List.take_zero, List.nil_append] at bytes
  have string := string_eq bytes fun member => nulFree_of_sublist part (List.mem_reverse.mp member)
  rw [basenameInto_reverse short, copy, string, List.reverse_reverse]

/-! ### dirname and basename -/

variable {s f b : List Byte}

theorem slash_split (member : slash ∈ s) : s = front s ++ slash :: base s := by
  have whole := before_append_base slash s
  have nonempty : s.rdropWhile (· ≠ slash) ≠ [] := by
    intro none
    have other := List.rdropWhile_eq_nil_iff.mp none slash member
    exact of_decide_eq_true other rfl
  have last := List.rdropWhile_last_not _ _ nonempty
  have split := List.dropLast_append_getLast nonempty
  have same : (s.rdropWhile (· ≠ slash)).getLast nonempty = slash := by simpa using last
  rw [same] at split
  conv_lhs => rw [← whole, ← split, List.append_assoc]
  rfl

theorem split_parts (free : slash ∉ b) :
    (f ++ slash :: b).rdropWhile (· ≠ slash) = f ++ [slash] ∧
      (f ++ slash :: b).rtakeWhile (· ≠ slash) = b := by
  have all : ∀ c ∈ b.reverse, decide (c ≠ slash) = true := by
    intro c member
    refine decide_eq_true ?_
    rintro rfl
    exact free (List.mem_reverse.mp member)
  have reversed : (f ++ slash :: b).reverse = b.reverse ++ slash :: f.reverse := by simp
  constructor
  · rw [List.rdropWhile, reversed, List.dropWhile_append_of_pos all]
    simp
  · rw [List.rtakeWhile, reversed, List.takeWhile_append_of_pos all]
    simp

theorem front_split (free : slash ∉ b) : front (f ++ slash :: b) = f := by
  rw [front, (split_parts free).1, List.dropLast_concat]

theorem base_split (free : slash ∉ b) : base (f ++ slash :: b) = b := (split_parts free).2

theorem front_free (free : slash ∉ s) : front s = [] := by
  have none : s.rdropWhile (· ≠ slash) = [] := by
    refine List.rdropWhile_eq_nil_iff.mpr fun c member => decide_eq_true ?_
    rintro rfl
    exact free member
  rw [front, none]
  rfl

theorem last_split (free : slash ∉ b) (some_name : b ≠ []) :
    withoutSlashes (f ++ slash :: b) = f ++ slash :: b := by
  have last : (f ++ slash :: b).getLast? = some (b.getLast some_name) := by
    rw [List.getLast?_append, List.getLast?_cons, List.getLast?_eq_some_getLast some_name]
    rfl
  refine withoutSlashes_eq last ?_
  intro same
  exact free (same ▸ List.getLast_mem some_name)

/-- The directory and the name of a path that does not end with a slash. -/
theorem dirname_split (free : slash ∉ b) (some_name : b ≠ []) :
    dirname (f ++ slash :: b) =
      if f.rdropWhile (· = slash) = [] then [slash] else f.rdropWhile (· = slash) := by
  have nonempty : f ++ slash :: b ≠ [] := by simp
  have member : slash ∈ f ++ slash :: b := List.mem_append_right _ List.mem_cons_self
  have part : dirPart slash (f ++ slash :: b) = f.rdropWhile (· = slash) := by
    rw [dirPart, (split_parts free).1]
    exact List.rdropWhile_concat_pos _ _ _ (decide_eq_true rfl)
  unfold dirname
  dsimp only
  rw [last_split free some_name, if_neg nonempty, if_neg (not_not.mpr member), part]

theorem basename_split (free : slash ∉ b) (some_name : b ≠ []) : basename (f ++ slash :: b) = b := by
  have nonempty : f ++ slash :: b ≠ [] := by simp
  unfold basename
  dsimp only
  rw [last_split free some_name, if_neg nonempty]
  exact base_split free

theorem basename_ne_nil (s : List Byte) : basename s ≠ [] := by
  unfold basename
  dsimp only
  by_cases none : withoutSlashes s = []
  · rw [if_pos none]
    split
    · exact List.cons_ne_nil _ _
    · exact List.cons_ne_nil _ _
  · rw [if_neg none]
    have other := List.rdropWhile_last_not _ _ none
    refine basePart_ne_nil (List.getLast?_eq_some_getLast none) fun same => ?_
    exact other (decide_eq_true same)

theorem dirname_ne_nil (s : List Byte) : dirname s ≠ [] := by
  unfold dirname
  dsimp only
  split_ifs with _ _ _ some_part
  · exact List.cons_ne_nil _ _
  · exact List.cons_ne_nil _ _
  · exact List.cons_ne_nil _ _
  · exact some_part
  · exact List.cons_ne_nil _ _

/-- Both functions return what POSIX says. -/
def Posix (path : CStr) (s : Tls) : Prop :=
  (Tls.dirnameTs path s).1.text (Tls.dirnameTs path s).2.read = some (dirname path.bytes) ∧
    (Tls.basenameTs path s).1.text (Tls.basenameTs path s).2.read = some (basename path.bytes)

theorem text_buffer {B : Type} (read : B → CStr) (b : B) :
    (Returned.buffer b).text read = some (read b).bytes := rfl

section Fill

variable {S B : Type} [DecidableEq B] {content : S → B → Buf} {pointer : Pointer B} {s : S}

theorem source_string (b : B) :
    (pointer.source (content s) b).string (content s b) = pointer.text (content s) := by
  cases pointer with
  | string path => rfl
  | buffer b' offset =>
    unfold Pointer.source
    dsimp only
    split
    next same =>
      rw [← same]
      rfl
    next => rfl

theorem fill_buffer (modify : S → B → (Buf → Buf) → S) (into : Int → Source → Buf → Buf)
    (pointer : Pointer B) (some_path : (pointer.text (content s)).length ≠ 0)
    (short : (pointer.text (content s)).length ≤ 255) (b : B) :
    fill content modify into pointer b s = (.buffer b,
      modify s b (into (toInt (pointer.text (content s)).length) (pointer.source (content s) b))) := by
  have length := toInt_length short
  rw [fill, if_neg (by omega), if_neg (by omega)]

theorem fill_literal (modify : S → B → (Buf → Buf) → S) (into : Int → Source → Buf → Buf)
    (pointer : Pointer B) (empty : (pointer.text (content s)).length = 0) (b : B) :
    fill content modify into pointer b s = (.literal, s) := by
  have short : (pointer.text (content s)).length ≤ 255 := by omega
  have length := toInt_length short
  rw [fill, if_pos (by omega)]

end Fill

theorem read_modify (s : Tls) (b : Static) (f : Buf → Buf) :
    (s.modify b f).read b = (f (s.get b)).string := by
  cases b
  · rfl
  · rfl

/-- A function of the first version returns the string that it puts into its buffer. -/
theorem fill_text {into : Int → Source → Buf → Buf} {result : List Byte → List Byte}
    (nothing : result [] = []) (short : path.length ≤ 255)
    (string : ∀ buf, (into (toInt path.length) (.outside path) buf).string.bytes = result path.bytes)
    (b : Static) (s : Tls) :
    (fill Tls.get Tls.modify into path b s).1.text (fill Tls.get Tls.modify into path b s).2.read =
      some (result path.bytes) := by
  by_cases empty : path.length = 0
  · have none : path.bytes = [] := List.length_eq_zero_iff.mp empty
    rw [fill_literal Tls.modify into (.string path) empty, none, nothing]
    rfl
  · rw [fill_buffer Tls.modify into (.string path) empty short, text_buffer, read_modify]
    exact congrArg some (string _)

theorem dirnameTs_text (short : path.length ≤ 255) (s : Tls) :
    (Tls.dirnameTs path s).1.text (Tls.dirnameTs path s).2.read = some (front path.bytes) := by
  rw [Tls.dirnameTs]
  exact fill_text rfl short (fun buf => dirnameInto_string (.outside path) buf short) .dirnBuf s

theorem basenameTs_text (short : path.length ≤ 255) (s : Tls) :
    (Tls.basenameTs path s).1.text (Tls.basenameTs path s).2.read = some (base path.bytes) := by
  rw [Tls.basenameTs]
  exact fill_text rfl short (basenameInto_string short) .basnBuf s

/-- The functions are right for a name behind a single slash, with a directory in front that is the
root or does not end with a slash. -/
theorem posix_iff (path : CStr) (short : path.length ≤ 255) (s : Tls) :
    Posix path s ↔ ∃ f b, path.bytes = f ++ slash :: b ∧ slash ∉ b ∧ b ≠ [] ∧ f ≠ [] ∧
      (f = [slash] ∨ f.getLast? ≠ some slash) := by
  rw [Posix, dirnameTs_text short, basenameTs_text short, Option.some.injEq, Option.some.injEq]
  constructor
  · rintro ⟨directory, name⟩
    have some_front : front path.bytes ≠ [] := directory ▸ dirname_ne_nil _
    have some_base : base path.bytes ≠ [] := name ▸ basename_ne_nil _
    have member : slash ∈ path.bytes := by
      by_contra free
      exact some_front (front_free free)
    have free : slash ∉ base path.bytes := basePart_free
    have split := slash_split member
    refine ⟨_, _, split, free, some_base, some_front, ?_⟩
    have expected : dirname path.bytes = _ := (congrArg dirname split).trans (dirname_split free some_base)
    rw [← directory] at expected
    by_cases root : (front path.bytes).rdropWhile (· = slash) = []
    · rw [if_pos root] at expected
      exact Or.inl expected
    · rw [if_neg root] at expected
      refine Or.inr ?_
      rw [List.getLast?_eq_some_getLast some_front]
      intro last
      have other := List.rdropWhile_eq_self_iff.mp expected.symm some_front
      exact other (decide_eq_true (Option.some.inj last))
  · rintro ⟨f, b, split, free, some_base, some_front, plain⟩
    rw [split, front_split free, base_split free, dirname_split free some_base,
      basename_split free some_base]
    refine ⟨?_, rfl⟩
    rcases plain with rfl | other
    · rfl
    · have itself : f.rdropWhile (· = slash) = f := by
        refine List.rdropWhile_eq_self_iff.mpr fun nonempty last => other ?_
        rw [List.getLast?_eq_some_getLast nonempty, of_decide_eq_true last]
      rw [itself, if_neg some_front]

/-- `a/b` -/
theorem posix_name : Posix ⟨[97, 47, 98], by decide⟩ Tls.initial :=
  (posix_iff _ (by decide) Tls.initial).mpr ⟨[97], [98], rfl, by decide, by decide, by decide, by decide⟩

/-- `a` has no directory in it, for which POSIX says `.`. -/
theorem no_slash_empty : ¬ ∀ (path : CStr) (_ : path.length ≤ 255) (s : Tls), Posix path s := by
  intro all
  have right := all ⟨[97], by decide⟩ (by decide) Tls.initial
  rw [Posix, dirnameTs_text (by decide)] at right
  exact absurd right.1 (by decide)

end Tlpi.ThreadStorage
