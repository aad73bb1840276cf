import TlpiExercises.C.Fault

/-!
# C strings

A `CStr` is the text of a `char *` up to its terminator. `strcmp` compares the bytes as
unsigned chars; its sign is the order in which the search trees keep their keys.
-/

namespace Tlpi

def NUL : UInt8 := 0

def NEWLINE : UInt8 := 10

def SPACE : UInt8 := 32

def COLON : UInt8 := 58

/-- `--help` -/
def HELP : List UInt8 := [45, 45, 104, 101, 108, 112]

/-- The bytes of a string before its NUL. -/
structure CStr where
  bytes : List UInt8
  nulFree : (0 : UInt8) ∉ bytes
  deriving DecidableEq

namespace CStr

@[ext] theorem ext {s t : CStr} (h : s.bytes = t.bytes) : s = t := by
  cases s
  cases t
  simpa using h

/-- The string that starts with these bytes: it ends at the first NUL, or behind the last one. -/
def ofBytes (bytes : List UInt8) : CStr where
  bytes := bytes.takeWhile (· ≠ 0)
  nulFree := fun h => by simpa using List.mem_takeWhile_imp h

theorem ofBytes_free {bytes : List UInt8} (free : (0 : UInt8) ∉ bytes) :
    (ofBytes bytes).bytes = bytes :=
  List.takeWhile_eq_self_iff.mpr fun _ member => decide_eq_true fun nul => free (nul ▸ member)

theorem ofBytes_bytes (s : CStr) : ofBytes s.bytes = s := ext (ofBytes_free s.nulFree)

/-- `strlen` -/
def length (s : CStr) : Nat := s.bytes.length

end CStr

/-- The bytes that `strcmp` looks at: both strings up to the first difference. The end of a
string counts as its NUL. -/
def strcmpBytes : List UInt8 → List UInt8 → Int
  | [], [] => 0
  | [], b :: _ => -(b.toNat : Int)
  | a :: _, [] => a.toNat
  | a :: s, b :: t => if a = b then strcmpBytes s t else (a.toNat : Int) - b.toNat

def strcmp (s t : CStr) : Int := strcmpBytes s.bytes t.bytes

theorem strcmpBytes_swap (s t : List UInt8) : strcmpBytes t s = -strcmpBytes s t := by
  induction s generalizing t with
  | nil => cases t <;> simp [strcmpBytes]
  | cons a s ih =>
    cases t with
    | nil => simp [strcmpBytes]
    | cons b t =>
      by_cases same : a = b
      · subst same
        simp [strcmpBytes, ih t]
      · have different : b ≠ a := Ne.symm same
        simp only [strcmpBytes, if_neg same, if_neg different]
        omega

theorem toNat_pos_of_ne_zero {b : UInt8} (h : b ≠ 0) : 0 < b.toNat := by
  rcases Nat.eq_zero_or_pos b.toNat with zero | positive
  · exact absurd (UInt8.toNat_inj.mp (zero.trans rfl)) h
  · exact positive

theorem strcmpBytes_eq_zero {s t : List UInt8} (hs : (0 : UInt8) ∉ s) (ht : (0 : UInt8) ∉ t) :
    strcmpBytes s t = 0 ↔ s = t := by
  induction s generalizing t with
  | nil =>
    cases t with
    | nil => simp [strcmpBytes]
    | cons b t =>
      have positive := toNat_pos_of_ne_zero (b := b) (by rintro rfl; simp at ht)
      simp only [strcmpBytes, reduceCtorEq, iff_false]
      omega
  | cons a s ih =>
    have positive := toNat_pos_of_ne_zero (b := a) (by rintro rfl; simp at hs)
    cases t with
    | nil =>
      simp only [strcmpBytes, reduceCtorEq, iff_false]
      omega
    | cons b t =>
      have hs' : (0 : UInt8) ∉ s := fun h => hs (List.mem_cons_of_mem _ h)
      have ht' : (0 : UInt8) ∉ t := fun h => ht (List.mem_cons_of_mem _ h)
      by_cases same : a = b
      · subst same
        simp [strcmpBytes, ih hs' ht']
      · have bytes : a.toNat ≠ b.toNat := fun h => same (UInt8.toNat_inj.mp h)
        have different : a :: s ≠ b :: t := fun h => same (List.cons.inj h).1
        rw [strcmpBytes, if_neg same, iff_false_right different]
        omega

theorem strcmpBytes_trans {s t u : List UInt8} (hs : (0 : UInt8) ∉ s) (ht : (0 : UInt8) ∉ t)
    (st : strcmpBytes s t ≤ 0) (tu : strcmpBytes t u ≤ 0) : strcmpBytes s u ≤ 0 := by
  induction s generalizing t u with
  | nil => cases u <;> simp [strcmpBytes]
  | cons a s ih =>
    cases t with
    | nil =>
      have positive := toNat_pos_of_ne_zero (b := a) (by rintro rfl; simp at hs)
      simp only [strcmpBytes] at st
      omega
    | cons b t =>
      have positive := toNat_pos_of_ne_zero (b := b) (by rintro rfl; simp at ht)
      cases u with
      | nil =>
        simp only [strcmpBytes] at tu
        omega
      | cons c u =>
        have ht' : (0 : UInt8) ∉ t := fun h => ht (List.mem_cons_of_mem _ h)
        have hs' : (0 : UInt8) ∉ s := fun h => hs (List.mem_cons_of_mem _ h)
        -- The first difference of `s` and `u` is the earlier one of the two given.
        by_cases ab : a = b
        · subst ab
          by_cases ac : a = c
          · subst ac
            simp only [strcmpBytes, if_true] at st tu ⊢
            exact ih hs' ht' st tu
          · simpa only [strcmpBytes, if_neg ac] using tu
        · by_cases bc : b = c
          · subst bc
            simpa only [strcmpBytes, if_neg ab] using st
          · have first : a.toNat ≠ b.toNat := fun h => ab (UInt8.toNat_inj.mp h)
            have second : b.toNat ≠ c.toNat := fun h => bc (UInt8.toNat_inj.mp h)
            simp only [strcmpBytes, if_neg ab, if_neg bc] at st tu ⊢
            have ac : a ≠ c := by rintro rfl; omega
            rw [if_neg ac]
            omega

/-! ### The order that `strcmp` decides -/

instance : LE CStr := ⟨fun s t => strcmp s t ≤ 0⟩

instance : LT CStr := ⟨fun s t => strcmp s t < 0⟩

theorem CStr.lt_iff {s t : CStr} : s < t ↔ strcmp s t < 0 := Iff.rfl

theorem CStr.le_iff {s t : CStr} : s ≤ t ↔ strcmp s t ≤ 0 := Iff.rfl

instance : DecidableRel ((· ≤ ·) : CStr → CStr → Prop) := fun s t => Int.decLe (strcmp s t) 0

instance : DecidableRel ((· < ·) : CStr → CStr → Prop) := fun s t => Int.decLt (strcmp s t) 0

theorem strcmp_swap (s t : CStr) : strcmp t s = -strcmp s t := strcmpBytes_swap s.bytes t.bytes

theorem strcmp_eq_zero {s t : CStr} : strcmp s t = 0 ↔ s = t :=
  (strcmpBytes_eq_zero s.nulFree t.nulFree).trans ⟨CStr.ext, fun h => by rw [h]⟩

theorem CStr.gt_iff {s t : CStr} : t < s ↔ 0 < strcmp s t := by
  rw [CStr.lt_iff, strcmp_swap]
  omega

instance : LinearOrder CStr where
  le_refl s := by rw [CStr.le_iff, strcmp_eq_zero.mpr rfl]
  le_trans s t u := strcmpBytes_trans s.nulFree t.nulFree
  le_antisymm s t st ts := by
    rw [CStr.le_iff] at st ts
    rw [strcmp_swap] at ts
    exact strcmp_eq_zero.mp (by omega)
  le_total s t := by
    rw [CStr.le_iff, CStr.le_iff, strcmp_swap]
    omega
  lt_iff_le_not_ge s t := by
    rw [CStr.lt_iff, CStr.le_iff, CStr.le_iff, strcmp_swap]
    omega
  toDecidableLE := inferInstance
  toDecidableLT := inferInstance
  toDecidableEq := inferInstance

/-- `strcpy` of a string into a buffer of `capacity` bytes. -/
def strcpy (capacity : Nat) (source : CStr) : Except Fault CStr :=
  if source.length < capacity then .ok source else .error .outOfBounds

def CStr.append (s t : CStr) : CStr where
  bytes := s.bytes ++ t.bytes
  nulFree := by simp [s.nulFree, t.nulFree]

def strcat (capacity : Nat) (dest source : CStr) : Except Fault CStr :=
  if dest.length + source.length < capacity then .ok (dest.append source) else .error .outOfBounds

theorem strcpy_fits {capacity : Nat} {source : CStr} (h : source.length < capacity) :
    strcpy capacity source = .ok source := if_pos h

theorem strcpy_overflow {capacity : Nat} {source : CStr} (h : capacity ≤ source.length) :
    strcpy capacity source = .error .outOfBounds := if_neg (Nat.not_lt.mpr h)

theorem strcpy_ok {capacity : Nat} {source copy : CStr} (h : strcpy capacity source = .ok copy) :
    copy = source ∧ source.length < capacity := by
  unfold strcpy at h
  split at h
  · rename_i fits
    exact ⟨(Except.ok.inj h).symm, fits⟩
  · cases h

theorem CStr.length_append {s t : CStr} : (s.append t).length = s.length + t.length :=
  List.length_append

end Tlpi
