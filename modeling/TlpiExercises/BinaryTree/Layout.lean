import TlpiExercises.BinaryTree.FiniteMap
import TlpiExercises.BinaryTree.Print

/-!
# The picture that bt_print draws

Where the labels start on the screen: a newline goes to the start of the next line, every other
byte one column on. `space_count` is the column of the cell that is being printed, as far as an
int holds it.
-/

namespace Tlpi.BinaryTree

open LinkTree

structure Position where
  line : Nat
  column : Nat
  deriving DecidableEq, Repr

def Position.put (pos : Position) (c : UInt8) : Position :=
  if c = 10 then ⟨pos.line + 1, 0⟩ else ⟨pos.line, pos.column + 1⟩

def Position.advance (pos : Position) (text : List UInt8) : Position := text.foldl Position.put pos

/-- The keys in the order they are printed, with the places where their labels start. -/
def places : Position → List Printed → List (Option CStr × Position)
  | _, [] => []
  | pos, e :: rest => (some e.key, pos.advance e.before) :: places (pos.advance e.text) rest

/-! ### Where the labels belong -/

variable {V : Type}

/-- The cells, a node before its right subtree and that before its left subtree. -/
def printOrder : BTNode V → List Slot
  | .null => []
  | .node left right _ _ =>
    [] :: ((printOrder right).map (.right :: ·) ++ (printOrder left).map (.left :: ·))

def keyAt (root : BTNode V) (slot : Slot) : Option CStr :=
  match root.deref slot with
  | some (.node _ _ key _) => key
  | _ => none

/-- The widths of the labels of the ancestors from which the way to the cell goes right. -/
def column : BTNode V → Slot → Nat
  | .node _ right (some key) _, .right :: slot => (label key).length + column right slot
  | .node left _ _ _, .left :: slot => column left slot
  | _, _ => 0

theorem mem_printOrder {root : BTNode V} {slot : Slot} :
    slot ∈ printOrder root ↔ ∃ left right key value,
      root.deref slot = some (.node left right key value) := by
  induction slot generalizing root with
  | nil =>
    cases root with
    | null => simp [printOrder]
    | node left right key value => simp [printOrder]
  | cons d slot ih =>
    cases root with
    | null => simp [printOrder, deref]
    | node left right key value =>
      cases d with
      | left => simpa [printOrder, deref] using ih
      | right => simpa [printOrder, deref] using ih

theorem printOrder_nodup (root : BTNode V) : (printOrder root).Nodup := by
  induction root with
  | null => exact List.nodup_nil
  | node left right key value ihl ihr =>
    rw [printOrder, List.nodup_cons, List.nodup_append]
    refine ⟨by simp, ihr.map (List.cons_injective), ihl.map (List.cons_injective), ?_⟩
    simp

/-- Every cell is printed once, in print order and in its column; right children stand on the
line of their parent, left children on a line of their own; and `space_count` is back at 0. -/
def DrawsTree (root : BTNode V) : Prop :=
  ∃ (output : Output) (line : Slot → Nat), btPrint (fun _ => true) ⟨root⟩ 0 = .ok (0, output) ∧
    places ⟨0, 0⟩ output.printed =
      (printOrder root).map (fun slot => (keyAt root slot, ⟨line slot, column root slot⟩)) ∧
    (∀ slot, slot ++ [.right] ∈ printOrder root → line (slot ++ [.right]) = line slot) ∧
    (printOrder root).Pairwise
      (fun earlier slot => slot.getLast? = some .left → line earlier < line slot)

/-- Every cell has its key. A cell with a right child has no newline in its key and a label that
fits into `buf`; a cell with a left child is at a column that an int holds. -/
def Printable : BTNode V → Nat → Prop
  | .null, _ => True
  | .node left right nodeKey _, column => ∃ key, nodeKey = some key ∧
      (right ≠ .null → 10 ∉ key.bytes ∧ (label key).length < LABEL_MAX) ∧
      Printable right (column + (label key).length) ∧
      (left ≠ .null → (column : Int) < INT_MAX) ∧ Printable left column

/-! ### Moving over text -/

theorem advance_append (pos : Position) (s t : List UInt8) :
    pos.advance (s ++ t) = (pos.advance s).advance t := List.foldl_append

theorem advance_line (pos : Position) (text : List UInt8) :
    (pos.advance text).line = pos.line + text.count 10 := by
  induction text generalizing pos with
  | nil => rfl
  | cons c text ih =>
    show ((pos.put c).advance text).line = _
    rw [ih, List.count_cons]
    by_cases newline : c = 10
    · simp [Position.put, newline]
      omega
    · simp [Position.put, newline]

theorem advance_row {pos : Position} {text : List UInt8} (row : 10 ∉ text) :
    pos.advance text = ⟨pos.line, pos.column + text.length⟩ := by
  induction text generalizing pos with
  | nil => rfl
  | cons c text ih =>
    have other : c ≠ 10 := fun same => row (same ▸ List.mem_cons_self)
    show (pos.put c).advance text = _
    rw [ih fun member => row (List.mem_cons_of_mem _ member), Position.put, if_neg other]
    simp only [List.length_cons, Position.mk.injEq, true_and]
    omega

theorem advance_lead (pos : Position) (n : Nat) :
    pos.advance (10 :: List.replicate n 32) = ⟨pos.line + 1, n⟩ := by
  show (pos.put 10).advance (List.replicate n 32) = _
  rw [advance_row (by simp)]
  simp [Position.put]

theorem count_label (key : CStr) : (label key).count 10 = key.bytes.count 10 := by
  simp [label]

theorem newline_label {key : CStr} : 10 ∈ label key ↔ 10 ∈ key.bytes := by
  simp [label]

theorem places_append (pos : Position) (first second : List Printed) :
    places pos (first ++ second) =
      places pos first ++ places (pos.advance (first.flatMap Printed.text)) second := by
  induction first generalizing pos with
  | nil => rfl
  | cons e first ih =>
    simp only [List.cons_append, places, ih, List.flatMap_cons, advance_append]

theorem places_length (pos : Position) (printed : List Printed) :
    (places pos printed).length = printed.length := by
  induction printed generalizing pos with
  | nil => rfl
  | cons e rest ih => simp [places, ih]

/-! ### The lines -/

/-- The newlines from the start of a cell's label to the end of its subtree. -/
def newlines : BTNode V → Nat
  | .null => 0
  | .node left right key _ =>
    (key.elim 0 fun k => k.bytes.count 10) + newlines right +
      if left.isNull then 0 else newlines left + 1

def lineOf : BTNode V → Slot → Nat
  | .node _ right key _, .right :: slot => (key.elim 0 fun k => k.bytes.count 10) + lineOf right slot
  | .node left right key _, .left :: slot =>
    (key.elim 0 fun k => k.bytes.count 10) + newlines right + 1 + lineOf left slot
  | _, _ => 0

theorem lineOf_le {node : BTNode V} {slot : Slot} (member : slot ∈ printOrder node) :
    lineOf node slot ≤ newlines node := by
  induction node generalizing slot with
  | null => cases member
  | node left right key value ihl ihr =>
    rw [printOrder, List.mem_cons, List.mem_append, List.mem_map, List.mem_map] at member
    rcases member with rfl | ⟨s, inside, rfl⟩ | ⟨s, inside, rfl⟩
    · exact Nat.zero_le _
    · have below := ihr inside
      simp only [lineOf, newlines]
      omega
    · have below := ihl inside
      have nonempty : left.isNull = false := by
        cases left with
        | null => cases inside
        | node => rfl
      simp only [lineOf, newlines, nonempty, Bool.false_eq_true, if_false]
      omega

theorem lineOf_right {node : BTNode V} {col : Nat} (printable : Printable node col) {slot : Slot}
    (member : slot ++ [.right] ∈ printOrder node) :
    lineOf node (slot ++ [.right]) = lineOf node slot := by
  induction slot generalizing node col with
  | nil =>
    cases node with
    | null => cases member
    | node left right nodeKey value =>
      obtain ⟨key, rfl, single, _⟩ := printable
      have nonempty : right ≠ .null := by
        rintro rfl
        simp [printOrder] at member
      have none := List.count_eq_zero.mpr (single nonempty).1
      cases right with
      | null => exact absurd rfl nonempty
      | node => simp [lineOf, none]
  | cons d slot ih =>
    cases node with
    | null => cases member
    | node left right nodeKey value =>
      obtain ⟨key, rfl, _, printableRight, _, printableLeft⟩ := printable
      cases d with
      | left =>
        have inside : slot ++ [.right] ∈ printOrder left := by simpa [printOrder] using member
        simp only [List.cons_append, lineOf, ih printableLeft inside]
      | right =>
        have inside : slot ++ [.right] ∈ printOrder right := by simpa [printOrder] using member
        simp only [List.cons_append, lineOf, ih printableRight inside]

theorem lineOf_left {node : BTNode V} {slot : Slot} (left : slot.getLast? = some .left)
    (member : slot ∈ printOrder node) : 0 < lineOf node slot := by
  induction slot generalizing node with
  | nil => cases left
  | cons d slot ih =>
    cases node with
    | null => cases member
    | node l r key value =>
      cases d with
      | left =>
        simp only [lineOf]
        omega
      | right =>
        have inside : slot ∈ printOrder r := by simpa [printOrder] using member
        have last : slot.getLast? = some .left := by
          cases slot with
          | nil => cases left
          | cons e slot => simpa using left
        have below := ih last inside
        simp only [lineOf]
        omega

/-- What holds in a subtree of two cells in their order, a cell above. -/
theorem later_below {node child : BTNode V} {d : Dir} {above : Nat}
    (lines : ∀ slot, lineOf node (d :: slot) = above + lineOf child slot) {earlier slot : Slot}
    (inside : slot ≠ [] ∧ (slot.getLast? = some .left → lineOf child earlier < lineOf child slot)) :
    d :: slot ≠ [] ∧
      ((d :: slot).getLast? = some .left → lineOf node (d :: earlier) < lineOf node (d :: slot)) := by
  obtain ⟨below, later⟩ := inside
  refine ⟨List.cons_ne_nil _ _, fun last => ?_⟩
  have before := later ((List.getLast?_cons_of_ne_nil below).symm.trans last)
  rw [lines, lines]
  omega

/-- The root comes first and only there; a left child starts below everything before it. -/
theorem printOrder_lines (node : BTNode V) :
    (printOrder node).Pairwise (fun earlier slot => slot ≠ [] ∧
      (slot.getLast? = some .left → lineOf node earlier < lineOf node slot)) := by
  induction node with
  | null => exact List.Pairwise.nil
  | node left right key value ihl ihr =>
    rw [printOrder, List.pairwise_cons, List.pairwise_append, List.pairwise_map, List.pairwise_map]
    refine ⟨?_, ihr.imp (later_below fun _ => rfl), ihl.imp (later_below fun _ => rfl), ?_⟩
    · intro slot member
      refine ⟨?_, fun last => lineOf_left last ?_⟩
      · rintro rfl
        simp at member
      · rw [printOrder]
        exact List.mem_cons_of_mem _ member
    · intro earlier inRight slot inLeft
      obtain ⟨s, inside, rfl⟩ := List.mem_map.mp inRight
      obtain ⟨t, _, rfl⟩ := List.mem_map.mp inLeft
      refine ⟨List.cons_ne_nil _ _, fun _ => ?_⟩
      have above := lineOf_le inside
      simp only [lineOf]
      omega

/-! ### What one call draws -/

/-- The labels of a subtree whose first one starts here. -/
def cells (node : BTNode V) (line col : Nat) : List (Option CStr × Position) :=
  (printOrder node).map fun slot =>
    (keyAt node slot, ⟨line + lineOf node slot, col + column node slot⟩)

theorem cells_node (left right : BTNode V) (key : CStr) (value : V) (line col : Nat) :
    cells (.node left right (some key) value) line col =
      (some key, ⟨line, col⟩) ::
        (cells right (line + key.bytes.count 10) (col + (label key).length) ++
          cells left (line + key.bytes.count 10 + newlines right + 1) col) := by
  simp only [cells, printOrder, List.map_cons, List.map_append, List.map_map]
  congr 2
  · apply List.map_congr_left
    intro slot _
    simp [keyAt, deref, lineOf, column, Nat.add_assoc]
  · apply List.map_congr_left
    intro slot _
    simp [keyAt, deref, lineOf, column, Nat.add_assoc]

def startLine (t : Traversal) (pos : Position) : Nat :=
  if t = .LEFT_TRAVERSAL then pos.line + 1 else pos.line

theorem leadIn_draws {p : Printer} {t : Traversal} {col : Nat} (count : p.spaceCount = toInt col)
    (room : t = .LEFT_TRAVERSAL → (col : Int) < INT_MAX) :
    ∃ before, leadIn (fun _ => true) p t = .ok (some before) ∧
      ∀ pos : Position, (t ≠ .LEFT_TRAVERSAL → pos.column = col) →
        pos.advance before = ⟨startLine t pos, col⟩ := by
  cases t with
  | ROOT =>
    refine ⟨[], rfl, fun pos placed => ?_⟩
    rw [← placed (by simp)]
    rfl
  | RIGHT_TRAVERSAL =>
    refine ⟨[], rfl, fun pos placed => ?_⟩
    rw [← placed (by simp)]
    rfl
  | LEFT_TRAVERSAL =>
    have below := room rfl
    have exact_ : toInt col = col := toInt_of_nonneg (by omega) below.le
    have size : toInt (col + 1) = col + 1 := toInt_of_nonneg (by omega) (by omega)
    rw [exact_] at count
    refine ⟨10 :: List.replicate col 32, ?_, fun pos _ => ?_⟩
    · have enough : ¬ ((col : Int) + 1 < 0 ∨ true = false) := by simp; omega
      have positive : ¬ (col : Int) < 0 := by omega
      simp only [leadIn, count, size, if_neg enough, if_neg positive, Int.toNat_natCast]
      rfl
    · rw [advance_lead, startLine, if_pos rfl]

/-- `rest` is printed from `p` to `q` and the static variable is as before. -/
structure Prints (p q : Printer) (rest : List Printed) : Prop where
  count : q.spaceCount = p.spaceCount
  out : q.out = p.out ++ rest

/-- A call draws its subtree. -/
def Draws (node : BTNode V) (t : Traversal) (col : Nat) (p : Printer) : Prop :=
  ∃ q rest, btPrintRec (fun _ => true) node t p = .ok q ∧ Prints p q rest ∧
    ∀ pos : Position, (t ≠ .LEFT_TRAVERSAL → pos.column = col) →
      places pos rest = cells node (startLine t pos) col ∧
        (pos.advance (rest.flatMap Printed.text)).line = startLine t pos + newlines node

theorem right_draws {right : BTNode V} {key : CStr} {col : Nat} {p : Printer}
    (single : right ≠ .null → 10 ∉ key.bytes ∧ (label key).length < LABEL_MAX)
    (count : p.spaceCount = toInt col)
    (ih : right ≠ .null → Draws right .RIGHT_TRAVERSAL (col + (label key).length)
      (p.shift (label key).length)) :
    ∃ mid rest, PrintsRight (fun _ => true) right key p mid ∧ Prints p mid rest ∧
      ∀ line, places ((⟨line, col⟩ : Position).advance (label key)) rest =
          cells right (line + key.bytes.count 10) (col + (label key).length) ∧
        (((⟨line, col⟩ : Position).advance (label key)).advance
          (rest.flatMap Printed.text)).line = line + key.bytes.count 10 + newlines right := by
  by_cases empty : right = .null
  · subst empty
    refine ⟨p, [], Or.inl ⟨rfl, rfl⟩, ⟨rfl, by simp⟩, fun line => ⟨rfl, ?_⟩⟩
    show ((⟨line, col⟩ : Position).advance (label key)).line = _
    rw [advance_line, count_label]
    rfl
  · obtain ⟨row, fits⟩ := single empty
    obtain ⟨r, rest, call, prints, drawn⟩ := ih empty
    refine ⟨r.shift (-(label key).length), rest, Or.inr ⟨empty, fits, r, call, rfl⟩,
      ⟨?_, prints.out⟩, fun line => ?_⟩
    · rw [shift_spaceCount, prints.count, shift_spaceCount, toInt_add, Int.add_neg_cancel_right,
        count, toInt_toInt]
    · have none : key.bytes.count 10 = 0 := List.count_eq_zero.mpr row
      rw [advance_row (newline_label.not.mpr row), none]
      exact drawn ⟨line, col + (label key).length⟩ fun _ => rfl

theorem left_draws {left : BTNode V} {col : Nat} {p : Printer}
    (ih : left ≠ .null → Draws left .LEFT_TRAVERSAL col p) :
    ∃ q rest, PrintsLeft (fun _ => true) left p q ∧ Prints p q rest ∧
      ∀ pos : Position, places pos rest = cells left (pos.line + 1) col ∧
        (pos.advance (rest.flatMap Printed.text)).line =
          pos.line + if left.isNull then 0 else newlines left + 1 := by
  by_cases empty : left = .null
  · subst empty
    exact ⟨p, [], Or.inl ⟨rfl, rfl⟩, ⟨rfl, by simp⟩, fun pos => ⟨rfl, rfl⟩⟩
  · obtain ⟨q, rest, call, prints, drawn⟩ := ih empty
    refine ⟨q, rest, Or.inr ⟨empty, call⟩, prints, fun pos => ?_⟩
    obtain ⟨labels, last⟩ := drawn pos fun other => absurd rfl other
    rw [startLine, if_pos rfl] at labels last
    refine ⟨labels, ?_⟩
    rw [last, if_neg (isNull_iff.not.mpr empty)]
    omega

theorem btPrintRec_draws {node : BTNode V} {col : Nat} (printable : Printable node col)
    (nonempty : node ≠ .null) {t : Traversal} {p : Printer} (count : p.spaceCount = toInt col)
    (room : t = .LEFT_TRAVERSAL → (col : Int) < INT_MAX) : Draws node t col p := by
  induction node generalizing col t p with
  | null => exact absurd rfl nonempty
  | node left right nodeKey value ihl ihr =>
    obtain ⟨key, rfl, single, printableRight, inRange, printableLeft⟩ := printable
    obtain ⟨before, lead, start⟩ := leadIn_draws count room
    have labelled : ((p.allocated t).printf before key).spaceCount = toInt col := by simpa using count
    obtain ⟨mid, rest, first, prints, drawn⟩ := right_draws single labelled fun full =>
      ihr printableRight full (by rw [shift_spaceCount, labelled, toInt_add]; rfl) (by simp)
    obtain ⟨q, rest', second, prints', drawn'⟩ := left_draws fun full =>
      ihl printableLeft full (prints.count.trans labelled) fun _ => inRange full
    refine ⟨q, ⟨before, key⟩ :: (rest ++ rest'),
      btPrintRec_ok_iff.mpr (Or.inr ⟨before, key, mid, lead, rfl, first, second⟩), ⟨?_, ?_⟩,
      fun pos placed => ?_⟩
    · rw [prints'.count, prints.count]
      simp
    · rw [prints'.out, prints.out]
      simp
    · obtain ⟨labels, last⟩ := drawn (startLine t pos)
      have here : (⟨startLine t pos, col⟩ : Position).advance (label key) =
          pos.advance (before ++ label key) := by rw [advance_append, start pos placed]
      rw [here] at labels last
      obtain ⟨labels', last'⟩ := drawn'
        ((pos.advance (before ++ label key)).advance (rest.flatMap Printed.text))
      constructor
      · rw [places, places_append, start pos placed, cells_node, Printed.text, labels, labels', last]
      · rw [List.flatMap_cons, List.flatMap_append, advance_append, advance_append, Printed.text,
          last', last]
        simp only [newlines, Option.elim_some]
        omega

/-! ### What the picture says about the tree -/

/-- Whatever the calls for a subtree print, they print no cell twice and put the static variable
back. -/
def Keeps (grants : Nat → Bool) (node : BTNode V) (t : Traversal) : Prop :=
  ∀ p q, btPrintRec grants node t p = .ok q → toInt p.spaceCount = p.spaceCount →
    ∃ rest, Prints p q rest ∧ rest.length ≤ (printOrder node).length

theorem printsRight_keeps {grants : Nat → Bool} {right : BTNode V} {key : CStr} {p q : Printer}
    (keeps : Keeps grants right .RIGHT_TRAVERSAL) (first : PrintsRight grants right key p q)
    (int : toInt p.spaceCount = p.spaceCount) :
    ∃ rest, Prints p q rest ∧ rest.length ≤ (printOrder right).length := by
  rcases first with ⟨_, rfl⟩ | ⟨_, _, r, inner, rfl⟩
  · exact ⟨[], ⟨rfl, by simp⟩, Nat.zero_le _⟩
  · obtain ⟨rest, prints, length⟩ := keeps _ _ inner (by rw [shift_spaceCount, toInt_toInt])
    refine ⟨rest, ⟨?_, prints.out⟩, length⟩
    rw [shift_spaceCount, prints.count, shift_spaceCount, toInt_add, Int.add_neg_cancel_right, int]

theorem printsLeft_keeps {grants : Nat → Bool} {left : BTNode V} {p q : Printer}
    (keeps : Keeps grants left .LEFT_TRAVERSAL) (second : PrintsLeft grants left p q)
    (int : toInt p.spaceCount = p.spaceCount) :
    ∃ rest, Prints p q rest ∧ rest.length ≤ (printOrder left).length := by
  rcases second with ⟨_, rfl⟩ | ⟨_, inner⟩
  · exact ⟨[], ⟨rfl, by simp⟩, Nat.zero_le _⟩
  · exact keeps _ _ inner int

/-- A cell, its right subtree and its left subtree. -/
theorem node_prints {grants : Nat → Bool} {left right : BTNode V} {key : CStr} {t : Traversal}
    {p mid q : Printer} {before : List UInt8} (keepsR : Keeps grants right .RIGHT_TRAVERSAL)
    (keepsL : Keeps grants left .LEFT_TRAVERSAL)
    (first : PrintsRight grants right key ((p.allocated t).printf before key) mid)
    (second : PrintsLeft grants left mid q) (int : toInt p.spaceCount = p.spaceCount) :
    ∃ restR restL, Prints ((p.allocated t).printf before key) mid restR ∧ Prints mid q restL ∧
      restR.length ≤ (printOrder right).length ∧ restL.length ≤ (printOrder left).length ∧
      Prints p q (⟨before, key⟩ :: (restR ++ restL)) := by
  have labelled : ((p.allocated t).printf before key).spaceCount = p.spaceCount := by simp
  obtain ⟨restR, printsR, lengthR⟩ := printsRight_keeps keepsR first (by rw [labelled, int])
  obtain ⟨restL, printsL, lengthL⟩ :=
    printsLeft_keeps keepsL second (by rw [printsR.count, labelled, int])
  refine ⟨restR, restL, printsR, printsL, lengthR, lengthL, ?_, ?_⟩
  · rw [printsL.count, printsR.count, labelled]
  · rw [printsL.out, printsR.out]
    simp

theorem btPrintRec_keeps (grants : Nat → Bool) (node : BTNode V) (t : Traversal) :
    Keeps grants node t := by
  induction node generalizing t with
  | null =>
    intro p q call
    cases call
  | node left right nodeKey value ihl ihr =>
    intro p q call int
    rcases btPrintRec_ok_iff.mp call with ⟨_, rfl⟩ | ⟨before, key, mid, _, rfl, first, second⟩
    · exact ⟨[], ⟨by simp, by simp⟩, Nat.zero_le _⟩
    · obtain ⟨restR, restL, _, _, lengthR, lengthL, prints⟩ := node_prints (ihr _) (ihl _) first second int
      refine ⟨⟨before, key⟩ :: (restR ++ restL), prints, ?_⟩
      simp only [printOrder, List.length_cons, List.length_append, List.length_map]
      omega

/-- A right child's label is printed with nothing in front of it. -/
theorem btPrintRec_right {grants : Nat → Bool} {node : BTNode V} {p q : Printer}
    {rest : List Printed} (call : btPrintRec grants node .RIGHT_TRAVERSAL p = .ok q)
    (int : toInt p.spaceCount = p.spaceCount) (out : q.out = p.out ++ rest) :
    ∃ key more, rest = ⟨[], key⟩ :: more := by
  cases node with
  | null => cases call
  | node left right nodeKey value =>
    rcases btPrintRec_ok_iff.mp call with ⟨lead, _⟩ | ⟨before, key, mid, lead, rfl, first, second⟩
    · cases lead
    · cases lead
      obtain ⟨restR, restL, _, _, _, _, prints⟩ :=
        node_prints (btPrintRec_keeps _ _ _) (btPrintRec_keeps _ _ _) first second int
      refine ⟨key, restR ++ restL, (List.append_right_inj p.out).mp ?_⟩
      rw [← out, prints.out]

/-- A label at the column of its cell has a column that an int holds. -/
theorem leadIn_range {p : Printer} {t : Traversal} {col : Nat} {before : List UInt8}
    {pos : Position} {line : Nat} (lead : leadIn (fun _ => true) p t = .ok (some before))
    (count : p.spaceCount = toInt col) (start : pos.advance before = ⟨line, col⟩)
    (left : t = .LEFT_TRAVERSAL) : (col : Int) < INT_MAX := by
  subst left
  simp only [leadIn] at lead
  split at lead
  · cases lead
  · rename_i granted
    split at lead
    · cases lead
    · rename_i positive
      cases lead
      rw [advance_lead] at start
      have same : p.spaceCount.toNat = col := (Position.mk.inj start).2
      have exact_ : p.spaceCount = col := by omega
      have range := toInt_range col
      rw [← count, exact_] at range
      by_contra atEnd
      apply granted
      have last : (col : Int) = INT_MAX := by omega
      rw [exact_, last]
      exact Or.inl (by decide)

/-- Two lists of cells that fill theirs exactly. -/
theorem places_split {pos pos' : Position} {first second : List Printed}
    {right left : List (Option CStr × Position)} (lengthR : first.length ≤ right.length)
    (lengthL : second.length ≤ left.length)
    (same : places pos first ++ places pos' second = right ++ left) :
    places pos first = right ∧ places pos' second = left := by
  have total := congrArg List.length same
  simp only [List.length_append, places_length] at total
  apply List.append_inj same
  rw [places_length]
  omega

/-- A right child on the line of its parent is behind a label without a newline. -/
theorem newline_free {pos : Position} {key : CStr} {line col line' col' : Nat} {k : Option CStr}
    {rest : List (Option CStr × Position)} {e : CStr} {more : List Printed}
    (start : pos = ⟨line, col⟩)
    (drawn : places (pos.advance (label key)) (⟨[], e⟩ :: more) = (k, ⟨line', col'⟩) :: rest)
    (straight : line' = line) : 10 ∉ key.bytes := by
  rw [places] at drawn
  have place := (Prod.mk.inj (List.cons.inj drawn).1).2
  have sameLine : (pos.advance (label key)).line = line' := congrArg Position.line place
  rw [advance_line, count_label, start, straight] at sameLine
  exact List.count_eq_zero.mp (by simpa using sameLine)

/-- The labels printed from here are those of the subtree, in their columns, with right children on
the lines of their parents. -/
structure Placed (node : BTNode V) (col : Nat) (line : Slot → Nat) (pos : Position)
    (rest : List Printed) : Prop where
  drawn : places pos rest =
    (printOrder node).map fun slot => (keyAt node slot, ⟨line slot, col + column node slot⟩)
  straight : ∀ slot, slot ++ [.right] ∈ printOrder node → line (slot ++ [.right]) = line slot

section Placed

variable {left right : BTNode V} {key : CStr} {value : V} {col : Nat} {line : Slot → Nat}

theorem straight_right (straight : ∀ slot,
      slot ++ [.right] ∈ printOrder (.node left right (some key) value) →
      line (slot ++ [.right]) = line slot) :
    ∀ slot, slot ++ [.right] ∈ printOrder right →
      line (.right :: (slot ++ [.right])) = line (.right :: slot) :=
  fun slot member => straight (.right :: slot) (by simpa [printOrder] using member)

theorem straight_left (straight : ∀ slot,
      slot ++ [.right] ∈ printOrder (.node left right (some key) value) →
      line (slot ++ [.right]) = line slot) :
    ∀ slot, slot ++ [.right] ∈ printOrder left →
      line (.left :: (slot ++ [.right])) = line (.left :: slot) :=
  fun slot member => straight (.left :: slot) (by simpa [printOrder] using member)

/-- The labels of a cell, of its right subtree and of its left subtree. -/
theorem Placed.split {pos : Position} {before : List UInt8} {restR restL : List Printed}
    (placed : Placed (.node left right (some key) value) col line pos
      (⟨before, key⟩ :: (restR ++ restL)))
    (lengthR : restR.length ≤ (printOrder right).length)
    (lengthL : restL.length ≤ (printOrder left).length) :
    pos.advance before = ⟨line [], col⟩ ∧
      Placed right (col + (label key).length) (fun slot => line (.right :: slot))
        ((pos.advance before).advance (label key)) restR ∧
      Placed left col (fun slot => line (.left :: slot))
        (((pos.advance before).advance (label key)).advance (restR.flatMap Printed.text)) restL := by
  obtain ⟨drawn, straight⟩ := placed
  rw [places, places_append, printOrder, List.map_cons, List.map_append, List.map_map,
    List.map_map] at drawn
  obtain ⟨head, tail⟩ := List.cons.inj drawn
  obtain ⟨drawnR, drawnL⟩ := places_split (by simpa using lengthR) (by simpa using lengthL) tail
  refine ⟨(Prod.mk.inj head).2, ⟨?_, straight_right straight⟩, ?_, straight_left straight⟩
  · rw [← advance_append]
    refine drawnR.trans (List.map_congr_left fun slot _ => ?_)
    simp [keyAt, deref, column, Nat.add_assoc]
  · rw [← advance_append pos]
    refine drawnL.trans (List.map_congr_left fun slot _ => ?_)
    simp [keyAt, deref, column]

end Placed

/-- What the calls for a subtree have drawn in its places they could print. -/
def ShowsPrintable (node : BTNode V) : Prop :=
  ∀ (col : Nat) (t : Traversal) (p q : Printer) (rest : List Printed) (pos : Position)
    (line : Slot → Nat), btPrintRec (fun _ => true) node t p = .ok q → p.spaceCount = toInt col →
    q.out = p.out ++ rest → Placed node col line pos rest →
    Printable node col ∧ (t = .LEFT_TRAVERSAL → (col : Int) < INT_MAX)

theorem printable_right {right : BTNode V} {key : CStr} {col : Nat} {p q : Printer}
    {rest : List Printed} {pos : Position} {line : Slot → Nat} (shows : ShowsPrintable right)
    (first : PrintsRight (fun _ => true) right key p q) (count : p.spaceCount = toInt col)
    (out : q.out = p.out ++ rest) (start : pos = ⟨line [], col⟩)
    (straight : right ≠ .null → line [.right] = line [])
    (placed : Placed right (col + (label key).length) (fun slot => line (.right :: slot))
      (pos.advance (label key)) rest) :
    Printable right (col + (label key).length) ∧
      (right ≠ .null → 10 ∉ key.bytes ∧ (label key).length < LABEL_MAX) := by
  rcases first with ⟨rfl, _⟩ | ⟨full, fits, r, inner, rfl⟩
  · exact ⟨trivial, fun full => absurd rfl full⟩
  · have shifted : (p.shift (label key).length).spaceCount = toInt ↑(col + (label key).length) := by
      rw [shift_spaceCount, count, toInt_add, Nat.cast_add]
    obtain ⟨e, more, rfl⟩ := btPrintRec_right inner (by rw [shift_spaceCount, toInt_toInt]) out
    refine ⟨(shows _ _ _ _ _ _ _ inner shifted out placed).1, fun _ => ⟨?_, fits⟩⟩
    cases right with
    | null => exact absurd rfl full
    | node => exact newline_free start placed.drawn (straight full)

theorem printable_left {left : BTNode V} {col : Nat} {p q : Printer} {rest : List Printed}
    {pos : Position} {line : Slot → Nat} (shows : ShowsPrintable left)
    (second : PrintsLeft (fun _ => true) left p q) (count : p.spaceCount = toInt col)
    (out : q.out = p.out ++ rest) (placed : Placed left col line pos rest) :
    Printable left col ∧ (left ≠ .null → (col : Int) < INT_MAX) := by
  rcases second with ⟨rfl, _⟩ | ⟨full, inner⟩
  · exact ⟨trivial, fun full => absurd rfl full⟩
  · obtain ⟨printable, range⟩ := shows _ _ _ _ _ _ _ inner count out placed
    exact ⟨printable, fun _ => range rfl⟩

theorem showsPrintable (node : BTNode V) : ShowsPrintable node := by
  induction node with
  | null =>
    intro col t p q rest pos line call
    cases call
  | node left right nodeKey value ihl ihr =>
    intro col t p q rest pos line call count out placed
    have int : toInt p.spaceCount = p.spaceCount := by rw [count, toInt_toInt]
    rcases btPrintRec_ok_iff.mp call with ⟨_, rfl⟩ | ⟨before, key, mid, lead, rfl, first, second⟩
    · have nothing : rest = [] := (List.append_right_inj p.out).mp (by simpa using out.symm)
      have drawn := placed.drawn
      rw [nothing] at drawn
      cases drawn
    · obtain ⟨restR, restL, printsR, printsL, lengthR, lengthL, prints⟩ :=
        node_prints (btPrintRec_keeps _ _ _) (btPrintRec_keeps _ _ _) first second int
      have labelled : ((p.allocated t).printf before key).spaceCount = toInt col := by simpa using count
      have all : rest = ⟨before, key⟩ :: (restR ++ restL) := by
        apply (List.append_right_inj p.out).mp
        rw [← out, prints.out]
      rw [all] at placed
      obtain ⟨start, placedR, placedL⟩ := placed.split lengthR lengthL
      have beside : right ≠ .null → line [.right] = line [] := by
        intro full
        apply placed.straight []
        cases right with
        | null => exact absurd rfl full
        | node => simp [printOrder]
      obtain ⟨printableR, single⟩ := printable_right ihr first labelled printsR.out
        start beside placedR
      obtain ⟨printableL, range⟩ := printable_left ihl second
        (printsR.count.trans labelled) printsL.out placedL
      exact ⟨⟨key, rfl, single, printableR, range, printableL⟩, leadIn_range lead count start⟩

/-! ### The whole picture -/

theorem btPrint_ok {grants : Nat → Bool} {tree : BTree V} {c d : Int} {output : Output}
    (h : btPrint grants tree c = .ok (d, output)) :
    (tree.root = .null ∧ d = c ∧ output.printed = []) ∨
    (tree.root ≠ .null ∧ ∃ q, btPrintRec grants tree.root .ROOT ⟨c, 0, []⟩ = .ok q ∧
      d = q.spaceCount ∧ output.printed = q.out) := by
  unfold btPrint at h
  split at h
  · rename_i empty
    cases h
    exact Or.inl ⟨isNull_iff.mp empty, rfl, rfl⟩
  · rename_i full
    obtain ⟨q, call, h⟩ := bind_ok h
    cases h
    exact Or.inr ⟨isNull_iff.not.mp full, q, call, rfl, rfl⟩

/-- Also a print that runs out of memory on the way puts the static variable back. -/
theorem btPrint_spaceCount {grants : Nat → Bool} {tree : BTree V} {c d : Int} {output : Output}
    (int : toInt c = c) (h : btPrint grants tree c = .ok (d, output)) : d = c := by
  rcases btPrint_ok h with ⟨_, same, _⟩ | ⟨_, q, call, rfl, _⟩
  · exact same
  · obtain ⟨rest, prints, _⟩ := btPrintRec_keeps grants _ _ _ _ call int
    exact prints.count

theorem printable_of_draws {root : BTNode V} (draws : DrawsTree root) : Printable root 0 := by
  obtain ⟨output, line, call, drawn, straight, _⟩ := draws
  rcases btPrint_ok call with ⟨rfl, _⟩ | ⟨_, q, inner, _, out⟩
  · trivial
  · have placed : Placed root 0 line ⟨0, 0⟩ output.printed := ⟨by simpa using drawn, straight⟩
    exact (showsPrintable root 0 _ _ _ _ _ line inner rfl out.symm placed).1

theorem draws_of_printable {root : BTNode V} (printable : Printable root 0) : DrawsTree root := by
  by_cases empty : root = .null
  · subst empty
    exact ⟨⟨[], emptyMessage⟩, fun _ => 0, rfl, rfl, fun slot member => (by cases member),
      List.Pairwise.nil⟩
  · obtain ⟨q, rest, call, prints, drawn⟩ :=
      btPrintRec_draws (t := .ROOT) (p := ⟨0, 0, []⟩) printable empty rfl (by simp)
    refine ⟨⟨q.out, [10]⟩, lineOf root, ?_, ?_, fun slot => lineOf_right printable,
      (printOrder_lines root).imp fun later => later.2⟩
    · simp only [btPrint, if_neg (isNull_iff.not.mpr empty), call, ok_bind, prints.count]
      rfl
    · have labels := (drawn ⟨0, 0⟩ fun _ => rfl).1
      rw [prints.out]
      simpa [cells, startLine] using labels

/-- `bt_print` draws exactly the trees that are printable from column 0. -/
theorem drawsTree_iff (root : BTNode V) : DrawsTree root ↔ Printable root 0 :=
  ⟨printable_of_draws, draws_of_printable⟩

/-- The two keys `a\nb` and `c`: the label of the root takes two lines, so its right child does not
stand on the line where it starts. -/
theorem drawsTree_newline_fails :
    ¬ ∀ (ops : List (Op Nat)) (tree : BTree Nat), run ops = .ok tree → DrawsTree tree.root := by
  intro all
  have draws := all [.add (.ofBytes [97, 10, 98]) 1, .add (.ofBytes [99]) 2]
    ⟨.node .null (.node .null .null (some (.ofBytes [99])) 2) (some (.ofBytes [97, 10, 98])) 1⟩ rfl
  obtain ⟨key, same, single, _⟩ := printable_of_draws draws
  obtain rfl := Option.some.inj same
  exact absurd (single (by simp)).1 (by decide)

end Tlpi.BinaryTree
