import TlpiExercises.BinaryTree.Model
import TlpiExercises.C.Numbers

/-!
# bt_print

The printing of lib/binary_tree.c. A `Printer` is the state that the recursion shares: the static
`space_count`, the number of `malloc` calls so far, and what has been printed. `grants k` is the
outcome of the `k`-th `malloc`.
-/

namespace Tlpi.BinaryTree

open LinkTree

inductive Traversal where
  | ROOT
  | LEFT_TRAVERSAL
  | RIGHT_TRAVERSAL
  deriving DecidableEq, Repr

/-- `['%s'] ` -/
def label (key : CStr) : List UInt8 := [91, 39] ++ key.bytes ++ [39, 93, 32]

/-- The size of the local `buf`. -/
def LABEL_MAX : Nat := 1000

def sprintf (capacity : Nat) (text : List UInt8) : Except Fault (List UInt8) :=
  if text.length < capacity then .ok text else .error .outOfBounds

/-- One `printf` of a label, with what stands in front of it. -/
structure Printed where
  before : List UInt8
  key : CStr
  deriving DecidableEq

def Printed.text (printed : Printed) : List UInt8 := printed.before ++ label printed.key

structure Printer where
  spaceCount : Int
  mallocs : Nat
  out : List Printed

/-- What the call prints in front of its label; `none` is the return on a refused `malloc`. -/
def leadIn (grants : Nat → Bool) (p : Printer) : Traversal → Except Fault (Option (List UInt8))
  | .ROOT => return some []
  | .LEFT_TRAVERSAL =>
    -- A negative `space_count + 1` asks for more than half of the address space.
    if toInt (p.spaceCount + 1) < 0 ∨ grants p.mallocs = false then return none
    else if p.spaceCount < 0 then .error .outOfBounds
    else return some (10 :: List.replicate p.spaceCount.toNat 32)
  | .RIGHT_TRAVERSAL => return some []

def Printer.allocated (p : Printer) : Traversal → Printer
  | .LEFT_TRAVERSAL => { p with mallocs := p.mallocs + 1 }
  | _ => p

def Printer.printf (p : Printer) (before : List UInt8) (key : CStr) : Printer :=
  { p with out := p.out ++ [⟨before, key⟩] }

def Printer.shift (p : Printer) (n : Int) : Printer :=
  { p with spaceCount := toInt (p.spaceCount + n) }

variable {V : Type}

/-- The way to the right subtree; `visit` is the recursive call. -/
def travelRight (right : BTNode V) (visit : Printer → Except Fault Printer) (key : CStr)
    (p : Printer) : Except Fault Printer :=
  if right.isNull then return p else do
    let buf ← sprintf LABEL_MAX (label key)
    let p ← visit (p.shift buf.length)
    return p.shift (-buf.length)

def btPrintRec (grants : Nat → Bool) : BTNode V → Traversal → Printer → Except Fault Printer
  | .null, _, _ => .error .nullDereference
  | .node left right nodeKey _, traversal, p => do
    match ← leadIn grants p traversal with
    | none => return p.allocated traversal
    | some before =>
      let key ← fromPointer nodeKey
      let p ← travelRight right (btPrintRec grants right .RIGHT_TRAVERSAL) key
        ((p.allocated traversal).printf before key)
      if left.isNull then return p else btPrintRec grants left .LEFT_TRAVERSAL p

/-- The labels in the order of their `printf` calls, and the text behind them. -/
structure Output where
  printed : List Printed
  closing : List UInt8

def Output.text (output : Output) : List UInt8 :=
  output.printed.flatMap Printed.text ++ output.closing

/-- `Tree is empty.` -/
def emptyMessage : List UInt8 := [84, 114, 101, 101, 32, 105, 115, 32, 101, 109, 112, 116, 121, 46, 10]

/-- What `space_count` is after the call, and the output. -/
def btPrint (grants : Nat → Bool) (tree : BTree V) (spaceCount : Int) :
    Except Fault (Int × Output) := do
  if tree.root.isNull then return (spaceCount, ⟨[], emptyMessage⟩)
  let p ← btPrintRec grants tree.root .ROOT ⟨spaceCount, 0, []⟩
  return (p.spaceCount, ⟨p.out, [10]⟩)

/-! ### The printer's updates -/

@[simp] theorem allocated_spaceCount (p : Printer) (t : Traversal) :
    (p.allocated t).spaceCount = p.spaceCount := by cases t <;> rfl

@[simp] theorem allocated_out (p : Printer) (t : Traversal) : (p.allocated t).out = p.out := by
  cases t <;> rfl

@[simp] theorem printf_spaceCount (p : Printer) (before : List UInt8) (key : CStr) :
    (p.printf before key).spaceCount = p.spaceCount := rfl

@[simp] theorem printf_out (p : Printer) (before : List UInt8) (key : CStr) :
    (p.printf before key).out = p.out ++ [⟨before, key⟩] := rfl

@[simp] theorem shift_spaceCount (p : Printer) (n : Int) :
    (p.shift n).spaceCount = toInt (p.spaceCount + n) := rfl

@[simp] theorem shift_out (p : Printer) (n : Int) : (p.shift n).out = p.out := rfl

theorem label_length (key : CStr) : (label key).length = key.length + 5 := by
  simp [label, CStr.length]

theorem sprintf_ok {capacity : Nat} {text buf : List UInt8} (h : sprintf capacity text = .ok buf) :
    buf = text ∧ text.length < capacity := by
  unfold sprintf at h
  split at h
  · rename_i fits
    exact ⟨(Except.ok.inj h).symm, fits⟩
  · cases h

theorem sprintf_fits {capacity : Nat} {text : List UInt8} (fits : text.length < capacity) :
    sprintf capacity text = .ok text := if_pos fits

/-! ### What a call can do -/

/-- The way right of a cell that has been printed. -/
def PrintsRight (grants : Nat → Bool) (right : BTNode V) (key : CStr) (p q : Printer) : Prop :=
  (right = .null ∧ q = p) ∨
  (right ≠ .null ∧ (label key).length < LABEL_MAX ∧
    ∃ r, btPrintRec grants right .RIGHT_TRAVERSAL (p.shift (label key).length) = .ok r ∧
      q = r.shift (-(label key).length))

def PrintsLeft (grants : Nat → Bool) (left : BTNode V) (p q : Printer) : Prop :=
  (left = .null ∧ q = p) ∨ (left ≠ .null ∧ btPrintRec grants left .LEFT_TRAVERSAL p = .ok q)

section Calls

variable {grants : Nat → Bool} {left right : BTNode V} {value : V} {traversal : Traversal}
  {p q : Printer}

theorem printsRight_iff {key : CStr} :
    PrintsRight grants right key p q ↔
      travelRight right (btPrintRec grants right .RIGHT_TRAVERSAL) key p = .ok q := by
  unfold PrintsRight travelRight
  by_cases empty : right = .null
  · simp [empty, eq_comm]
  · simp only [empty, isNull_iff, false_and, false_or, if_false]
    constructor
    · rintro ⟨_, fits, r, call, rfl⟩
      rw [sprintf_fits fits, ok_bind, call]
      rfl
    · intro h
      obtain ⟨buf, written, h⟩ := bind_ok h
      obtain ⟨rfl, fits⟩ := sprintf_ok written
      obtain ⟨r, call, h⟩ := bind_ok h
      cases h
      exact ⟨empty, fits, r, call, rfl⟩

theorem printsLeft_iff :
    PrintsLeft grants left p q ↔
      (if left.isNull then return p else btPrintRec grants left .LEFT_TRAVERSAL p) = Except.ok q := by
  unfold PrintsLeft
  by_cases empty : left = .null
  · simp [empty, eq_comm]
  · simp [empty, isNull_iff]

/-- A returning call has printed its label and both subtrees, or nothing at all. -/
theorem btPrintRec_ok_iff {nodeKey : Option CStr} :
    btPrintRec grants (.node left right nodeKey value) traversal p = .ok q ↔
      (leadIn grants p traversal = .ok none ∧ q = p.allocated traversal) ∨
      ∃ before key mid, leadIn grants p traversal = .ok (some before) ∧ nodeKey = some key ∧
        PrintsRight grants right key ((p.allocated traversal).printf before key) mid ∧
        PrintsLeft grants left mid q := by
  rw [btPrintRec]
  cases lead : leadIn grants p traversal with
  | error fault => simp
  | ok front =>
    cases front with
    | none => simp [@eq_comm _ q]
    | some before =>
      cases nodeKey with
      | none => simp
      | some key =>
        simp only [ok_bind, fromPointer_some, printsRight_iff, printsLeft_iff]
        constructor
        · intro h
          obtain ⟨mid, first, second⟩ := bind_ok h
          exact Or.inr ⟨before, key, mid, rfl, rfl, first, second⟩
        · rintro (⟨refused, _⟩ | ⟨_, _, mid, same, keyed, first, second⟩)
          · cases refused
          · cases same
            cases keyed
            rw [first]
            exact second

end Calls

end Tlpi.BinaryTree
