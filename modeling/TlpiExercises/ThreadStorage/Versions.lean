import TlpiExercises.ThreadStorage.InPlace

/-!
# Both versions over a history of calls

Only the first of the two functions that is called creates its key, which is number 0. The key of the
other one has the value 0 as well, as a static variable: both functions use one buffer.
-/

namespace Tlpi.ThreadStorage

inductive Ts where
  | dirname
  | basename
  deriving DecidableEq

def Ts.other : Ts → Ts
  | .dirname => .basename
  | .basename => .dirname

/-- The path of a call: a string of the caller, or a pointer into the buffer that the most recent call of
a function has returned. -/
inductive Arg where
  | string (path : CStr)
  | result (function : Ts) (offset : Nat)

structure Call where
  function : Ts
  arg : Arg

/-- An implementation of the two functions, with its state and its buffers. -/
structure Version (S B : Type) where
  initial : S
  dirnameTs : Pointer B → S → Returned B × S
  basenameTs : Pointer B → S → Returned B × S
  read : S → B → CStr

def tls : Version Tls Static where
  initial := Tls.initial
  dirnameTs := Tls.dirnameTs
  basenameTs := Tls.basenameTs
  read := Tls.read

def tsd (junk : Nat → Buf) : Version Tsd Nat where
  initial := Tsd.initial
  dirnameTs := Tsd.dirnameTs junk
  basenameTs := Tsd.basenameTs junk
  read := Tsd.read

/-- The state, and what the most recent call of each function has returned. -/
structure Moment (S B : Type) where
  state : S
  returned : Ts → Option (Returned B)

def Returned.pointer {B : Type} (offset : Nat) : Returned B → Option (Pointer B)
  | .literal => none
  | .null => none
  | .buffer b => some (.buffer b offset)

/-- There is no pointer where the function has not been called. -/
def Arg.pointer {S B : Type} (m : Moment S B) : Arg → Option (Pointer B)
  | .string path => some (.string path)
  | .result function offset => (m.returned function).bind (·.pointer offset)

namespace Version

variable {S B : Type} (v : Version S B)

def call : Ts → Pointer B → S → Returned B × S
  | .dirname => v.dirnameTs
  | .basename => v.basenameTs

def step (m : Moment S B) (call : Call) : Moment S B :=
  match call.arg.pointer m with
  | none => m
  | some pointer =>
    let (returned, state) := v.call call.function pointer m.state
    ⟨state, Function.update m.returned call.function (some returned)⟩

def run (calls : List Call) : Moment S B := calls.foldl v.step ⟨v.initial, fun _ => none⟩

/-- What can be read through the pointer that a function has returned. -/
def shown (m : Moment S B) (function : Ts) : Option (Option (List Byte)) :=
  (m.returned function).map (·.text (v.read m.state))

def observe (calls : List Call) : Ts → Option (Option (List Byte)) := v.shown (v.run calls)

variable {v} in
theorem step_call {m : Moment S B} {call : Call} {pointer : Pointer B} {returned : Returned B} {state : S}
    (path : call.arg.pointer m = some pointer)
    (called : v.call call.function pointer m.state = (returned, state)) :
    v.step m call = ⟨state, Function.update m.returned call.function (some returned)⟩ := by
  rw [step, path]
  dsimp only
  rw [called]

theorem run_concat (calls : List Call) (call : Call) :
    v.run (calls ++ [call]) = v.step (v.run calls) call := by
  rw [run, List.foldl_append]
  rfl

end Version

/-- A path of 1 to 255 bytes. A pointer does not lead behind the string that was returned. -/
def Arg.Valid (m : Moment Tls Static) : Arg → Prop
  | .string path => path.length ≠ 0 ∧ path.length ≤ 255
  | .result function offset => ∃ text, tls.shown m function = some (some text) ∧ offset < text.length

/-- The part of a path that a function returns. -/
def Ts.part : Ts → List Byte → List Byte
  | .dirname => front
  | .basename => base

def Arg.text (m : Moment Tls Static) (arg : Arg) : Option CStr :=
  (arg.pointer m).map (·.text m.state.get)

def Arg.inBuffer : Arg → Bool
  | .string _ => false
  | .result _ _ => true

/-- A call that shows the string that is still read through the pointer of the other function, if there is
one. `basename_ts` of a path in a buffer also needs one that reads the same from both ends. -/
def Harmless (m : Moment Tls Static) (call : Call) : Prop :=
  ∀ path shown, call.arg.text m = some path → tls.shown m call.function.other = some (some shown) →
    call.function.part path.bytes = shown ∧
      (call.function = .basename → call.arg.inBuffer → path.bytes.reverse = path.bytes)

variable {buf : Buf} {path : CStr} {source : Source} {w : List Byte} {f g : Ts} {o : Nat} {junk : Nat → Buf}

/-! ### A call and its buffer -/

def Ts.into : Ts → Int → Source → Buf → Buf
  | .dirname => dirnameInto
  | .basename => basenameInto

def Ts.static : Ts → Static
  | .dirname => .dirnBuf
  | .basename => .basnBuf

theorem into_terminated (f : Ts) (source : Source) (buf : Buf) (short : (source.string buf).length ≤ 255) :
    0 ∈ (f.into (toInt (source.string buf).length) source buf).bytes := by
  cases f with
  | dirname =>
    have bytes := dirnameInto_bytes short
    rw [Ts.into, bytes]
    exact List.mem_append_right _ List.mem_cons_self
  | basename =>
    obtain ⟨rest, bytes⟩ := basenameInto_bytes source short buf
    rw [Ts.into, bytes]
    exact List.mem_append_right _ List.mem_cons_self

theorem into_outside (f : Ts) (buf : Buf) (short : path.length ≤ 255) :
    (f.into (toInt path.length) (.outside path) buf).string.bytes = f.part path.bytes := by
  cases f with
  | dirname =>
    have string := dirnameInto_string (.outside path) buf short
    rw [Ts.into, Ts.part]
    exact string
  | basename =>
    rw [Ts.into, Ts.part]
    exact basenameInto_string short buf

/-- A buffer that can be read. -/
structure Holds (buf : Buf) (w : List Byte) : Prop where
  terminated : 0 ∈ buf.bytes
  string : buf.string.bytes = w

theorem Holds.bytes (holds : Holds buf w) : ∃ rest, buf.bytes = w ++ 0 :: rest := by
  obtain ⟨rest, bytes⟩ := string_bytes holds.terminated
  rw [holds.string] at bytes
  exact ⟨rest, bytes⟩

theorem Holds.free (holds : Holds buf w) : 0 ∉ w := holds.string ▸ buf.string.nulFree

theorem Holds.size (holds : Holds buf w) : w.length ≤ 255 := by
  obtain ⟨rest, bytes⟩ := holds.bytes
  have size := congrArg List.length bytes
  rw [buf.size, List.length_append, List.length_cons] at size
  omega

theorem Holds.drop (holds : Holds buf w) (within : o < w.length) :
    ((Source.inside o).string buf).bytes = w.drop o := by
  obtain ⟨rest, bytes⟩ := holds.bytes
  have all : ∀ c ∈ w.drop o, decide (c ≠ 0) = true := by
    intro c member
    refine decide_eq_true ?_
    rintro rfl
    exact holds.free (List.mem_of_mem_drop member)
  unfold Source.string CStr.ofBytes
  dsimp only
  rw [bytes, List.drop_append_of_le_length within.le, List.takeWhile_append_of_pos all]
  simp

theorem dirname_inside (holds : Holds buf w) (within : o < w.length) :
    (dirnameInto (toInt (w.drop o).length) (.inside o) buf).string.bytes = front (w.drop o) := by
  have string := holds.drop within
  have length : ((Source.inside o).string buf).length = (w.drop o).length := congrArg List.length string
  have size := holds.size
  have short : ((Source.inside o).string buf).length ≤ 255 := by
    rw [length, List.length_drop]
    omega
  have result := dirnameInto_string _ _ short
  rw [length, string] at result
  exact result

/-! ### Thread-local storage -/

theorem get_modify (s : Tls) (b b' : Static) (F : Buf → Buf) :
    (s.modify b F).get b' = if b = b' then F (s.get b') else s.get b' := by
  cases b
  · cases b'
    · rfl
    · rfl
  · cases b'
    · rfl
    · rfl

theorem tls_call (pointer : Pointer Static) (s : Tls) (some_path : (pointer.text s.get).length ≠ 0)
    (short : (pointer.text s.get).length ≤ 255) (f : Ts) :
    tls.call f pointer s = (.buffer f.static,
      s.modify f.static (f.into (toInt (pointer.text s.get).length) (pointer.source s.get f.static))) := by
  cases f with
  | dirname =>
    have same : tls.call .dirname = Tls.dirnameTs := by rw [Version.call, tls]
    rw [same, Tls.dirnameTs]
    exact fill_buffer Tls.modify dirnameInto pointer some_path short .dirnBuf
  | basename =>
    have same : tls.call .basename = Tls.basenameTs := by rw [Version.call, tls]
    rw [same, Tls.basenameTs]
    exact fill_buffer Tls.modify basenameInto pointer some_path short .basnBuf

/-! ### Thread-specific data -/

/-- Both keys have the number 0, and the one buffer. -/
structure Ready (s : Tsd) (buf : Buf) : Prop where
  once : s.once = true
  dirnameKey : s.dirnameKey = 0
  basenameKey : s.basenameKey = 0
  specific : s.specific 0 = some 0
  heap : s.heap = [buf]

variable {s : Tsd}

theorem Ready.get (ready : Ready s buf) : s.get 0 = buf := by
  rw [Tsd.get, ready.heap]
  rfl

/-- Whichever function is called first, its key has the number that the other key has already. -/
theorem created_initial {init : Tsd → Tsd}
    (either : init = Tsd.createKeyDirname ∨ init = Tsd.createKeyBasename) :
    Tsd.initial.pthreadOnce init = { Tsd.initial with once := true, nextKey := 1 } := by
  rcases either with rfl | rfl
  · rfl
  · rfl

theorem fill_ready (pointer : Pointer Nat) (into : Int → Source → Buf → Buf) (ready : Ready s buf)
    (some_path : (pointer.text s.get).length ≠ 0) (short : (pointer.text s.get).length ≤ 255) :
    ∃ s', fill Tsd.get Tsd.modify into pointer 0 s = (.buffer 0, s') ∧
      Ready s' (into (toInt (pointer.text s.get).length) (pointer.source s.get 0) buf) := by
  have heap (F : Buf → Buf) : (s.modify 0 F).heap = [F buf] := by
    rw [Tsd.modify, ready.heap]
    rfl
  exact ⟨_, fill_buffer Tsd.modify into pointer some_path short 0, ready.once, ready.dirnameKey,
    ready.basenameKey, ready.specific, heap _⟩

section Function

variable {init : Tsd → Tsd} {key : Tsd → Nat} {into : Int → Source → Buf → Buf}

/-- A call for which the buffer is there. -/
theorem function_ready {pointer : Pointer Nat}
    (zero : ∀ s, s.dirnameKey = 0 → s.basenameKey = 0 → key s = 0) (ready : Ready s buf)
    (some_path : (pointer.text s.get).length ≠ 0) (short : (pointer.text s.get).length ≤ 255) :
    ∃ s', Tsd.function init key into junk pointer s = (.buffer 0, s') ∧
      Ready s' (into (toInt (pointer.text s.get).length) (pointer.source s.get 0) buf) := by
  have once : s.pthreadOnce init = s := if_pos ready.once
  have key_zero : key s = 0 := zero s ready.dirnameKey ready.basenameKey
  have found : s.bufferOf junk 0 = (0, s) := by rw [Tsd.bufferOf, ready.specific]
  obtain ⟨s', filled, after⟩ := fill_ready pointer into ready some_path short
  refine ⟨s', ?_, after⟩
  unfold Tsd.function
  dsimp only
  rw [once, key_zero, found]
  exact filled

/-- The first call, which makes the buffer. -/
theorem function_initial (either : init = Tsd.createKeyDirname ∨ init = Tsd.createKeyBasename)
    (zero : ∀ s, s.dirnameKey = 0 → s.basenameKey = 0 → key s = 0) (some_path : path.length ≠ 0)
    (short : path.length ≤ 255) :
    ∃ s', Tsd.function init key into junk (.string path) Tsd.initial = (.buffer 0, s') ∧
      Ready s' (into (toInt path.length) (.outside path) (junk 0)) := by
  obtain ⟨made, ready, found⟩ : ∃ made : Tsd, Ready made (junk 0) ∧
      (Tsd.initial.pthreadOnce init).bufferOf junk (key (Tsd.initial.pthreadOnce init)) = (0, made) := by
    rw [created_initial either, zero _ rfl rfl]
    exact ⟨_, ⟨rfl, rfl, rfl, rfl, rfl⟩, rfl⟩
  obtain ⟨s', filled, after⟩ := fill_ready (.string path) into ready some_path short
  refine ⟨s', ?_, after⟩
  unfold Tsd.function
  dsimp only
  rw [found]
  exact filled

end Function

theorem tsd_ready (junk : Nat → Buf) (pointer : Pointer Nat) (ready : Ready s buf)
    (some_path : (pointer.text s.get).length ≠ 0) (short : (pointer.text s.get).length ≤ 255) (f : Ts) :
    ∃ s', (tsd junk).call f pointer s = (.buffer 0, s') ∧
      Ready s' (f.into (toInt (pointer.text s.get).length) (pointer.source s.get 0) buf) := by
  cases f with
  | dirname =>
    have same : (tsd junk).call .dirname = Tsd.dirnameTs junk := by rw [Version.call, tsd]
    rw [same, Tsd.dirnameTs, Ts.into]
    exact function_ready (fun _ directory _ => directory) ready some_path short
  | basename =>
    have same : (tsd junk).call .basename = Tsd.basenameTs junk := by rw [Version.call, tsd]
    rw [same, Tsd.basenameTs, Ts.into]
    exact function_ready (fun _ _ name => name) ready some_path short

theorem tsd_initial (some_path : path.length ≠ 0) (short : path.length ≤ 255) (f : Ts) :
    ∃ s', (tsd junk).call f (.string path) Tsd.initial = (.buffer 0, s') ∧
      Ready s' (f.into (toInt path.length) (.outside path) (junk 0)) := by
  cases f with
  | dirname =>
    have same : (tsd junk).call .dirname = Tsd.dirnameTs junk := by rw [Version.call, tsd]
    rw [same, Tsd.dirnameTs, Ts.into]
    exact function_initial (Or.inl rfl) (fun _ directory _ => directory) some_path short
  | basename =>
    have same : (tsd junk).call .basename = Tsd.basenameTs junk := by rw [Version.call, tsd]
    rw [same, Tsd.basenameTs, Ts.into]
    exact function_initial (Or.inr rfl) (fun _ _ name => name) some_path short

end Tlpi.ThreadStorage
