import TlpiExercises.ThreadStorage.Versions

/-!
# What the two versions show

As long as they show the same strings, all buffers that have been returned hold one string.
-/

namespace Tlpi.ThreadStorage

variable {w : List Byte} {mt : Moment Tls Static} {md : Moment Tsd Nat} {f g : Ts} {junk : Nat → Buf}
  {s : Tsd} {buf : Buf} {path : CStr} {call : Call}

/-- All buffers that have been returned hold `w`. -/
structure Agrees (w : List Byte) (mt : Moment Tls Static) (md : Moment Tsd Nat) : Prop where
  returned : ∀ f, (mt.returned f = none ∧ md.returned f = none) ∨
    (mt.returned f = some (.buffer f.static) ∧ md.returned f = some (.buffer 0) ∧
      Holds (mt.state.get f.static) w)
  state : (md.state = Tsd.initial ∧ ∀ f, mt.returned f = none) ∨ ∃ buf, Ready md.state buf ∧ Holds buf w

theorem either_function (f g : Ts) : g = f ∨ g = f.other := by
  cases f
  · cases g
    · exact Or.inl rfl
    · exact Or.inr rfl
  · cases g
    · exact Or.inr rfl
    · exact Or.inl rfl

theorem other_ne (f : Ts) : f.other ≠ f ∧ f.static ≠ f.other.static := by
  cases f
  · exact ⟨nofun, nofun⟩
  · exact ⟨nofun, nofun⟩

theorem shown_tls {b : Static} (returned : mt.returned f = some (.buffer b)) :
    tls.shown mt f = some (some (mt.state.get b).string.bytes) := by
  have read : tls.read = Tls.read := by rw [tls]
  rw [Version.shown, returned, read]
  rfl

theorem shown_tsd (returned : md.returned f = some (.buffer 0)) (ready : Ready md.state buf) :
    (tsd junk).shown md f = some (some buf.string.bytes) := by
  have read : (tsd junk).read = Tsd.read := by rw [tsd]
  rw [Version.shown, returned, read, ← ready.get]
  rfl

/-- The moment after a call of a function. -/
def Moment.after {S B : Type} (m : Moment S B) (f : Ts) (b : B) (state : S) : Moment S B :=
  ⟨state, Function.update m.returned f (some (.buffer b))⟩

theorem after_same {S B : Type} (m : Moment S B) (f : Ts) (b : B) (state : S) :
    (m.after f b state).returned f = some (.buffer b) := Function.update_self _ _ _

theorem after_other {S B : Type} (m : Moment S B) (f : Ts) (b : B) (state : S) :
    (m.after f b state).returned f.other = m.returned f.other :=
  Function.update_of_ne (other_ne f).1 _ _

/-- The versions show the same strings after a call that has put the same string into both buffers, and
that agrees with what the pointer of the other function shows. -/
theorem Agrees.shown_iff (agrees : Agrees w mt md) (F : Buf → Buf) (ready : Ready s buf) :
    (tsd junk).shown (md.after f 0 s) = tls.shown (mt.after f f.static (mt.state.modify f.static F)) ↔
      buf.string.bytes = (F (mt.state.get f.static)).string.bytes ∧
        (mt.returned f.other ≠ none → buf.string.bytes = w) := by
  have own : (tsd junk).shown (md.after f 0 s) f = some (some buf.string.bytes) :=
    shown_tsd (after_same _ _ _ _) ready
  have own_tls : tls.shown (mt.after f f.static (mt.state.modify f.static F)) f =
      some (some (F (mt.state.get f.static)).string.bytes) := by
    rw [shown_tls (after_same _ _ _ _), Moment.after, get_modify, if_pos rfl]
  have others : (tsd junk).shown (md.after f 0 s) f.other =
      tls.shown (mt.after f f.static (mt.state.modify f.static F)) f.other ↔
        (mt.returned f.other ≠ none → buf.string.bytes = w) := by
    rcases agrees.returned f.other with ⟨tls_none, tsd_none⟩ | ⟨tls_some, tsd_some, holds⟩
    · rw [Version.shown, Version.shown, after_other, after_other, tls_none, tsd_none]
      exact iff_of_true rfl fun called => absurd rfl called
    · have kept : (mt.state.modify f.static F).get f.other.static = mt.state.get f.other.static := by
        rw [get_modify, if_neg (other_ne f).2]
      have tls_other := after_other mt f f.static (mt.state.modify f.static F)
      have tsd_other := after_other md f 0 s
      rw [tls_some] at tls_other
      rw [tsd_some] at tsd_other
      rw [shown_tsd tsd_other ready, shown_tls tls_other, Moment.after, kept, holds.string, tls_some]
      simp
  constructor
  · intro same
    have first := congrFun same f
    rw [own, own_tls] at first
    exact ⟨Option.some.inj (Option.some.inj first), others.mp (congrFun same f.other)⟩
  · rintro ⟨first, second⟩
    funext g
    rcases either_function f g with rfl | rfl
    · rw [own, own_tls, first]
    · exact others.mpr second

theorem Agrees.after (agrees : Agrees w mt md) (F : Buf → Buf) (ready : Ready s buf)
    (terminated : 0 ∈ buf.bytes) (terminated_tls : 0 ∈ (F (mt.state.get f.static)).bytes)
    (same : buf.string.bytes = (F (mt.state.get f.static)).string.bytes)
    (other : mt.returned f.other ≠ none → buf.string.bytes = w) :
    Agrees buf.string.bytes (mt.after f f.static (mt.state.modify f.static F)) (md.after f 0 s) where
  returned := by
    intro g
    rcases either_function f g with rfl | rfl
    · refine Or.inr ⟨after_same _ _ _ _, after_same _ _ _ _, ?_⟩
      rw [Moment.after, get_modify, if_pos rfl]
      exact ⟨terminated_tls, same.symm⟩
    · rw [after_other, after_other, Moment.after, get_modify, if_neg (other_ne f).2]
      rcases agrees.returned f.other with ⟨tls_none, tsd_none⟩ | ⟨tls_some, tsd_some, holds⟩
      · exact Or.inl ⟨tls_none, tsd_none⟩
      · refine Or.inr ⟨tls_some, tsd_some, ?_⟩
        rw [other (by rw [tls_some]; exact nofun)]
        exact holds
  state := Or.inr ⟨buf, ready, terminated, rfl⟩

/-! ### One call -/

theorem Agrees.harmless_iff (agrees : Agrees w mt md) (call : Call) (text : call.arg.text mt = some path) :
    Harmless mt call ↔ (mt.returned call.function.other ≠ none → call.function.part path.bytes = w ∧
      (call.function = .basename → call.arg.inBuffer → path.bytes.reverse = path.bytes)) := by
  rcases agrees.returned call.function.other with ⟨tls_none, _⟩ | ⟨tls_some, _, holds⟩
  · refine iff_of_true ?_ fun called => absurd tls_none called
    intro path shown _ shows
    rw [Version.shown, tls_none] at shows
    cases shows
  · have shows := shown_tls tls_some
    rw [holds.string] at shows
    constructor
    · intro harmless _
      exact harmless path w text shows
    · intro all path' shown text' shows'
      obtain rfl := Option.some.inj (text.symm.trans text')
      obtain rfl := Option.some.inj (Option.some.inj (shows.symm.trans shows'))
      exact all (by rw [tls_some]; exact nofun)

/-- What a call does in both versions. -/
structure Effect (junk : Nat → Buf) (mt : Moment Tls Static) (md : Moment Tsd Nat) (call : Call)
    (F : Buf → Buf) (s : Tsd) (buf : Buf) : Prop where
  tls : tls.step mt call =
    mt.after call.function call.function.static (mt.state.modify call.function.static F)
  tsd : (tsd junk).step md call = md.after call.function 0 s
  ready : Ready s buf
  terminated : 0 ∈ buf.bytes
  terminated_tls : 0 ∈ (F (mt.state.get call.function.static)).bytes

theorem into_outside_terminated (f : Ts) (buf : Buf) (short : path.length ≤ 255) :
    0 ∈ (f.into (toInt path.length) (.outside path) buf).bytes := by
  have terminated := into_terminated f (.outside path) buf short
  have same : (Source.outside path).string buf = path := rfl
  rw [same] at terminated
  exact terminated

theorem Agrees.effect_string (agrees : Agrees w mt md) (junk : Nat → Buf) (f : Ts)
    (valid : (Arg.string path).Valid mt) : ∃ F s buf, Effect junk mt md ⟨f, .string path⟩ F s buf ∧
      (buf.string.bytes = (F (mt.state.get f.static)).string.bytes ∧
        (mt.returned f.other ≠ none → buf.string.bytes = w) ↔ Harmless mt ⟨f, .string path⟩) := by
  obtain ⟨some_path, short⟩ := valid
  obtain ⟨old, s', called, ready⟩ : ∃ old s', (tsd junk).call f (.string path) md.state = (.buffer 0, s') ∧
      Ready s' (f.into (toInt path.length) (.outside path) old) := by
    rcases agrees.state with ⟨initial, _⟩ | ⟨buf, ready, _⟩
    · rw [initial]
      exact ⟨junk 0, tsd_initial some_path short f⟩
    · exact ⟨buf, tsd_ready junk (.string path) ready some_path short f⟩
  have called_tls := tls_call (.string path) mt.state some_path short f
  have string (b : Buf) := into_outside f b short
  have terminated (b : Buf) := into_outside_terminated f b short
  have text : (Pointer.string path).text mt.state.get = path := rfl
  have source : (Pointer.string path).source mt.state.get f.static = .outside path := rfl
  rw [text, source] at called_tls
  refine ⟨f.into (toInt path.length) (.outside path), s', f.into (toInt path.length) (.outside path) old,
    ⟨Version.step_call rfl called_tls, Version.step_call rfl called, ready, terminated old, terminated _⟩, ?_⟩
  rw [agrees.harmless_iff ⟨f, .string path⟩ rfl]
  rw [string, string]
  constructor
  · intro shows called
    exact ⟨shows.2 called, nofun⟩
  · intro shows
    exact ⟨rfl, fun called => (shows called).1⟩

section Buffer

variable {S B : Type} [DecidableEq B] (content : S → B → Buf) (pointer : Pointer B) (state : S)

theorem into_pointer_terminated (f : Ts) (short : (pointer.text (content state)).length ≤ 255) (b : B) :
    0 ∈ (f.into (toInt (pointer.text (content state)).length) (pointer.source (content state) b)
      (content state b)).bytes := by
  rw [← source_string b] at short ⊢
  exact into_terminated f _ _ short

theorem dirname_pointer (short : (pointer.text (content state)).length ≤ 255) (b : B) :
    (Ts.dirname.into (toInt (pointer.text (content state)).length) (pointer.source (content state) b)
      (content state b)).string.bytes = front (pointer.text (content state)).bytes := by
  rw [← source_string b] at short ⊢
  have string := dirnameInto_string _ _ short
  rw [Ts.into]
  exact string

end Buffer

theorem basename_same {old : Buf} {o : Nat} (holds : Holds old w) (other : Holds buf w) (within : o < w.length) :
    (basenameInto (toInt (w.drop o).length) (.inside o) buf).string =
      (basenameInto (toInt (w.drop o).length) (.inside o) old).string := by
  obtain ⟨rest, bytes⟩ := holds.bytes
  obtain ⟨rest', bytes'⟩ := other.bytes
  have size := holds.size
  have length : (w.drop o).length = w.length - o := List.length_drop
  have start {rest : List Byte} : (w ++ 0 :: rest).take (w.length + 1) = w ++ [0] := by
    rw [List.take_length_add_append]
    rfl
  refine basenameInto_congr (m := w.length + 1) ?_ (by omega) (by omega)
  rw [bytes, bytes', start, start]

/-- What the two buffers hold after a call with a pointer into a buffer. -/
theorem result_strings {g : Ts} {o : Nat} {old : Buf} {tlsState : Tls}
    (holds : Holds (tlsState.get g.static) w) (holds_tsd : Holds old w)
    (within : o < w.length) (bytes : path.bytes = w.drop o)
    (text : (Pointer.buffer g.static o).text tlsState.get = path) {called : Prop} (f : Ts)
    (known : g = f.other → called) :
    ((f.into (toInt path.length) (.inside o) old).string.bytes =
        (f.into (toInt path.length) ((Pointer.buffer g.static o).source tlsState.get f.static)
          (tlsState.get f.static)).string.bytes ∧
      (called → (f.into (toInt path.length) (.inside o) old).string.bytes = w)) ↔
    (called → f.part path.bytes = w ∧ (f = .basename → path.bytes.reverse = path.bytes)) := by
  have size := holds.size
  have length : path.length = (w.drop o).length := congrArg List.length bytes
  have short : path.length ≤ 255 := by
    rw [length, List.length_drop]
    omega
  cases f with
  | dirname =>
    have front_tsd := dirname_inside holds_tsd within
    have front_tls := dirname_pointer Tls.get (.buffer g.static o) tlsState
      (text.symm ▸ short) Ts.dirname.static
    rw [← length, ← bytes] at front_tsd
    rw [text] at front_tls
    rw [front_tls, Ts.into, front_tsd]
    constructor
    · intro shows called
      exact ⟨shows.2 called, fun name => Ts.noConfusion name⟩
    · intro shows
      exact ⟨rfl, fun called => (shows called).1⟩
  | basename =>
    obtain ⟨rest, cells⟩ := holds_tsd.bytes
    have itself := basenameInto_inside cells holds_tsd.free within
    rw [← length, ← bytes] at itself
    cases g with
    | dirname =>
      have source : (Pointer.buffer Ts.dirname.static o).source tlsState.get Ts.basename.static =
          .outside path := congrArg Source.outside text
      rw [source, Ts.into, Ts.part, basenameInto_string short]
      constructor
      · intro shows called
        obtain ⟨name, mirror⟩ := itself.mp (shows.2 called)
        exact ⟨name, fun _ => mirror⟩
      · intro shows
        obtain ⟨name, mirror⟩ := shows (known rfl)
        have result := itself.mpr ⟨name, mirror rfl⟩
        exact ⟨result.trans name.symm, fun _ => result⟩
    | basename =>
      have source : (Pointer.buffer Ts.basename.static o).source tlsState.get Ts.basename.static =
          .inside o := rfl
      have same := basename_same holds holds_tsd within
      rw [← length] at same
      rw [source, Ts.into, Ts.part]
      constructor
      · intro shows called
        obtain ⟨name, mirror⟩ := itself.mp (shows.2 called)
        exact ⟨name, fun _ => mirror⟩
      · intro shows
        refine ⟨congrArg CStr.bytes same, fun called => ?_⟩
        obtain ⟨name, mirror⟩ := shows called
        exact itself.mpr ⟨name, mirror rfl⟩

theorem Agrees.effect_result {g : Ts} {o : Nat} (agrees : Agrees w mt md) (junk : Nat → Buf) (f : Ts)
    (valid : (Arg.result g o).Valid mt) : ∃ F s buf, Effect junk mt md ⟨f, .result g o⟩ F s buf ∧
      (buf.string.bytes = (F (mt.state.get f.static)).string.bytes ∧
        (mt.returned f.other ≠ none → buf.string.bytes = w) ↔ Harmless mt ⟨f, .result g o⟩) := by
  obtain ⟨_, shows, within⟩ := valid
  rcases agrees.returned g with ⟨tls_none, _⟩ | ⟨tls_some, tsd_some, holds⟩
  · rw [Version.shown, tls_none] at shows
    cases shows
  rw [shown_tls tls_some, holds.string] at shows
  obtain rfl := Option.some.inj (Option.some.inj shows)
  rcases agrees.state with ⟨_, none_called⟩ | ⟨old, ready, holds_tsd⟩
  · rw [none_called] at tls_some
    cases tls_some
  have size := holds.size
  obtain ⟨path, text, bytes⟩ : ∃ path, (Pointer.buffer g.static o).text mt.state.get = path ∧
      path.bytes = w.drop o := ⟨_, rfl, holds.drop within⟩
  have text_tsd : (Pointer.buffer 0 o).text md.state.get = path := by
    refine CStr.ext (Eq.trans ?_ bytes.symm)
    have drop := holds_tsd.drop within
    rw [← ready.get] at drop
    exact drop
  have length : path.length = w.length - o := by rw [CStr.length, bytes, List.length_drop]
  have some_path : path.length ≠ 0 := by omega
  have short : path.length ≤ 255 := by omega
  have called_tls := tls_call (.buffer g.static o) mt.state (text ▸ some_path) (text ▸ short) f
  obtain ⟨s', called, after⟩ := tsd_ready junk (.buffer 0 o) ready
    (text_tsd ▸ some_path) (text_tsd ▸ short) f
  have terminated := into_pointer_terminated Tsd.get (.buffer 0 o) md.state f
    (text_tsd ▸ short) 0
  have terminated_tls := into_pointer_terminated Tls.get (.buffer g.static o) mt.state f
    (text ▸ short) f.static
  have source : (Pointer.buffer 0 o).source md.state.get 0 = .inside o := rfl
  rw [text] at called_tls terminated_tls
  rw [text_tsd, source] at after terminated
  rw [ready.get] at terminated
  have pointer : (Arg.result g o).pointer mt = some (.buffer g.static o) := by
    rw [Arg.pointer, tls_some]
    rfl
  have pointer_tsd : (Arg.result g o).pointer md = some (.buffer 0 o) := by
    rw [Arg.pointer, tsd_some]
    rfl
  have found : (Arg.result g o).text mt = some path := by
    rw [Arg.text, pointer, ← text]
    rfl
  refine ⟨f.into (toInt path.length) ((Pointer.buffer g.static o).source mt.state.get f.static), s',
    f.into (toInt path.length) (.inside o) old, ⟨Version.step_call pointer called_tls,
    Version.step_call pointer_tsd called, after, terminated, terminated_tls⟩, ?_⟩
  have known : g = f.other → mt.returned f.other ≠ none := by
    rintro rfl
    rw [tls_some]
    exact Option.some_ne_none _
  rw [agrees.harmless_iff ⟨f, .result g o⟩ found,
    result_strings holds holds_tsd within bytes text f known]
  simp only [Arg.inBuffer, true_imp_iff]

theorem Agrees.effect (agrees : Agrees w mt md) (junk : Nat → Buf) (valid : call.arg.Valid mt) :
    ∃ F s buf, Effect junk mt md call F s buf ∧
      (buf.string.bytes = (F (mt.state.get call.function.static)).string.bytes ∧
        (mt.returned call.function.other ≠ none → buf.string.bytes = w) ↔ Harmless mt call) := by
  obtain ⟨f, arg⟩ := call
  cases arg with
  | string path => exact agrees.effect_string junk f valid
  | result g o => exact agrees.effect_result junk f valid

/-- After a call both versions show the same strings where the call is harmless, and one string is in
all buffers again. -/
theorem Agrees.step (agrees : Agrees w mt md) (junk : Nat → Buf) (valid : call.arg.Valid mt) :
    ((tsd junk).shown ((tsd junk).step md call) = tls.shown (tls.step mt call) ↔ Harmless mt call) ∧
      (Harmless mt call → ∃ w', Agrees w' (tls.step mt call) ((tsd junk).step md call)) := by
  obtain ⟨F, s, buf, effect, strings⟩ := agrees.effect junk valid
  rw [effect.tls, effect.tsd]
  refine ⟨(agrees.shown_iff F effect.ready).trans strings, fun harmless => ?_⟩
  obtain ⟨same, other⟩ := strings.mpr harmless
  exact ⟨_, agrees.after F effect.ready effect.terminated effect.terminated_tls same other⟩

/-! ### A history -/

/-- The property of each call, at the moment before it. -/
def Each (P : Moment Tls Static → Call → Prop) (calls : List Call) : Prop :=
  ∀ before call, before ++ [call] <+: calls → P (tls.run before) call

section Each

variable {P : Moment Tls Static → Call → Prop} {calls : List Call}

theorem each_nil : Each P [] := by
  intro before call part
  exact absurd (List.prefix_nil.mp part) (by simp)

theorem each_concat (calls : List Call) (call : Call) :
    Each P (calls ++ [call]) ↔ Each P calls ∧ P (tls.run calls) call := by
  constructor
  · intro each
    refine ⟨fun before call part => each before call ?_, each calls call List.prefix_rfl⟩
    exact part.trans (List.prefix_append _ _)
  · rintro ⟨earlier, last⟩ before call part
    rcases List.prefix_concat_iff.mp part with whole | part
    · obtain ⟨rfl, one⟩ := List.append_inj' whole rfl
      obtain rfl := List.singleton_injective one
      exact last
    · exact earlier before call part

end Each

theorem agrees_initial (junk : Nat → Buf) : Agrees [] (tls.run []) ((tsd junk).run []) where
  returned := fun _ => Or.inl ⟨rfl, rfl⟩
  state := Or.inl ⟨rfl, fun _ => rfl⟩

theorem agrees_run {calls : List Call} (junk : Nat → Buf) (valid : Each (fun m call => call.arg.Valid m) calls)
    (harmless : Each Harmless calls) : ∃ w, Agrees w (tls.run calls) ((tsd junk).run calls) := by
  induction calls using List.reverseRecOn with
  | nil => exact ⟨_, agrees_initial junk⟩
  | append_singleton calls call ih =>
    obtain ⟨valid_before, valid_now⟩ := (each_concat _ _).mp valid
    obtain ⟨harmless_before, harmless_now⟩ := (each_concat _ _).mp harmless
    obtain ⟨w, agrees⟩ := ih valid_before harmless_before
    rw [Version.run_concat, Version.run_concat]
    exact (agrees.step junk valid_now).2 harmless_now

theorem observe_concat {calls : List Call} (junk : Nat → Buf)
    (valid : Each (fun m call => call.arg.Valid m) (calls ++ [call])) (harmless : Each Harmless calls) :
    (tsd junk).observe (calls ++ [call]) = tls.observe (calls ++ [call]) ↔ Harmless (tls.run calls) call := by
  obtain ⟨valid_before, valid_now⟩ := (each_concat _ _).mp valid
  obtain ⟨w, agrees⟩ := agrees_run junk valid_before harmless
  rw [Version.observe, Version.observe, Version.run_concat, Version.run_concat]
  exact (agrees.step junk valid_now).1

/-- Both versions show the same strings at every moment where no call writes over a string that is still
read through the pointer of the other function. -/
theorem observes_same_iff (junk : Nat → Buf) (calls : List Call)
    (valid : Each (fun m call => call.arg.Valid m) calls) :
    (∀ before, before <+: calls → (tsd junk).observe before = tls.observe before) ↔ Each Harmless calls := by
  induction calls using List.reverseRecOn with
  | nil =>
    refine iff_of_true ?_ each_nil
    intro before part
    rw [List.prefix_nil.mp part]
    rfl
  | append_singleton calls call ih =>
    have earlier := ih ((each_concat _ _).mp valid).1
    rw [each_concat, ← earlier]
    constructor
    · intro same
      have before_same (before : List Call) (part : before <+: calls) :=
        same before (part.trans (List.prefix_append _ _))
      exact ⟨before_same, (observe_concat junk valid (earlier.mp before_same)).mp (same _ List.prefix_rfl)⟩
    · rintro ⟨same, harmless⟩ before part
      rcases List.prefix_concat_iff.mp part with rfl | part
      · exact (observe_concat junk valid (earlier.mp same)).mpr harmless
      · exact same before part

/-! ### Paths that are strings of the caller -/

theorem tls_string (valid : (Arg.string path).Valid mt) (f : Ts) :
    tls.step mt ⟨f, .string path⟩ =
      mt.after f f.static (mt.state.modify f.static (f.into (toInt path.length) (.outside path))) := by
  have called := tls_call (.string path) mt.state valid.1 valid.2 f
  exact Version.step_call rfl called

theorem shown_string (valid : (Arg.string path).Valid mt) (f : Ts) :
    tls.shown (tls.step mt ⟨f, .string path⟩) f = some (some (f.part path.bytes)) := by
  rw [tls_string valid, shown_tls (after_same _ _ _ _), Moment.after, get_modify, if_pos rfl,
    into_outside f _ valid.2]

theorem shown_other (valid : (Arg.string path).Valid mt) (f : Ts)
    (returned : mt.returned f.other = some (.buffer f.other.static)) :
    tls.shown (tls.step mt ⟨f, .string path⟩) f.other = tls.shown mt f.other := by
  have after := after_other mt f f.static (mt.state.modify f.static (f.into (toInt path.length) (.outside path)))
  rw [returned] at after
  rw [tls_string valid, shown_tls after, shown_tls returned, Moment.after, get_modify, if_neg (other_ne f).2]

/-- A pointer to the start of what a function has returned. -/
theorem text_start (text : (Arg.result g 0).text mt = some path) :
    tls.shown mt g = some (some path.bytes) := by
  cases returned : mt.returned g with
  | none =>
    rw [Arg.text, Arg.pointer, returned] at text
    cases text
  | some r =>
    rw [Arg.text, Arg.pointer, returned] at text
    cases r with
    | literal => cases text
    | null => cases text
    | buffer b =>
      obtain rfl := Option.some.inj text
      rw [shown_tls returned]
      rfl

/-- `dirname_ts("b/c")`, `basename_ts("a/b")` and `basename_ts` of what the first has returned. -/
theorem observes_same_sample :
    (tsd fun _ => Tls.initial.dirnBuf).observe [⟨.dirname, .string ⟨[98, 47, 99], by decide⟩⟩,
        ⟨.basename, .string ⟨[97, 47, 98], by decide⟩⟩, ⟨.basename, .result .dirname 0⟩] =
      tls.observe [⟨.dirname, .string ⟨[98, 47, 99], by decide⟩⟩,
        ⟨.basename, .string ⟨[97, 47, 98], by decide⟩⟩, ⟨.basename, .result .dirname 0⟩] := by
  have first (m : Moment Tls Static) : (Arg.string ⟨[98, 47, 99], by decide⟩).Valid m :=
    ⟨by decide, by decide⟩
  have second (m : Moment Tls Static) : (Arg.string ⟨[97, 47, 98], by decide⟩).Valid m :=
    ⟨by decide, by decide⟩
  have directory := shown_string (first (tls.run [])) .dirname
  have returned : (tls.step (tls.run []) ⟨.dirname, .string ⟨[98, 47, 99], by decide⟩⟩).returned .dirname =
      some (.buffer .dirnBuf) := by
    rw [tls_string (first _)]
    exact after_same _ _ _ _
  have later := (shown_other (second _) .basename returned).trans directory
  refine (observes_same_iff _ _ ?_).mpr ?_ _ List.prefix_rfl
  · refine (each_concat [_, _] _).mpr ⟨(each_concat [_] _).mpr
      ⟨(each_concat [] _).mpr ⟨each_nil, first _⟩, second _⟩, [98], later, by decide⟩
  · refine (each_concat [_, _] _).mpr ⟨(each_concat [_] _).mpr
      ⟨(each_concat [] _).mpr ⟨each_nil, ?_⟩, ?_⟩, ?_⟩
    · intro path shown _ shows
      cases shows
    · intro path shown text shows
      obtain rfl := Option.some.inj text
      obtain rfl := Option.some.inj (Option.some.inj (directory.symm.trans shows))
      exact ⟨by decide, nofun⟩
    · intro path shown text shows
      have same := Option.some.inj (Option.some.inj ((text_start text).symm.trans later))
      obtain rfl := Option.some.inj (Option.some.inj (later.symm.trans shows))
      rw [same]
      exact ⟨by decide, fun _ _ => by decide⟩

/-- `basename_ts("a/b")` and then `dirname_ts("a/b")`. -/
theorem shared_buffer : ¬ ∀ (junk : Nat → Buf) (calls : List Call),
    Each (fun m call => call.arg.Valid m) calls →
      ∀ before, before <+: calls → (tsd junk).observe before = tls.observe before := by
  intro all
  have path (m : Moment Tls Static) : (Arg.string ⟨[97, 47, 98], by decide⟩).Valid m :=
    ⟨by decide, by decide⟩
  have first : Each (fun m call => call.arg.Valid m) [⟨.basename, .string ⟨[97, 47, 98], by decide⟩⟩] :=
    (each_concat [] _).mpr ⟨each_nil, path _⟩
  have valid : Each (fun m call => call.arg.Valid m)
      ([⟨.basename, .string ⟨[97, 47, 98], by decide⟩⟩] ++ [⟨.dirname, .string ⟨[97, 47, 98], by decide⟩⟩]) :=
    (each_concat _ _).mpr ⟨first, path _⟩
  have harmless : Each Harmless [⟨.basename, .string ⟨[97, 47, 98], by decide⟩⟩] := by
    refine (each_concat [] _).mpr ⟨each_nil, ?_⟩
    intro path shown _ shows
    cases shows
  have same := all (fun _ => Tls.initial.dirnBuf) _ valid _ List.prefix_rfl
  have shows := (observe_concat _ valid harmless).mp same _ _ rfl (shown_string (path (tls.run [])) .basename)
  exact absurd shows.1 (by decide)

end Tlpi.ThreadStorage
