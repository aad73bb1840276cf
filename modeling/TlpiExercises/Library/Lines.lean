import Mathlib

/-!
# Lines out of chunks

A reader that keeps the bytes it has not handed out, takes one more chunk when they have no line,
and hands out one line at a call. `accept` says what a chunk adds to the bytes that are kept; a
feed is the chunks to come, with `none` for a delivery that fails.
-/

namespace Lines

variable {β γ ε : Type} [DecidableEq β] (sep : β)

/-- A line ends with its one separator. -/
def IsLine (line : List β) : Prop := ∃ body, line = body ++ [sep] ∧ sep ∉ body

/-- The first line and what follows it. -/
def takeLine : List β → Option (List β × List β)
  | [] => none
  | c :: u => if c = sep then some ([c], u) else (takeLine u).map (fun r => (c :: r.1, r.2))

/-- The bytes after the last separator. -/
def unfinished : List β → List β
  | [] => []
  | c :: u => if sep ∈ c :: u then unfinished u else c :: u

/-- The lines of a stream. The last one need not be finished. -/
def split : List β → List (List β)
  | [] => []
  | c :: u =>
    if c = sep then [c] :: split u
    else
      match split u with
      | [] => [[c]]
      | line :: rest => (c :: line) :: rest

inductive Reply (β : Type) where
  | line (line : List β)
  | eof
  | failed
  deriving DecidableEq

theorem takeLine_eq_none {u : List β} : takeLine sep u = none ↔ sep ∉ u := by
  induction u with
  | nil => simp [takeLine]
  | cons c u ih =>
    unfold takeLine
    by_cases here : c = sep
    · simp [here]
    · simp [here, ih, Ne.symm here]

theorem takeLine_exists {u : List β} (present : ¬ sep ∉ u) :
    ∃ line rest, takeLine sep u = some (line, rest) := by
  obtain ⟨⟨line, rest⟩, taken⟩ :=
    Option.ne_none_iff_exists'.mp ((takeLine_eq_none sep).not.mpr present)
  exact ⟨line, rest, taken⟩

theorem takeLine_some {u line rest : List β} (h : takeLine sep u = some (line, rest)) :
    u = line ++ rest ∧ IsLine sep line := by
  induction u generalizing line with
  | nil => cases h
  | cons c u ih =>
    unfold takeLine at h
    split at h
    · rename_i here
      simp only [Option.some.injEq, Prod.mk.injEq] at h
      obtain ⟨rfl, rfl⟩ := h
      exact ⟨rfl, [], by rw [here]; rfl, by simp⟩
    · rename_i other
      obtain ⟨⟨l, r⟩, found, same⟩ := Option.map_eq_some_iff.mp h
      simp only [Prod.mk.injEq] at same
      obtain ⟨rfl, rfl⟩ := same
      obtain ⟨split, body, rfl, free⟩ := ih found
      exact ⟨by rw [split]; rfl, c :: body, rfl, by simp [free, Ne.symm other]⟩

theorem takeLine_append {body rest : List β} (free : sep ∉ body) :
    takeLine sep (body ++ sep :: rest) = some (body ++ [sep], rest) := by
  induction body with
  | nil => simp [takeLine]
  | cons c body ih =>
    rw [List.mem_cons, not_or] at free
    rw [List.cons_append, takeLine, if_neg (Ne.symm free.1), ih free.2]
    rfl

theorem takeLine_line {line rest : List β} (isLine : IsLine sep line) :
    takeLine sep (line ++ rest) = some (line, rest) := by
  obtain ⟨body, rfl, free⟩ := isLine
  rw [List.append_assoc, List.singleton_append, takeLine_append sep free]

theorem split_eq_nil {u : List β} : split sep u = [] ↔ u = [] := by
  cases u with
  | nil => simp [split]
  | cons c u =>
    rw [split]
    split
    · simp
    · split <;> simp

theorem split_append {body rest : List β} (free : sep ∉ body) :
    split sep (body ++ sep :: rest) = (body ++ [sep]) :: split sep rest := by
  induction body with
  | nil => simp [split]
  | cons c body ih =>
    rw [List.mem_cons, not_or] at free
    rw [List.cons_append, split, if_neg (Ne.symm free.1), ih free.2]
    rfl

theorem split_line {line rest : List β} (isLine : IsLine sep line) :
    split sep (line ++ rest) = line :: split sep rest := by
  obtain ⟨body, rfl, free⟩ := isLine
  rw [List.append_assoc, List.singleton_append, split_append sep free]

theorem split_flatten {lines : List (List β)} (rest : List β)
    (all : ∀ line ∈ lines, IsLine sep line) :
    split sep (lines.flatten ++ rest) = lines ++ split sep rest := by
  induction lines with
  | nil => rfl
  | cons line lines ih =>
    rw [List.forall_mem_cons] at all
    rw [List.flatten_cons, List.append_assoc, split_line sep all.1, ih all.2, List.cons_append]

theorem split_free {u : List β} (free : sep ∉ u) (nonempty : u ≠ []) : split sep u = [u] := by
  induction u with
  | nil => exact absurd rfl nonempty
  | cons c u ih =>
    rw [List.mem_cons, not_or] at free
    rw [split, if_neg (Ne.symm free.1)]
    cases u with
    | nil => rfl
    | cons d u => rw [ih free.2 (List.cons_ne_nil d u)]

theorem flatten_split (u : List β) : (split sep u).flatten = u := by
  induction u with
  | nil => rfl
  | cons c u ih =>
    rw [split]
    split
    · rw [List.flatten_cons, ih]
      rfl
    · split
      · rename_i none
        rw [(split_eq_nil sep).mp none]
        rfl
      · rename_i line rest same
        rw [same] at ih
        rw [List.flatten_cons, List.cons_append, ← List.flatten_cons, ih]

theorem nonempty_of_mem_split {u line : List β} (member : line ∈ split sep u) : line ≠ [] := by
  induction u generalizing line with
  | nil => cases member
  | cons c u ih =>
    rw [split] at member
    split at member
    · rcases List.mem_cons.mp member with rfl | member
      · exact List.cons_ne_nil _ _
      · exact ih member
    · split at member
      · rw [List.mem_singleton.mp member]
        exact List.cons_ne_nil _ _
      · rename_i first rest same
        rcases List.mem_cons.mp member with rfl | member
        · exact List.cons_ne_nil _ _
        · exact ih (by rw [same]; exact List.mem_cons_of_mem _ member)

/-- Every line is finished exactly when the stream does not stop inside one. -/
theorem split_finished {u : List β} :
    (∀ line ∈ split sep u, IsLine sep line) ↔ ∀ c ∈ u.getLast?, c = sep := by
  induction length : u.length using Nat.strong_induction_on generalizing u with
  | _ k shorter =>
    cases taken : takeLine sep u with
    | none =>
      have free := (takeLine_eq_none sep).mp taken
      cases u with
      | nil => simp [split]
      | cons c u =>
        rw [split_free sep free (List.cons_ne_nil c u)]
        have last := List.getLast_mem (List.cons_ne_nil c u)
        constructor
        · intro all
          obtain ⟨body, same, _⟩ := all _ List.mem_cons_self
          exact absurd (by rw [same]; simp) free
        · intro all
          have same := all _ (by rw [List.getLast?_eq_some_getLast (List.cons_ne_nil c u)]; rfl)
          rw [same] at last
          exact absurd last free
    | some result =>
      obtain ⟨line, rest⟩ := result
      obtain ⟨rfl, isLine⟩ := takeLine_some sep taken
      have finished := isLine
      obtain ⟨body, same, _⟩ := isLine
      have fewer : rest.length < k := by
        rw [← length, List.length_append, same, List.length_append, List.length_singleton]
        omega
      have later := shorter rest.length fewer rfl
      rw [split_line sep finished, List.forall_mem_cons, and_iff_right finished, later]
      cases rest with
      | nil => simp [same]
      | cons d rest => rw [List.getLast?_append_of_ne_nil _ (List.cons_ne_nil d rest)]

theorem unfinished_free {u : List β} (free : sep ∉ u) : unfinished sep u = u := by
  cases u with
  | nil => rfl
  | cons c u => rw [unfinished, if_neg free]

theorem unfinished_append {body rest : List β} :
    unfinished sep (body ++ sep :: rest) = unfinished sep rest := by
  induction body with
  | nil => simp [unfinished]
  | cons c body ih =>
    rw [List.cons_append, unfinished, if_pos (by simp), ih]

theorem unfinished_of_takeLine {u line rest : List β} (h : takeLine sep u = some (line, rest)) :
    unfinished sep u = unfinished sep rest := by
  obtain ⟨rfl, body, rfl, _⟩ := takeLine_some sep h
  rw [List.append_assoc, List.singleton_append, unfinished_append]

theorem unfinished_unfinished {u rest : List β} :
    unfinished sep (unfinished sep u ++ rest) = unfinished sep (u ++ rest) := by
  induction u with
  | nil => rfl
  | cons c u ih =>
    by_cases present : sep ∈ c :: u
    · have later : sep ∈ c :: (u ++ rest) := List.mem_append_left rest present
      rw [unfinished, if_pos present, ih, List.cons_append, unfinished, if_pos later]
    · rw [unfinished_free sep present]

/-- What is left over of a stream of short lines is shorter than a line. -/
theorem unfinished_short {lines : List (List β)} {u rest : List β} {bound : Nat}
    (pos : 0 < bound) (all : ∀ line ∈ lines, IsLine sep line ∧ line.length ≤ bound)
    (cut : u ++ rest = lines.flatten) : (unfinished sep u).length < bound := by
  induction lines generalizing u with
  | nil =>
    rw [List.flatten_nil, List.append_eq_nil_iff] at cut
    rw [cut.1]
    exact pos
  | cons line lines ih =>
    obtain ⟨⟨body, rfl, free⟩, short⟩ := all _ List.mem_cons_self
    rw [List.flatten_cons, List.append_assoc, List.singleton_append] at cut
    rcases List.append_eq_append_iff.mp cut with ⟨more, same, _⟩ | ⟨more, rfl, same⟩
    · have free' : sep ∉ u := fun h => free (by rw [same]; exact List.mem_append_left _ h)
      rw [unfinished_free sep free']
      have length := congrArg List.length same
      rw [List.length_append] at length short
      rw [List.length_singleton] at short
      omega
    · cases more with
      | nil =>
        rw [List.append_nil, unfinished_free sep free]
        rw [List.length_append, List.length_singleton] at short
        omega
      | cons c more =>
        rw [List.cons_append, List.cons.injEq] at same
        obtain ⟨rfl, same⟩ := same
        rw [unfinished_append]
        exact ih (fun line h => all line (List.mem_cons_of_mem _ h)) same.symm

section Reader

variable (accept : List β → γ → Except ε (List β))

def next (u : List β) (feed : List (Option γ)) :
    Except ε (Reply β × List β × List (Option γ)) :=
  match takeLine sep u, feed with
  | some (line, rest), feed => .ok (.line line, rest, feed)
  | none, [] => .ok (.eof, u, [])
  | none, none :: feed => .ok (.failed, u, feed)
  | none, some chunk :: feed =>
    match accept u chunk with
    | .error e => .error e
    | .ok v => next v feed

def calls : Nat → List β → List (Option γ) → Except ε (List (Reply β))
  | 0, _, _ => .ok []
  | n + 1, u, feed =>
    match next sep accept u feed with
    | .error e => .error e
    | .ok (reply, v, feed') => (calls n v feed').map (fun replies => reply :: replies)

/-- Every chunk of the feed is accepted behind the bytes that are left over when it comes. -/
def Accepted : List β → List (Option γ) → Prop
  | _, [] => True
  | u, none :: feed => Accepted u feed
  | u, some chunk :: feed => ∃ v, accept u chunk = .ok v ∧ Accepted (unfinished sep v) feed

variable {sep accept}

theorem next_line {u line rest : List β} {feed : List (Option γ)}
    (h : takeLine sep u = some (line, rest)) :
    next sep accept u feed = .ok (.line line, rest, feed) := by
  unfold next
  rw [h]

theorem next_chunk {u : List β} {chunk : γ} {feed : List (Option γ)} (free : sep ∉ u) :
    next sep accept u (some chunk :: feed) =
      match accept u chunk with
      | .error e => .error e
      | .ok v => next sep accept v feed := by
  conv => lhs; unfold next
  rw [(takeLine_eq_none sep).mpr free]

theorem next_eof {u : List β} (free : sep ∉ u) :
    next sep accept u [] = .ok (.eof, u, []) := by
  unfold next
  rw [(takeLine_eq_none sep).mpr free]

theorem next_failed {u : List β} {feed : List (Option γ)} (free : sep ∉ u) :
    next sep accept u (none :: feed) = .ok (.failed, u, feed) := by
  unfold next
  rw [(takeLine_eq_none sep).mpr free]

/-! ### When every call succeeds -/

theorem next_accepted {u : List β} {feed : List (Option γ)}
    (accepted : Accepted sep accept (unfinished sep u) feed) :
    ∃ reply v feed', next sep accept u feed = .ok (reply, v, feed') ∧
      Accepted sep accept (unfinished sep v) feed' := by
  induction feed generalizing u with
  | nil =>
    by_cases free : sep ∉ u
    · exact ⟨.eof, u, [], next_eof free, trivial⟩
    · obtain ⟨line, rest, taken⟩ := takeLine_exists sep free
      exact ⟨.line line, rest, [], next_line taken, trivial⟩
  | cons delivery feed ih =>
    by_cases free : sep ∉ u
    · rw [unfinished_free sep free] at accepted
      cases delivery with
      | none =>
        refine ⟨.failed, u, feed, next_failed free, ?_⟩
        rw [unfinished_free sep free]
        exact accepted
      | some chunk =>
        obtain ⟨v, kept, accepted⟩ := accepted
        rw [next_chunk free, kept]
        exact ih accepted
    · obtain ⟨line, rest, taken⟩ := takeLine_exists sep free
      rw [unfinished_of_takeLine sep taken] at accepted
      exact ⟨.line line, rest, delivery :: feed, next_line taken, accepted⟩

theorem calls_step {n : Nat} {u v : List β} {feed feed' : List (Option γ)} {reply : Reply β}
    {replies : List (Reply β)} (step : next sep accept u feed = .ok (reply, v, feed'))
    (h : calls sep accept (n + 1) u feed = .ok replies) :
    ∃ rest, calls sep accept n v feed' = .ok rest ∧ replies = reply :: rest := by
  simp only [calls, step] at h
  cases after : calls sep accept n v feed' with
  | error e =>
    rw [after] at h
    cases h
  | ok rest =>
    rw [after] at h
    exact ⟨rest, rfl, (Except.ok.inj h).symm⟩

theorem next_isLine {u v line : List β} {feed feed' : List (Option γ)}
    (h : next sep accept u feed = .ok (.line line, v, feed')) : IsLine sep line := by
  induction feed generalizing u with
  | nil =>
    by_cases free : sep ∉ u
    · rw [next_eof free] at h
      cases h
    · obtain ⟨first, rest, taken⟩ := takeLine_exists sep free
      rw [next_line taken] at h
      cases h
      exact (takeLine_some sep taken).2
  | cons delivery feed ih =>
    by_cases free : sep ∉ u
    · cases delivery with
      | none =>
        rw [next_failed free] at h
        cases h
      | some chunk =>
        rw [next_chunk free] at h
        split at h
        · cases h
        · exact ih h
    · obtain ⟨first, rest, taken⟩ := takeLine_exists sep free
      rw [next_line taken] at h
      cases h
      exact (takeLine_some sep taken).2

theorem calls_isLine {u line : List β} {feed : List (Option γ)} {n : Nat} {replies : List (Reply β)}
    (h : calls sep accept n u feed = .ok replies) (member : .line line ∈ replies) :
    IsLine sep line := by
  induction n generalizing u feed replies with
  | zero =>
    obtain rfl := Except.ok.inj h
    cases member
  | succ n ih =>
    cases step : next sep accept u feed with
    | error e =>
      simp only [calls, step] at h
      cases h
    | ok result =>
      obtain ⟨reply, v, feed'⟩ := result
      obtain ⟨rest, after, rfl⟩ := calls_step step h
      rcases List.mem_cons.mp member with rfl | member
      · exact next_isLine step
      · exact ih after member

theorem accepted_of_calls {u : List β} {feed : List (Option γ)}
    (h : ∀ n, ∃ replies, calls sep accept n u feed = .ok replies) :
    Accepted sep accept (unfinished sep u) feed := by
  induction feed generalizing u with
  | nil => trivial
  | cons delivery feed ih =>
    -- Lines that are kept already come out before the next delivery.
    induction length : u.length using Nat.strong_induction_on generalizing u with
    | _ k shorter =>
      by_cases free : sep ∉ u
      · rw [unfinished_free sep free]
        cases delivery with
        | none =>
          have after := ih (u := u) (fun n => by
            obtain ⟨replies, result⟩ := h (n + 1)
            obtain ⟨rest, result, _⟩ := calls_step (next_failed free) result
            exact ⟨rest, result⟩)
          rwa [unfinished_free sep free] at after
        | some chunk =>
          cases kept : accept u chunk with
          | error e =>
            obtain ⟨replies, result⟩ := h 1
            simp [calls, next_chunk free, kept] at result
          | ok v =>
            have same : next sep accept u (some chunk :: feed) = next sep accept v feed := by
              rw [next_chunk free, kept]
            refine ⟨v, kept, ih fun n => ?_⟩
            cases n with
            | zero => exact ⟨[], rfl⟩
            | succ n =>
              have result := h (n + 1)
              simp only [calls, same] at result
              exact result
      · obtain ⟨line, rest, taken⟩ := takeLine_exists sep free
        obtain ⟨split, body, isLine, _⟩ := takeLine_some sep taken
        rw [unfinished_of_takeLine sep taken]
        refine shorter rest.length ?_ (fun n => ?_) rfl
        · rw [← length, split, isLine]
          simp only [List.length_append, List.length_singleton]
          omega
        · obtain ⟨replies, result⟩ := h (n + 1)
          obtain ⟨replies', result, _⟩ := calls_step (next_line taken) result
          exact ⟨replies', result⟩

/-- The reader never fails exactly when it accepts every chunk where it comes. -/
theorem calls_iff {u : List β} {feed : List (Option γ)} :
    (∀ n, ∃ replies, calls sep accept n u feed = .ok replies) ↔
      Accepted sep accept (unfinished sep u) feed := by
  refine ⟨accepted_of_calls, fun accepted n => ?_⟩
  induction n generalizing u feed with
  | zero => exact ⟨[], rfl⟩
  | succ n ih =>
    obtain ⟨reply, v, feed', step, accepted⟩ := next_accepted accepted
    obtain ⟨replies, rest⟩ := ih accepted
    exact ⟨reply :: replies, by simp only [calls, step, rest, Except.map]⟩

/-! ### What the calls return -/

variable {bytes : γ → List β}

def stream (bytes : γ → List β) : List (Option γ) → List β
  | [] => []
  | none :: feed => stream bytes feed
  | some chunk :: feed => bytes chunk ++ stream bytes feed

def failures (feed : List (Option γ)) : Nat := feed.countP Option.isNone

theorem first_line {lines : List (List β)} {u line rest more : List β}
    (all : ∀ line ∈ lines, IsLine sep line) (cut : u ++ more = lines.flatten)
    (taken : takeLine sep u = some (line, rest)) :
    ∃ lines', lines = line :: lines' ∧ rest ++ more = lines'.flatten := by
  obtain ⟨rfl, isLine⟩ := takeLine_some sep taken
  have first : takeLine sep (line ++ (rest ++ more)) = some (line, rest ++ more) :=
    takeLine_line sep isLine
  rw [← List.append_assoc, cut] at first
  cases lines with
  | nil => cases first
  | cons line' lines' =>
    rw [List.flatten_cons, takeLine_line sep (all line' List.mem_cons_self)] at first
    simp only [Option.some.injEq, Prod.mk.injEq] at first
    obtain ⟨rfl, same⟩ := first
    exact ⟨lines', rfl, same.symm⟩

omit [DecidableEq β] in
theorem no_lines {lines : List (List β)} {u : List β} (all : ∀ line ∈ lines, IsLine sep line)
    (cut : u = lines.flatten) (free : sep ∉ u) : lines = [] := by
  cases lines with
  | nil => rfl
  | cons line rest =>
    obtain ⟨body, rfl, _⟩ := all line List.mem_cons_self
    rw [List.flatten_cons, List.append_assoc] at cut
    exact absurd (by rw [cut]; simp) free

/-- What one call takes from the lines still to come. -/
inductive Takes (bytes : γ → List β) (lines : List (List β)) (feed : List (Option γ)) (v : List β)
    (feed' : List (Option γ)) : Reply β → Prop where
  | failed (cut : v ++ stream bytes feed' = lines.flatten)
      (fewer : failures feed' + 1 ≤ failures feed) : Takes bytes lines feed v feed' .failed
  | line (line : List β) (rest : List (List β)) (first : lines = line :: rest)
      (cut : v ++ stream bytes feed' = rest.flatten) (fewer : failures feed' ≤ failures feed) :
      Takes bytes lines feed v feed' (.line line)
  | eof (none : lines = []) (cut : v ++ stream bytes feed' = [])
      (fewer : failures feed' ≤ failures feed) : Takes bytes lines feed v feed' .eof

theorem next_takes_line {lines : List (List β)} {u v : List β} {feed feed' : List (Option γ)}
    {reply : Reply β} (all : ∀ line ∈ lines, IsLine sep line)
    (cut : u ++ stream bytes feed = lines.flatten) (present : ¬ sep ∉ u)
    (h : next sep accept u feed = .ok (reply, v, feed')) :
    feed' ⊆ feed ∧ Takes bytes lines feed v feed' reply := by
  obtain ⟨line, rest, taken⟩ := takeLine_exists sep present
  rw [next_line taken] at h
  simp only [Except.ok.injEq, Prod.mk.injEq] at h
  obtain ⟨rfl, rfl, rfl⟩ := h
  obtain ⟨lines', first, cut'⟩ := first_line all cut taken
  exact ⟨List.Subset.refl _, .line line lines' first cut' le_rfl⟩

theorem next_takes {lines : List (List β)} {u v : List β} {feed feed' : List (Option γ)}
    {reply : Reply β} (all : ∀ line ∈ lines, IsLine sep line)
    (cut : u ++ stream bytes feed = lines.flatten)
    (appends : ∀ u chunk v, some chunk ∈ feed → accept u chunk = .ok v → v = u ++ bytes chunk)
    (h : next sep accept u feed = .ok (reply, v, feed')) :
    feed' ⊆ feed ∧ Takes bytes lines feed v feed' reply := by
  induction feed generalizing u with
  | nil =>
    by_cases free : sep ∉ u
    · rw [next_eof free] at h
      simp only [Except.ok.injEq, Prod.mk.injEq] at h
      obtain ⟨rfl, rfl, rfl⟩ := h
      have none := no_lines all (by simpa [stream] using cut) free
      exact ⟨List.Subset.refl _, .eof none (by rw [cut, none]; rfl) le_rfl⟩
    · exact next_takes_line all cut free h
  | cons delivery feed ih =>
    by_cases free : sep ∉ u
    · cases delivery with
      | none =>
        rw [next_failed free] at h
        simp only [Except.ok.injEq, Prod.mk.injEq] at h
        obtain ⟨rfl, rfl, rfl⟩ := h
        exact ⟨List.subset_cons_self _ _, .failed cut (by simp [failures])⟩
      | some chunk =>
        rw [next_chunk free] at h
        cases kept : accept u chunk with
        | error e =>
          rw [kept] at h
          cases h
        | ok w =>
          rw [kept] at h
          have appended := appends u chunk w List.mem_cons_self kept
          have same : failures (some chunk :: feed) = failures feed := by simp [failures]
          have cut' : w ++ stream bytes feed = lines.flatten := by
            rw [appended, List.append_assoc]
            exact cut
          obtain ⟨sub, takes⟩ :=
            ih cut' (fun u c v member => appends u c v (List.mem_cons_of_mem _ member)) h
          refine ⟨List.Subset.trans sub (List.subset_cons_self _ _), ?_⟩
          cases takes with
          | failed cut fewer => exact .failed cut (fewer.trans_eq same.symm)
          | line line rest first cut fewer =>
            exact .line line rest first cut (fewer.trans_eq same.symm)
          | eof none cut fewer => exact .eof none cut (fewer.trans_eq same.symm)
    · exact next_takes_line all cut free h

/-- The calls that do not fail return the lines in order and then the end of the stream, and no
more calls fail than deliveries. -/
theorem calls_in_order {lines : List (List β)} {u : List β} {feed : List (Option γ)} {n : Nat}
    {replies : List (Reply β)} (all : ∀ line ∈ lines, IsLine sep line)
    (cut : u ++ stream bytes feed = lines.flatten)
    (appends : ∀ u chunk v, some chunk ∈ feed → accept u chunk = .ok v → v = u ++ bytes chunk)
    (h : calls sep accept n u feed = .ok replies) :
    replies.length = n ∧ replies.count .failed ≤ failures feed ∧
      replies.filter (· ≠ .failed) <+: lines.map .line ++ List.replicate n .eof := by
  induction n generalizing u feed lines replies with
  | zero =>
    obtain rfl := Except.ok.inj h
    exact ⟨rfl, Nat.zero_le _, List.nil_prefix⟩
  | succ n ih =>
    cases step : next sep accept u feed with
    | error e =>
      simp only [calls, step] at h
      cases h
    | ok result =>
      obtain ⟨reply, v, feed'⟩ := result
      obtain ⟨rest, after, rfl⟩ := calls_step step h
      obtain ⟨sub, takes⟩ := next_takes all cut appends step
      have appends' : ∀ u chunk v, some chunk ∈ feed' → accept u chunk = .ok v →
          v = u ++ bytes chunk := fun u c v member => appends u c v (sub member)
      cases takes with
      | failed left fewer =>
        obtain ⟨length, count, order⟩ := ih all left appends' after
        refine ⟨by rw [List.length_cons, length], ?_, ?_⟩
        · rw [List.count_cons_self]
          omega
        · rw [List.filter_cons_of_neg (by simp), List.replicate_succ', ← List.append_assoc]
          exact order.trans (List.prefix_append _ _)
      | line line lines' first left fewer =>
        subst first
        obtain ⟨length, count, order⟩ := ih (fun l m => all l (List.mem_cons_of_mem _ m)) left
          appends' after
        refine ⟨by rw [List.length_cons, length], ?_, ?_⟩
        · rw [List.count_cons_of_ne (by simp)]
          omega
        · rw [List.filter_cons_of_pos (by simp), List.map_cons, List.cons_append,
            List.prefix_cons_inj, List.replicate_succ', ← List.append_assoc]
          exact order.trans (List.prefix_append _ _)
      | eof none left fewer =>
        subst none
        obtain ⟨length, count, order⟩ := ih all left appends' after
        refine ⟨by rw [List.length_cons, length], ?_, ?_⟩
        · rw [List.count_cons_of_ne (by simp)]
          omega
        · rw [List.filter_cons_of_pos (by simp), List.replicate_succ]
          exact (List.prefix_cons_inj _).mpr order

end Reader

end Lines
