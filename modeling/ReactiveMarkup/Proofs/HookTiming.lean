-- SUMMARY: When the hook of a write runs before the write returns.
import ReactiveMarkup.Proofs.CallStack
import ReactiveMarkup.Proofs.WriteOrder

/-!
# When hooks run

The hook for a write is put in the queue when the delivery of the change is over, and before the
watchers of the path are called. So a subscriber that runs the queue does not start it, but a
watcher that runs the queue does, and then the hook runs within the write.
`Machine.hook_started_iff` says that there is no other way.
-/

namespace ReactiveMarkup

variable {σ : Type}

/-- Whether a hook is dropped. -/
def StateEvent.isDropped : StateEvent σ → Bool
  | dropped _ => true
  | wrote _ _ | deferred _ | watched _ _ | settled _ | hooked _ => false

private theorem StateEvent.isTaken_of_isDropped (e : StateEvent σ) (h : e.isDropped = true) :
    e.isTaken = true := by
  cases e with
  | dropped _ => rfl
  | wrote _ _ | deferred _ | watched _ _ | settled _ | hooked _ => cases h

/-! ## How a numbering goes on -/

theorem mem_numbersOf {kind : StateEvent σ → Bool} {l : List (Nat × StateEvent σ)} {i : Nat} :
    i ∈ numbersOf kind l ↔ ∃ e, (i, e) ∈ l ∧ kind e = true := by
  simp [numbersOf]

namespace Numbering

variable {b : Behavior σ} {v v' : Writes σ} {s : Numbering σ} {e : List (StateEvent σ)} {i : Nat}
  {l : List Nat}

private theorem prefix_events_foldl (t : List (StateEvent σ)) (s : Numbering σ) :
    s.events <+: (t.foldl after s).events := by
  induction t generalizing s with
  | nil => exact List.prefix_refl _
  | cons e t ih =>
    refine List.IsPrefix.trans ?_ (ih (s.after e))
    cases e with
    | wrote path change? =>
      cases change? with
      | none => exact List.prefix_refl _
      | some c => exact List.prefix_append _ _
    | deferred _ | watched _ _ | settled _ | hooked _ | dropped _ => exact List.prefix_append _ _

/-- What has happened for a write stays so. -/
theorem numbersOf_foldl {kind : StateEvent σ → Bool} (h : i ∈ numbersOf kind s.events)
    (t : List (StateEvent σ)) : i ∈ numbersOf kind (t.foldl after s).events :=
  have ⟨e, he, hk⟩ := mem_numbersOf.1 h
  mem_numbersOf.2 ⟨e, (prefix_events_foldl t s).subset he, hk⟩

/-- The writes that are open stay so until the innermost is over. -/
private theorem suffix_opened_foldl (hv : Notify b v e v') (h : l <:+ s.opened)
    (hle : l.length ≤ (e.foldl after s).opened.length) : l <:+ (e.foldl after s).opened := by
  cases hv with
  | rest | silent path | watch c watcher waiting | hook c | drop c => exact h
  | write c => exact h.trans (List.suffix_cons _ _)
  | react c => cases hh : b.hook?.isSome <;> simpa [hh, after] using h
  | settle c => exact List.suffix_of_suffix_length_le h (List.tail_suffix _) hle

/-- A hook that was deferred has left the queue or is in it. -/
theorem Tracks.mem_deferred_iff (h : s.Tracks v) :
    i ∈ numbersOf StateEvent.isDeferred s.events ↔ i ∈ numbersOf StateEvent.isTaken s.events ∨
    i ∈ s.queued := by
  rw [h.fifo, List.mem_append]

/-- A hook that leaves the queue has been in it. -/
private theorem Tracks.queued_of_taken (h : s.Tracks v) (hv : Notify b v e v')
    {kind : StateEvent σ → Bool}
    (hkind : ∀ x, kind x = true → x.isTaken = true)
    (hnew : i ∈ numbersOf kind (e.foldl after s).events)
    (hold : i ∉ numbersOf kind s.events) : ∃ x ∈ e, kind x = true ∧ i ∈ s.queued := by
  have hother {x : StateEvent σ} {k : Nat} (hmem : i ∈ numbersOf kind (s.events ++ [(k, x)]))
      (hx : x.isTaken = false) : False := by
    have hnot : kind x = false := by
      cases hk : kind x with
      | false => rfl
      | true =>
        rw [hkind x hk] at hx
        cases hx
    rw [numbersOf_concat_of_not hnot] at hmem
    exact hold hmem
  -- Whoever takes a hook takes the first.
  have htake {x : StateEvent σ} {c : Change} {o : List (OpenWrite σ)} {q : List Change}
    (ht : s.Tracks ⟨o, c :: q⟩)
      (hmem : i ∈ numbersOf kind (s.events ++ [(s.queued.headD 0, x)])) : kind x = true ∧
      i ∈ s.queued := by
    obtain ⟨y, hy, hk⟩ := mem_numbersOf.1 hmem
    rcases List.mem_append.1 hy with hy | hy
    · exact absurd (mem_numbersOf.2 ⟨y, hy, hk⟩) hold
    · obtain ⟨rfl, rfl⟩ := Prod.mk.inj (List.mem_singleton.1 hy)
      refine ⟨hk, ?_⟩
      have hqueued := ht.queued
      cases hs : s.queued with
      | nil => simp [hs] at hqueued
      | cons j js => exact List.mem_cons_self
  cases hv with
  | rest | silent path => exact absurd hnew hold
  | write c | watch c watcher waiting | settle c => exact (hother hnew rfl).elim
  | react c =>
    cases hh : b.hook?.isSome with
    | false =>
      simp only [hh, Bool.false_eq_true, if_false] at hnew
      exact absurd hnew hold
    | true =>
      simp only [hh, if_true] at hnew
      exact (hother hnew rfl).elim
  | hook c => exact ⟨_, List.mem_singleton_self _, htake h hnew⟩
  | drop c => exact ⟨_, List.mem_singleton_self _, htake h hnew⟩

end Numbering

namespace Machine

variable {m : Machine σ} {state : StateId} {c : Change} {i : Nat} {rest below : List (Frame σ)}
  {s : Numbering σ}

/-! ## Who starts a hook -/

/-- A hook is started by a run of the queue. -/
private theorem drain_of_hooked (h : Event.state state (.hooked c) ∈ m.events) :
    ∃ ran next below, m.stack = .drain ran next :: below := by
  obtain ⟨hook, queue, ran, next, below, hstack, -⟩ := step_of_hooked h
  exact ⟨ran, next, below, hstack⟩

/-- A run of the queue goes on until the queue is empty. -/
private theorem drain_stays {ran : Nat} {reply : Nat → Script σ}
    (h : m.stack = .drain ran reply :: below)
    (hqueue : m.world.queue ≠ []) : ∃ outer ran, m.step.stack = outer ++
      .drain ran reply :: below := by
  obtain ⟨w, stack⟩ := m
  obtain rfl : stack = .drain ran reply :: below := h
  have hstep : step ⟨w, .drain ran reply :: below⟩ = drain w below ran reply := rfl
  obtain ⟨hempty, _⟩ | ⟨script, _, _, hd, _⟩ | ⟨_, _, _, _, _, _, _, hd, _⟩ |
    ⟨_, _, _, _, _, hd, _⟩ :=
    drain_cases w below ran reply
  · exact absurd hempty hqueue
  · exact ⟨[.run script, .mark .task], ran + 1, by rw [hstep, hd]; rfl⟩
  · exact ⟨[_, _], ran + 1, by rw [hstep, hd]; rfl⟩
  · exact ⟨[], ran + 1, by rw [hstep, hd]; rfl⟩

/-- A run of the queue that is over has found the queue empty. -/
private theorem exists_drained {ran : Nat} {reply : Nat → Script σ} {n : Nat}
    (h : m.stack = .drain ran reply :: below) (hlt : (run n m).stack.length ≤ below.length) :
    ∃ j < n, ∃ ran, (run j m).stack = .drain ran reply :: below ∧ (run j m).world.queue = [] := by
  by_contra hnot
  have hstays : ∀ j ≤ n, ∃ outer ran, (run j m).stack = outer ++ .drain ran reply :: below := by
    intro j hj
    induction j with
    | zero => exact ⟨[], ran, h⟩
    | succ j ih =>
      obtain ⟨outer, ran, hstack⟩ := ih (Nat.le_of_succ_le hj)
      rw [run_succ_step]
      cases outer with
      | cons f outer =>
        obtain ⟨outer', hstack'⟩ := below_step hstack
        exact ⟨outer', ran, hstack'⟩
      | nil => exact drain_stays hstack fun hempty => hnot ⟨j, hj, ran, hstack, hempty⟩
  obtain ⟨outer, ran, hstack⟩ := hstays n (Nat.le_refl n)
  rw [hstack, List.length_append, List.length_cons] at hlt
  omega

/-! ## A write that is going on -/

/-- The write with the number is going on above a part of the stack: its change is with the
subscribers, or its watchers are called and the hook has been deferred. -/
structure Ongoing (state : StateId) (c : Change) (i : Nat) (rest : List (Frame σ)) (s : Numbering σ)
    (m : Machine σ) : Prop where
  opened : ∃ older, older.length = (rest.filterMap (·.openWrite? state)).length ∧
    i :: older <:+ s.opened
  stack : ∃ above f, m.stack = above ++ f :: rest ∧ (f = .react state c ∨
    ∃ waiting, f = .watch state c waiting ∧
      ((m.world.behavior state).hook?.isSome → i ∈ numbersOf StateEvent.isDeferred s.events))

namespace Ongoing

/-- The number stands for the write that is going on. -/
theorem standsFor {above : List (Frame σ)} {f : Frame σ} {o : OpenWrite σ}
    (h : Ongoing state c i rest s m)
    (ht : s.Tracks (m.writes state)) (hstack : m.stack = above ++ f :: rest)
    (hf : f.openWrite? state = some o) :
    Numbering.StandsFor s.writes s.events i o ∧ (above = [] → s.opened.headD 0 = i) := by
  obtain ⟨older, hlength, outer, hopened⟩ := h.opened
  have hwrites : (m.writes state).opened =
      above.filterMap (·.openWrite? state) ++ o :: rest.filterMap (·.openWrite? state) := by
    simp [writes, hstack, hf]
  have hall := ht.opened
  have houter : outer.length = (above.filterMap (·.openWrite? state)).length := by
    have hlengths := hall.length_eq
    rw [hwrites, ← hopened] at hlengths
    simp only [List.length_append, List.length_cons] at hlengths
    omega
  rw [hwrites, ← hopened] at hall
  have hinner := List.forall₂_drop_append _ _ _ hall
  rw [← houter, List.drop_left] at hinner
  obtain ⟨hi, -⟩ := List.forall₂_cons.1 hinner
  refine ⟨hi, ?_⟩
  rintro rfl
  obtain rfl := List.eq_nil_of_length_eq_zero houter
  rw [← hopened]
  rfl

/-- The write stays among the open ones as long as there is a frame for it. -/
theorem opened_step {above : List (Frame σ)} {f : Frame σ} {o : OpenWrite σ}
    (h : Ongoing state c i rest s m)
    (ht : s.Tracks (m.writes state)) (hstack : m.step.stack = above ++ f :: rest)
    (hf : f.openWrite? state = some o) : ∃ older, older.length =
    (rest.filterMap (·.openWrite? state)).length ∧
      i :: older <:+ ((atState state m.events).foldl Numbering.after s).opened := by
  have hmove := (notify_step m state).move
  obtain ⟨older, hlength, hsuffix⟩ := h.opened
  refine ⟨older, hlength, Numbering.suffix_opened_foldl hmove hsuffix ?_⟩
  rw [(ht.notify hmove).opened.length_eq]
  simp [writes, hstack, hf, hlength]

/-- When the delivery is over the hook is deferred. -/
private theorem step_react (h : Ongoing state c i rest s m) (ht : s.Tracks (m.writes state))
    (hstack : m.stack = .react state c :: rest) :
    Ongoing state c i rest ((atState state m.events).foldl Numbering.after s) m.step := by
  have hwhole : m.stack = [] ++ .react state c :: rest := hstack
  obtain ⟨-, hhead⟩ := h.standsFor ht hwhole (if_pos rfl)
  have hstep : m.step = react m.world rest state c := by rw [Machine.step, hstack]
  have hstack' :
      m.step.stack = [] ++ .watch state c ((m.world.behavior state).watchersOf c.path) :: rest :=
    congrArg Machine.stack hstep
  refine ⟨h.opened_step ht hstack' (if_pos rfl), [], _, hstack', .inr ⟨_, rfl, fun hh => ?_⟩⟩
  rw [(notify_step m state).behavior] at hh
  have hevents : atState state m.events = [.deferred c] := by
    rw [events, hstack]
    simp [hh, atState, Event.atState?]
  rw [hevents, List.foldl_cons, List.foldl_nil, Numbering.after, hhead rfl, numbersOf_concat rfl]
  exact List.mem_append_right _ (List.mem_singleton_self i)

/-- The watchers are called one by one, and then the write returns. -/
private theorem step_watch {waiting : List (Watcher σ)} (h : Ongoing state c i rest s m)
    (ht : s.Tracks (m.writes state)) (hstack : m.stack = .watch state c waiting :: rest)
    (hdeferred : (m.step.world.behavior state).hook?.isSome →
      i ∈ numbersOf StateEvent.isDeferred s.events) :
    Ongoing state c i rest ((atState state m.events).foldl Numbering.after s) m.step ∨
    m.step.stack = rest := by
  have hstep : m.step = watch m.world rest state c waiting := by rw [Machine.step, hstack]
  cases waiting with
  | nil => exact .inr (congrArg Machine.stack hstep)
  | cons watcher waiting =>
    have hstack' :
        m.step.stack = [.run (watcher state c.previous c.current), .mark (.watcher state c.path)] ++
        .watch state c waiting :: rest := congrArg Machine.stack hstep
    exact .inl ⟨h.opened_step ht hstack' (if_pos rfl), _, _, hstack',
      .inr ⟨waiting, rfl, fun hh => Numbering.numbersOf_foldl (hdeferred hh) _⟩⟩

/-- A write that goes on goes on until it returns. -/
theorem step (h : Ongoing state c i rest s m) (ht : s.Tracks (m.writes state)) :
    Ongoing state c i rest ((atState state m.events).foldl Numbering.after s) m.step ∨
    m.step.stack = rest := by
  have hbehavior := (notify_step m state).behavior
  obtain ⟨above, f, hstack, hf⟩ := h.stack
  cases above with
  | nil =>
    obtain rfl | ⟨waiting, rfl, hdeferred⟩ := hf
    · exact .inl (h.step_react ht hstack)
    · exact h.step_watch ht hstack (hbehavior ▸ hdeferred)
  | cons g above =>
    obtain ⟨above', hstack'⟩ := below_step hstack
    obtain rfl | ⟨waiting, rfl, hdeferred⟩ := hf
    · exact .inl ⟨h.opened_step ht hstack' (if_pos rfl), above', _, hstack', .inl rfl⟩
    · refine .inl ⟨h.opened_step ht hstack' (if_pos rfl), above', _, hstack',
        .inr ⟨waiting, rfl, fun hh => ?_⟩⟩
      exact Numbering.numbersOf_foldl (hdeferred (hbehavior ▸ hh)) _

/-- A set that is effective makes a write that is going on. -/
theorem of_set {path : Path} {v : Value} {next : Except PathError Bool → Script σ} {w : World σ}
    (hstack : m.stack = .run (.set state path v next) :: below)
    (hassign : m.world.assign state path v = (.ok (some c), w)) (ht : s.Tracks (m.writes state)) :
    Ongoing state c s.writes.length (.run (next (.ok true)) :: below)
      ((atState state m.events).foldl Numbering.after s) m.step := by
  have hevents : atState state m.events = [.wrote path (some c)] := by
    rw [events, hstack]
    simp [scriptEvents_set_effective hassign, atState, Event.atState?]
  have hstep :
      m.step = emit w (.react state c :: .run (next (.ok true)) :: below) (.state state)
        (.change c) := by
    rw [Machine.step, hstack]
    exact perform_set_effective hassign below
  constructor
  case opened =>
    refine ⟨s.opened, ?_, ?_⟩
    · rw [ht.opened.length_eq]
      simp [writes, hstack, Frame.openWrite?]
    · rw [hevents]
      exact List.suffix_refl _
  case stack =>
    obtain ⟨_, he | he⟩ :=
      emit_cases w (.react state c :: .run (next (.ok true)) :: below) (.state state)
      (.change c) <;> rw [hstep, he]
    · exact ⟨[], _, rfl, .inl rfl⟩
    · exact ⟨[_], _, rfl, .inl rfl⟩

end Ongoing

/-! ## The hook of a write that is going on -/

/-- The numbering of what has happened at a state in the first steps. -/
def numbering (state : StateId) (n : Nat) (m : Machine σ) : Numbering σ :=
  .of (atState state (trace n m))

theorem numbering_add (state : StateId) (k n : Nat) (m : Machine σ) :
    numbering state (k + n) m =
      (atState state (trace n (run k m))).foldl Numbering.after (numbering state k m) := by
  rw [numbering, trace_add, atState, List.filterMap_append, Numbering.of_append]
  rfl

theorem numbering_succ (state : StateId) (n : Nat) (m : Machine σ) :
    numbering state (n + 1) m =
      (atState state (run n m).events).foldl Numbering.after (numbering state n m) := by
  rw [numbering_add, trace, trace, List.append_nil]

/-- A watcher of the write, which is going on above a part of the stack, runs the queue. -/
def WatcherDrains (state : StateId) (c : Change) (rest : List (Frame σ)) (m : Machine σ) : Prop :=
  ∃ ran reply above waiting, m.stack =
    .drain ran reply :: above ++ .mark (.watcher state c.path) :: .watch state c waiting :: rest

section Set

variable (ht : ∀ n, (numbering state n m).Tracks ((run n m).writes state)) {k n : Nat}
  {path : Path} {v : Value} {next : Except PathError Bool → Script σ} {w : World σ}

include ht

/-- A write goes on until the set that has made it returns. -/
theorem ongoing_run (hcall : (run k m).stack = .run (.set state path v next) :: below)
    (hassign : (run k m).world.assign state path v = (.ok (some c), w))
    (hbefore : ∀ j, 0 < j → j ≤ n + 1 → (run (k + j) m).stack ≠ .run (next (.ok true)) :: below) :
    Ongoing state c (numbering state k m).writes.length (.run (next (.ok true)) :: below)
      (numbering state (k + (n + 1)) m) (run (k + (n + 1)) m) := by
  induction n with
  | zero =>
    rw [numbering_succ, run_succ_step]
    exact .of_set hcall hassign (ht k)
  | succ n ih =>
    have hongoing := ih fun j hj hle => hbefore j hj (Nat.le_succ_of_le hle)
    have hreturn := hbefore (n + 1 + 1) (Nat.succ_pos _) (Nat.le_refl _)
    rw [← Nat.add_assoc k, run_succ_step] at hreturn
    rw [← Nat.add_assoc k, numbering_succ, run_succ_step]
    exact (hongoing.step (ht _)).resolve_right hreturn

/-- The hook of a write that is yet to be made has not been deferred. -/
theorem not_mem_deferred : (numbering state k m).writes.length ∉
    numbersOf StateEvent.isDeferred (numbering state k m).events := by
  intro hmem
  obtain ⟨a, ha⟩ := happens_of_mem hmem
  exact Nat.lt_irrefl _ ((ht k).nested.lt_of_happens ha)

/-- When the hook of a write has left the queue, it did so in a step after the write. -/
theorem exists_taken {kind : StateEvent σ → Bool} (hkind : ∀ x, kind x = true → x.isTaken = true)
    (h : (numbering state k m).writes.length ∈ numbersOf kind (numbering state (k + n) m).events) :
    ∃ j < n, 0 < j ∧ (numbering state k m).writes.length ∈
        numbersOf StateEvent.isDeferred (numbering state (k + j) m).events ∧
      ∃ x, .state state x ∈ (run (k + j) m).events ∧ kind x = true := by
  induction n with
  | zero =>
    obtain ⟨e, he, hk⟩ := mem_numbersOf.1 h
    have htaken := mem_numbersOf.2 ⟨e, he, hkind e hk⟩
    exact absurd ((ht k).mem_deferred_iff.2 (.inl htaken)) (not_mem_deferred ht)
  | succ n ih =>
    by_cases hold : (numbering state k m).writes.length ∈
      numbersOf kind (numbering state (k + n) m).events
    · obtain ⟨j, hj, hrest⟩ := ih hold
      exact ⟨j, Nat.lt_succ_of_lt hj, hrest⟩
    · rw [← Nat.add_assoc, numbering_succ] at h
      obtain ⟨x, hx, hk, hqueued⟩ :=
        (ht (k + n)).queued_of_taken (notify_step _ state).move hkind h hold
      have hdeferred := (ht (k + n)).mem_deferred_iff.2 (.inr hqueued)
      refine ⟨n, Nat.lt_succ_self n, Nat.pos_of_ne_zero ?_, hdeferred, x, mem_of_mem_atState hx, hk⟩
      rintro rfl
      exact not_mem_deferred ht hdeferred

/-- A hook that starts before the set has returned is started by a run of the queue within a
watcher. -/
private theorem drains_of_hooked (hl : ∀ n, Layered (run n m).stack)
    (hcall : (run k m).stack = .run (.set state path v next) :: below)
    (hassign : (run k m).world.assign state path v = (.ok (some c), w))
    (hbefore : ∀ j, 0 < j → j < n → (run (k + j) m).stack ≠ .run (next (.ok true)) :: below)
    (h : (numbering state k m).writes.length ∈
      numbersOf StateEvent.isHooked (numbering state (k + n) m).events) :
    ∃ j < n, WatcherDrains state c (.run (next (.ok true)) :: below) (run (k + j) m) := by
  obtain ⟨j, hj, hpos, hdeferred, x, hx, hhooked⟩ :=
    exists_taken ht StateEvent.isTaken_of_isHooked h
  obtain ⟨j, rfl⟩ := Nat.exists_eq_succ_of_ne_zero (Nat.ne_of_gt hpos)
  have hongoing := ongoing_run ht hcall hassign fun i hi hle =>
    hbefore i hi (Nat.lt_of_le_of_lt hle hj)
  obtain ⟨above, f, hstack, rfl | ⟨waiting, rfl, -⟩⟩ := hongoing.stack
  · -- While the change is with the subscribers the hook has not been deferred.
    obtain ⟨hfor, -⟩ := hongoing.standsFor (ht _) hstack (if_pos rfl)
    exact absurd hdeferred (hfor.fresh c rfl)
  · obtain ⟨c', rfl⟩ : ∃ c', x = .hooked c' := by
      cases x with
      | hooked c' => exact ⟨c', rfl⟩
      | wrote _ _ | deferred _ | watched _ _ | settled _ | dropped _ => cases hhooked
    obtain ⟨ran, reply, below', hdrain⟩ := drain_of_hooked hx
    have habove : above ≠ [] := by
      rintro rfl
      cases hstack.symm.trans hdrain
    obtain ⟨outer, callee, rfl, hawaits⟩ := Layered.mark_above (hstack ▸ hl _) rfl habove
    obtain rfl : callee = .watcher state c.path := hawaits
    cases outer with
    | nil => cases hstack.symm.trans hdrain
    | cons g outer =>
      obtain ⟨rfl, -⟩ := List.cons.inj (hstack.symm.trans hdrain)
      exact ⟨j + 1, hj, ran, reply, outer, waiting, by simpa using hstack⟩

/-- A hook that leaves the queue before the set has returned is run, as the write keeps its state
alive. -/
private theorem hooked_of_taken (hhook : ∀ n, ((run n m).world.behavior state).hook?.isSome)
    (hcall : (run k m).stack = .run (.set state path v next) :: below)
    (hassign : (run k m).world.assign state path v = (.ok (some c), w))
    (hbefore : ∀ j, 0 < j → j < n → (run (k + j) m).stack ≠ .run (next (.ok true)) :: below)
    (h : (numbering state k m).writes.length ∈
      numbersOf StateEvent.isTaken (numbering state (k + n) m).events) :
    (numbering state k m).writes.length ∈
      numbersOf StateEvent.isHooked (numbering state (k + n) m).events := by
  obtain ⟨e, he, htaken⟩ := mem_numbersOf.1 h
  cases e with
  | wrote _ _ | deferred _ | watched _ _ | settled _ => cases htaken
  | hooked _ => exact mem_numbersOf.2 ⟨_, he, rfl⟩
  | dropped _ =>
    have hmem := mem_numbersOf.2 ⟨_, he, (rfl : StateEvent.isDropped (.dropped _) = true)⟩
    obtain ⟨j, hj, hpos, -, x, hx, hdropped⟩ := exists_taken ht StateEvent.isTaken_of_isDropped hmem
    obtain ⟨j, rfl⟩ := Nat.exists_eq_succ_of_ne_zero (Nat.ne_of_gt hpos)
    obtain ⟨c', rfl⟩ : ∃ c', x = .dropped c' := by
      cases x with
      | dropped c' => exact ⟨c', rfl⟩
      | wrote _ _ | deferred _ | watched _ _ | settled _ | hooked _ => cases hdropped
    obtain hnone | hdead := dropped_of_mem_events hx
    · have hsome := hhook (k + (j + 1))
      rw [hnone] at hsome
      cases hsome
    · have hongoing := ongoing_run ht hcall hassign fun i hi hle =>
        hbefore i hi (Nat.lt_of_le_of_lt hle hj)
      obtain ⟨above, f, hstack, hf⟩ := hongoing.stack
      have hholds : f.holds state = true := by
        obtain rfl | ⟨_, rfl, -⟩ := hf <;> exact beq_self_eq_true state
      simp [isAlive, hstack, hholds] at hdead

/-- When a watcher has found the queue empty the hook has left it. -/
private theorem taken_of_drained (hhook : ∀ n, ((run n m).world.behavior state).hook?.isSome)
    {ran : Nat} {reply : Nat → Script σ} {above : List (Frame σ)} {waiting : List (Watcher σ)}
    (h : Ongoing state c i rest (numbering state n m) (run n m))
    (hdrain : (run n m).stack =
      .drain ran reply :: above ++ .mark (.watcher state c.path) :: .watch state c waiting :: rest)
    (hempty : (run n m).world.queue = []) :
    i ∈ numbersOf StateEvent.isTaken (numbering state n m).events := by
  obtain ⟨above', f, hstack, hf⟩ := h.stack
  have hsplit : above' ++ f :: rest =
      (.drain ran reply :: above ++ [.mark (.watcher state c.path)]) ++
        .watch state c waiting :: rest := by
    rw [← hstack, hdrain]
    simp
  obtain ⟨-, hlast⟩ := List.append_inj' hsplit rfl
  obtain ⟨rfl, -⟩ := List.cons.inj hlast
  have hdeferred : i ∈ numbersOf StateEvent.isDeferred (numbering state n m).events := by
    obtain hf | ⟨_, _, hdeferred⟩ := hf
    · cases hf
    · exact hdeferred (hhook n)
  refine ((ht n).mem_deferred_iff.1 hdeferred).resolve_right fun hqueued => ?_
  have hnone := (ht n).queued
  rw [writes, hempty] at hnone
  rw [List.map_eq_nil_iff.1 hnone] at hqueued
  cases hqueued

/-- A run of the queue within a watcher starts the hook, if there is one, before the set returns. -/
private theorem hooked_of_drains {j : Nat}
    (hhook : ∀ n, ((run n m).world.behavior state).hook?.isSome)
    (hcall : (run k m).stack = .run (.set state path v next) :: below)
    (hassign : (run k m).world.assign state path v = (.ok (some c), w))
    (hbefore : ∀ j, 0 < j → j < n → (run (k + j) m).stack ≠ .run (next (.ok true)) :: below)
    (hreturn : (run (k + n) m).stack = .run (next (.ok true)) :: below) (hj : j < n)
    (h : WatcherDrains state c (.run (next (.ok true)) :: below) (run (k + j) m)) :
    (numbering state k m).writes.length ∈
      numbersOf StateEvent.isHooked (numbering state (k + n) m).events := by
  obtain ⟨ran, reply, above, waiting, hdrain⟩ := h
  -- The run of the queue comes to its end before the set returns.
  obtain ⟨i, hi, ran, hend, hempty⟩ := exists_drained (n := n - j) hdrain (by
    rw [← run_add, Nat.add_assoc, Nat.add_sub_of_le (Nat.le_of_lt hj), hreturn]
    simp only [List.append_eq, List.length_cons, List.length_append]
    omega)
  rw [← run_add, Nat.add_assoc] at hend hempty
  obtain ⟨d, hd⟩ : ∃ d, j + i = d + 1 := by
    refine Nat.exists_eq_succ_of_ne_zero fun hzero => ?_
    rw [hzero] at hend
    cases hcall.symm.trans hend
  rw [hd] at hend hempty
  have hlt : d + 1 < n := by omega
  have hongoing := ongoing_run ht hcall hassign fun i' hpos hle =>
    hbefore i' hpos (Nat.lt_of_le_of_lt hle hlt)
  have hhooked :=
    hooked_of_taken ht hhook hcall hassign
      (fun i' hpos hle => hbefore i' hpos (Nat.lt_trans hle hlt))
    (taken_of_drained ht hhook hongoing hend hempty)
  have hlater :=
    Numbering.numbersOf_foldl hhooked (atState state (trace (n - (d + 1)) (run (k + (d + 1)) m)))
  rwa [← numbering_add, Nat.add_assoc, Nat.add_sub_of_le (Nat.le_of_lt hlt)] at hlater

end Set

/-- The hook for a write starts before the set that made the write has returned if and only if a
watcher of the write runs the queue. The numbers are those of the effective writes to the state in
their order. -/
theorem hook_started_iff {w : World σ} (hq : ∀ c, Task.hook state c ∉ w.queue)
    (script : Script σ) {k n : Nat}
    {path : Path} {v : Value} {next : Except PathError Bool → Script σ}
    (hhook : (w.behavior state).hook?.isSome)
    (hcall : (run k ⟨w, [.run script]⟩).stack = .run (.set state path v next) :: below)
    (hassign : ((run k ⟨w, [.run script]⟩).world.assign state path v).1 = .ok (some c))
    (hbefore : ∀ j, 0 < j → j < n → (run (k + j) ⟨w, [.run script]⟩).stack ≠
      .run (next (.ok true)) :: below) :
    let hooked := numbersOf StateEvent.isHooked (numbering state (k + n) ⟨w, [.run script]⟩).events
    let number := (effective (atState state (trace k ⟨w, [.run script]⟩))).length
    let drains :=
      ∃ j < n,
      WatcherDrains state c (.run (next (.ok true)) :: below) (run (k + j) ⟨w, [.run script]⟩)
    (number ∈ hooked → drains) ∧
      ((run (k + n) ⟨w, [.run script]⟩).stack = .run (next (.ok true)) :: below →
        (number ∈ hooked ↔ drains)) := by
  intro hooked number drains
  have ht := tracks_run hq script
  have hnumber : (numbering state k ⟨w, [.run script]⟩).writes.length = number :=
    congrArg List.length (Numbering.writes_foldl _ {})
  have hassign' : (run k ⟨w, [.run script]⟩).world.assign state path v =
      (.ok (some c), ((run k ⟨w, [.run script]⟩).world.assign state path v).2) :=
        Prod.ext hassign rfl
  have hlayered := layered_run (m := ⟨w, [.run script]⟩) (layered_script script)
  have hstarted : number ∈ hooked → drains := by
    rw [← hnumber]
    exact drains_of_hooked ht hlayered hcall hassign' hbefore
  refine ⟨hstarted, fun hreturn => ⟨hstarted, fun ⟨j, hj, hdrains⟩ => ?_⟩⟩
  rw [← hnumber]
  refine hooked_of_drains ht (fun i => ?_) hcall hassign' hbefore hreturn hj hdrains
  rw [behavior_run]
  exact hhook

/-- A state with a hook, and a watcher that runs the queue. -/
def impatient : State Unit where
  data := .object [("a", .integer 0)]
  behavior :=
    { watchers := [(⟨["a"]⟩, fun _ _ _ => .runPending fun _ => .done)]
      hook? := some fun _ _ => .done }

/-- A set of the state. -/
def setImpatient : Machine Unit where
  world := { memory := (), states := [impatient] }
  stack := [.run (.set 0 ⟨["a"]⟩ (.integer 1) fun _ => .done)]

/-- Whether the end of a script is all that is left to do. -/
def isLast (m : Machine σ) : Bool :=
  match m.stack with
  | [.run .done] => true
  | _ => false

private theorem stack_of_isLast (h : m.isLast = true) : m.stack = [.run .done] := by
  unfold isLast at h
  split at h
  · assumption
  · cases h

theorem hook_started_iff_impatient :
    let c : Change := ⟨⟨["a"]⟩, .integer 0, .integer 1⟩
    let start := setImpatient
    (start.world.behavior 0).hook?.isSome ∧ (start.world.assign 0 ⟨["a"]⟩ (.integer 1)).1 =
      .ok (some c) ∧
      (∀ j, 0 < j → j < 13 → (run (0 + j) start).stack ≠ [.run .done]) ∧
      (run 13 start).stack = [.run .done] ∧
      (0 ∈ numbersOf StateEvent.isHooked (numbering 0 13 start).events ↔
        ∃ j < 13, WatcherDrains 0 c [.run .done] (run (0 + j) start)) := by
  intro c start
  have hq : ∀ c, Task.hook 0 c ∉ start.world.queue := fun c h => by cases h
  have hhook : (start.world.behavior 0).hook?.isSome := rfl
  have hassign : (start.world.assign 0 ⟨["a"]⟩ (.integer 1)).1 = .ok (some c) := rfl
  have hlonger : ∀ j < 13, 0 < j → 1 < (run j start).stack.length := by decide +kernel
  have hbefore : ∀ j, 0 < j → j < 13 → (run (0 + j) start).stack ≠ [.run .done] := by
    intro j hj hlt heq
    have hlength := hlonger j hlt hj
    rw [Nat.zero_add] at heq
    rw [heq] at hlength
    exact Nat.lt_irrefl _ hlength
  have hreturn : (run 13 start).stack = [.run .done] := stack_of_isLast (by decide +kernel)
  have hcall : (run 0 start).stack = [.run (.set 0 ⟨["a"]⟩ (.integer 1) fun _ => .done)] := rfl
  have hiff :=
    hook_started_iff hq (.set 0 ⟨["a"]⟩ (.integer 1) fun _ => .done) (k := 0)
      (n := 13) hhook hcall hassign
    hbefore
  exact ⟨hhook, hassign, hbefore, hreturn, hiff.2 hreturn⟩

/-- The hook starts while the watcher is being called, before the set has returned. -/
theorem hook_before_return :
    let start := setImpatient
    0 ∈ numbersOf StateEvent.isHooked (numbering 0 7 start).events ∧
      (∃ script c reply waiting, (run 7 start).stack =
        .run script :: .mark (.hook 0 c) :: .drain 1 reply ::
        .mark (.watcher 0 c.path) :: .watch 0 c waiting :: [.run .done]) ∧
      ∀ j < 13, 0 < j → 1 < (run j start).stack.length :=
  ⟨by decide +kernel, ⟨_, _, _, _, rfl⟩, by decide +kernel⟩

end Machine

end ReactiveMarkup
