-- SUMMARY: Runs as one state sees them: its open writes, and the hooks in the queue.
import ReactiveMarkup.Proofs.Delivery

/-!
# Runs as one state sees them

Of all that a machine does, a state sees the writes to it and what comes of them. Its `Writes` are
the effective writes whose watchers have not all returned, which are read off the stack, and the
changes for which its hook is in the queue. `Notify` lists what can become of them, and
`Machine.notify_step` says that every step of a machine is such a move. The reactions of a write
follow on its delivery, so it is always the innermost open write that goes on.
-/

namespace ReactiveMarkup

variable {σ : Type}

/-- An effective write that is not over. -/
inductive OpenWrite (σ : Type) where
  /-- The change is with the subscribers. -/
  | reacting (change : Change)
  /-- The watchers that have not been called. -/
  | watching (change : Change) (waiting : List (Watcher σ))

/-- The change of an open write. -/
def OpenWrite.change : OpenWrite σ → Change
  | reacting c => c
  | watching c _ => c

/-- The open writes of a state, the innermost first, and its hooks in the queue. -/
structure Writes (σ : Type) where
  opened : List (OpenWrite σ)
  queued : List Change

/-- What can become of the writes of a state with a behavior, with what happens then. -/
inductive Notify (b : Behavior σ) : Writes σ → List (StateEvent σ) → Writes σ → Prop
  | rest (v : Writes σ) : Notify b v [] v
  | silent (path : Path) (v : Writes σ) : Notify b v [.wrote path none] v
  | write {o : List (OpenWrite σ)} {q : List Change} (c : Change) :
      Notify b ⟨o, q⟩ [.wrote c.path (some c)] ⟨.reacting c :: o, q⟩
  /-- The subscribers have had the change, or another delivery will see to them. -/
  | react {o : List (OpenWrite σ)} {q : List Change} (c : Change) :
      Notify b ⟨.reacting c :: o, q⟩ (if b.hook?.isSome then [.deferred c] else [])
        ⟨.watching c (b.watchersOf c.path) :: o, if b.hook?.isSome then q ++ [c] else q⟩
  | watch {o : List (OpenWrite σ)} {q : List Change} (c : Change) (watcher : Watcher σ)
      (waiting : List (Watcher σ)) :
      Notify b ⟨.watching c (watcher :: waiting) :: o, q⟩ [.watched c watcher]
        ⟨.watching c waiting :: o, q⟩
  | settle {o : List (OpenWrite σ)} {q : List Change} (c : Change) :
      Notify b ⟨.watching c [] :: o, q⟩ [.settled c] ⟨o, q⟩
  | hook {o : List (OpenWrite σ)} {q : List Change} (c : Change) :
      Notify b ⟨o, c :: q⟩ [.hooked c] ⟨o, q⟩
  | drop {o : List (OpenWrite σ)} {q : List Change} (c : Change) :
      Notify b ⟨o, c :: q⟩ [.dropped c] ⟨o, q⟩

/-! ## Reading a machine -/

/-- The change of the state for which a task runs the hook. -/
def Task.hookOf? (state : StateId) : Task σ → Option Change
  | script _ => none
  | hook s c => if s = state then some c else none

/-- The open write of the state that a frame is about. -/
def Frame.openWrite? (state : StateId) : Frame σ → Option (OpenWrite σ)
  | react s c => if s = state then some (.reacting c) else none
  | watch s c waiting => if s = state then some (.watching c waiting) else none
  | _ => none

/-- The change of an effective write. -/
def StateEvent.effective? : StateEvent σ → Option Change
  | wrote _ change? => change?
  | _ => none

/-- The changes made by effective writes, in the order of the writes. -/
def effective (t : List (StateEvent σ)) : List Change := t.filterMap (·.effective?)

theorem World.path_of_assign {w w' : World σ} {state : StateId} {path : Path}
    {v : Value} {c : Change} (h : w.assign state path v = (.ok (some c), w')) : c.path = path := by
  obtain ⟨e, hr⟩ | ⟨tree, _, hr⟩ | ⟨tree, c', hwrite, hr⟩ := w.assign_cases state path v
  · rw [hr] at h
    cases h
  · rw [hr] at h
    cases h
  · rw [hr] at h
    cases h
    obtain ⟨slot, _, hc, _⟩ := Path.write_effective hwrite
    rw [hc]

namespace Machine

/-- The writes of a state in a machine. -/
def writes (m : Machine σ) (state : StateId) : Writes σ :=
  ⟨m.stack.filterMap (·.openWrite? state), m.world.queue.filterMap (·.hookOf? state)⟩

/-- A step as a state sees it: its behavior stays, its writes make a move, and its subject is handed
the changes of the effective writes. -/
structure Notified (state : StateId) (m : Machine σ) (e : List (Event σ))
    (m' : Machine σ) : Prop where
  behavior : m'.world.behavior state = m.world.behavior state
  move : Notify (m.world.behavior state) (m.writes state) (atState state e) (m'.writes state)
  emitted : emissions (atSubject (.state state) e) = (effective (atState state e)).map .change

section Steps

variable {state : StateId} {w : World σ} {stack : List (Frame σ)}

/-- A step in which nothing happens at the state. -/
theorem Notified.quiet {m m' : Machine σ} {e : List (Event σ)}
    (hb : m'.world.behavior state = m.world.behavior state)
    (hemit : emissions (atSubject (.state state) e) = []) (he : atState state e = [])
    (hw : m'.writes state = m.writes state) : Notified state m e m' := by
  refine ⟨hb, ?_, ?_⟩
  · rw [he, hw]
    exact .rest _
  · rw [hemit, he]
    rfl

/-- The three outcomes of a write. -/
private theorem notified_set {other : StateId} {path : Path} {v : Value}
    {next : Except PathError Bool → Script σ} :
    Notified state ⟨w, .run (.set other path v next) :: stack⟩
      (scriptEvents w (.set other path v next)) (perform w stack (.set other path v next)) := by
  rcases hr : w.assign other path v with ⟨e | _ | c, w'⟩
  · obtain rfl : (w.assign other path v).2 = w' := by rw [hr]
    rw [perform_set_refused hr, scriptEvents_set_refused hr]
    exact .quiet (by simp) rfl rfl (by simp [writes, Frame.openWrite?])
  · obtain rfl : (w.assign other path v).2 = w' := by rw [hr]
    rw [perform_set_silent hr, scriptEvents_set_silent hr]
    by_cases ho : other = state
    · refine ⟨by simp, ?_, ?_⟩
      · simpa [ho, atState, Event.atState?, writes, Frame.openWrite?] using Notify.silent path _
      · simp [ho, atSubject, atState, Event.atSubject?, Event.atState?, emissions, effective,
          StateEvent.effective?]
    · exact .quiet (by simp) (by simp [atSubject, Event.atSubject?, emissions])
        (by simp [atState, Event.atState?, ho]) (by simp [writes, Frame.openWrite?])
  · obtain rfl : (w.assign other path v).2 = w' := by rw [hr]
    have hpath : path = c.path := (World.path_of_assign hr).symm
    rw [perform_set_effective hr, scriptEvents_set_effective hr]
    -- The delivery that may begin is on top of the write and is no part of it.
    obtain ⟨s, hworld, hopen⟩ : ∃ s,
        (emit (w.assign other path v).2 (.react other c :: .run (next (.ok true)) :: stack)
          (.state other) (.change c)).world =
            (w.assign other path v).2.putSubject (.state other) s ∧
        (emit (w.assign other path v).2 (.react other c :: .run (next (.ok true)) :: stack)
          (.state other) (.change c)).stack.filterMap (·.openWrite? state) =
            ((Frame.react other c :: stack).filterMap (·.openWrite? state) : List
              (OpenWrite σ)) := by
      obtain ⟨s, h | h⟩ := emit_cases (w.assign other path v).2
        (.react other c :: .run (next (.ok true)) :: stack) (.state other) (.change c) <;>
      · rw [h]
        exact ⟨s, rfl, by simp [List.filterMap_cons, Frame.openWrite?]⟩
    by_cases ho : other = state
    · subst ho
      refine ⟨by simp [hworld], ?_, ?_⟩
      · rw [writes, writes, hopen, hworld, hpath]
        simpa [atState, Event.atState?, Frame.openWrite?] using Notify.write c
      · simp [atSubject, atState, Event.atSubject?, Event.atState?, emissions, effective,
          SubjectEvent.emitted?, StateEvent.effective?]
    · refine .quiet (by simp [hworld]) ?_ ?_ ?_
      · simp [ho, atSubject, Event.atSubject?, emissions]
      · simp [ho, atState, Event.atState?]
      · rw [writes, hopen, hworld]
        simp [ho, writes, Frame.openWrite?]

private theorem notified_perform (script : Script σ) :
    Notified state ⟨w, .run script :: stack⟩ (scriptEvents w script) (perform w stack script) := by
  cases script with
  | set other path v next => exact notified_set
  | done | log _ _ | readMemory _ | writeMemory _ _ | readState _ _ | retain _ _ | release _ _
  | readSubject _ _ | runPending _ | pending _ | readDocument _ | edit _ _ | listen _ _ _ _
  | unlisten _ _ | listeners _ _ | dispatch _ _ _ =>
    exact .quiet (by simp [perform]) rfl rfl (by simp [perform, writes, Frame.openWrite?])
  | defer task next =>
    exact .quiet rfl rfl rfl
      (by simp [perform, writes, Frame.openWrite?, World.defer, Task.hookOf?])
  | emit number v next =>
    refine .quiet ?_ (by simp [scriptEvents, atSubject, Event.atSubject?, emissions]) rfl ?_ <;>
    · obtain ⟨s, h | h⟩ := emit_cases w (.run next :: stack) (.own number) (.value v) <;>
        simp [perform, h, writes, Frame.openWrite?]
  | subscribe source callback next =>
    refine .quiet (by simp [perform]) ?_ rfl (by simp [perform, writes, Frame.openWrite?])
    by_cases hs : source = .state state <;>
      simp [scriptEvents, atSubject, Event.atSubject?, hs, emissions, SubjectEvent.emitted?]
  | unsubscribe source id next =>
    refine .quiet (by simp [perform]) ?_ rfl (by simp [perform, writes, Frame.openWrite?])
    by_cases hs : source = .state state <;>
      simp [scriptEvents, atSubject, Event.atSubject?, hs, emissions, SubjectEvent.emitted?]
  | unmount m next =>
    refine .quiet (by simp [perform]) ?_ ?_ (by simp [perform, writes, Frame.openWrite?])
    · refine List.filterMap_eq_nil_iff.2 fun e he => ?_
      obtain ⟨e', he', h'⟩ := List.mem_filterMap.1 he
      obtain ⟨i, _, hi⟩ := List.mem_flatMap.1 he'
      obtain ⟨id, _, rfl⟩ := List.mem_map.1 hi
      by_cases hs : SubjectId.state i.state = .state state
      · obtain rfl : SubjectEvent.left id = e := by simpa [Event.atSubject?, hs] using h'
        rfl
      · simp [Event.atSubject?, hs] at h'
    · refine List.filterMap_eq_nil_iff.2 fun e he => ?_
      obtain ⟨i, _, hi⟩ := List.mem_flatMap.1 he
      obtain ⟨id, _, rfl⟩ := List.mem_map.1 hi
      rfl

/-- After its delivery a write turns into a deferred hook and watchers to be called. -/
private theorem notified_react (other : StateId) (c : Change) :
    Notified state ⟨w, .react other c :: stack⟩ (events ⟨w, .react other c :: stack⟩)
      (react w stack other c) := by
  by_cases ho : other = state
  · subst ho
    -- With a hook the queue grows by it, without one only the stack changes.
    have hmove := Notify.react (b := w.behavior other) (o := stack.filterMap (·.openWrite? other))
      (q := w.queue.filterMap (·.hookOf? other)) c
    cases hh : (w.behavior other).hook?.isSome <;>
    · refine ⟨by simp [react, hh], ?_, ?_⟩
      · simpa [hh, events, atState, Event.atState?, react, World.defer, writes, Frame.openWrite?,
          Task.hookOf?] using hmove
      · simp [hh, events, atSubject, Event.atSubject?, emissions, atState,
          Event.atState?, effective, StateEvent.effective?]
  · cases hh : (w.behavior other).hook?.isSome <;>
      exact .quiet (by simp [react, hh])
        (by simp [events, hh, atSubject, Event.atSubject?, emissions])
        (by simp [events, hh, atState, Event.atState?, ho])
        (by simp [ho, react, hh, World.defer, writes, Frame.openWrite?, Task.hookOf?])

private theorem notified_watch (other : StateId) (c : Change) (waiting : List (Watcher σ)) :
    Notified state ⟨w, .watch other c waiting :: stack⟩
      (events ⟨w, .watch other c waiting :: stack⟩) (watch w stack other c waiting) := by
  cases waiting with
  | nil =>
    by_cases ho : other = state
    · refine ⟨rfl, ?_, ?_⟩
      · simpa [ho, events, watch, atState, Event.atState?, writes, Frame.openWrite?] using
          Notify.settle c
      · simp [ho, events, atSubject, Event.atSubject?, emissions, atState, Event.atState?,
          effective, StateEvent.effective?]
    · exact .quiet rfl (by simp [events, atSubject, Event.atSubject?, emissions])
        (by simp [events, atState, Event.atState?, ho])
          (by simp [watch, writes, Frame.openWrite?, ho])
  | cons watcher waiting =>
    by_cases ho : other = state
    · refine ⟨rfl, ?_, ?_⟩
      · simpa [ho, events, watch, atState, Event.atState?, writes, Frame.openWrite?] using
          Notify.watch c watcher waiting
      · simp [ho, events, atSubject, Event.atSubject?, emissions, atState, Event.atState?,
          effective, StateEvent.effective?]
    · exact .quiet rfl (by simp [events, atSubject, Event.atSubject?, emissions])
        (by simp [events, atState, Event.atState?, ho])
          (by simp [watch, writes, Frame.openWrite?, ho])

private theorem notified_drain (ran : Nat) (next : Nat → Script σ) :
    Notified state ⟨w, .drain ran next :: stack⟩ (events ⟨w, .drain ran next :: stack⟩)
      (drain w stack ran next) := by
  obtain ⟨hq, hd, he⟩ | ⟨script, queue, hq, hd, he⟩ | ⟨other, c, hook, queue, hq, _, _, hd, he⟩ |
    ⟨other, c, queue, hq, _, hd, he⟩ := drain_cases w stack ran next
  · rw [hd, he]
    exact .quiet rfl rfl rfl (by simp [writes, Frame.openWrite?])
  · rw [hd, he]
    exact .quiet rfl rfl rfl (by simp [writes, Frame.openWrite?, hq, Task.hookOf?])
  · rw [hd, he]
    by_cases ho : other = state
    · refine ⟨rfl, ?_, ?_⟩
      · simpa [ho, hq, atState, Event.atState?, writes, Frame.openWrite?, Task.hookOf?] using
          Notify.hook c
      · simp [ho, atSubject, Event.atSubject?, emissions, atState, Event.atState?, effective,
          StateEvent.effective?]
    · exact .quiet rfl (by simp [atSubject, Event.atSubject?, emissions])
        (by simp [atState, Event.atState?, ho])
        (by simp [writes, Frame.openWrite?, hq, Task.hookOf?, ho])
  · rw [hd, he]
    by_cases ho : other = state
    · refine ⟨rfl, ?_, ?_⟩
      · simpa [ho, hq, atState, Event.atState?, writes, Frame.openWrite?, Task.hookOf?] using
          Notify.drop c
      · simp [ho, atSubject, Event.atSubject?, emissions, atState, Event.atState?, effective,
          StateEvent.effective?]
    · exact .quiet rfl (by simp [atSubject, Event.atSubject?, emissions])
        (by simp [atState, Event.atState?, ho])
        (by simp [writes, Frame.openWrite?, hq, Task.hookOf?, ho])

private theorem notified_mark (callee : Callee) :
    Notified state ⟨w, .mark callee :: stack⟩ (events ⟨w, .mark callee :: stack⟩) ⟨w, stack⟩ := by
  obtain ⟨_, he⟩ | ⟨source, id, _, _, _, _, _, he⟩ := events_mark w callee stack
  · rw [he]
    exact .quiet rfl rfl rfl (by simp [writes, Frame.openWrite?])
  · rw [he]
    refine .quiet rfl ?_ rfl (by simp [writes, Frame.openWrite?])
    by_cases hs : source = .state state <;>
      simp [atSubject, Event.atSubject?, hs, emissions, SubjectEvent.emitted?]

private theorem notified_deliver (source : SubjectId) (notice : Option Notice)
    (waiting : List (Subscriber σ)) : Notified state ⟨w, .deliver source notice waiting :: stack⟩
      (events ⟨w, .deliver source notice waiting :: stack⟩)
        (deliver w stack source notice waiting) := by
  cases waiting with
  | cons sub waiting =>
    refine .quiet rfl ?_ rfl (by simp [deliver, writes, Frame.openWrite?])
    by_cases hs : source = .state state <;>
      simp [events, atSubject, Event.atSubject?, hs, emissions, SubjectEvent.emitted?]
  | nil =>
    obtain ⟨n, rest, s, _, _, hd, he⟩ | ⟨_, hd, he⟩ := deliver_nil_cases w stack source notice
    · rw [he, hd]
      refine .quiet (by simp) ?_ rfl (by simp [writes, Frame.openWrite?])
      by_cases hs : source = .state state <;>
        simp [atSubject, Event.atSubject?, hs, emissions, SubjectEvent.emitted?]
    · rw [he, hd]
      exact .quiet (by simp) rfl rfl (by simp [writes, Frame.openWrite?])

end Steps

/-- Every step of a machine is a move of the writes of each of its states. -/
theorem notify_step (m : Machine σ) (state : StateId) : Notified state m m.events m.step := by
  obtain ⟨w, stack⟩ := m
  match stack with
  | [] => exact .quiet rfl rfl rfl rfl
  | .run script :: stack => exact notified_perform script
  | .mark callee :: stack => exact notified_mark callee
  | .deliver source notice waiting :: stack => exact notified_deliver source notice waiting
  | .react other c :: stack => exact notified_react other c
  | .watch other c waiting :: stack => exact notified_watch other c waiting
  | .drain ran next :: stack => exact notified_drain ran next
  | .dispatch [] called next :: stack =>
    exact .quiet rfl rfl rfl (by simp [step, dispatch, writes, Frame.openWrite?])
  | .dispatch (l :: waiting) called next :: stack =>
    cases hc : isCalled stack l.id <;>
      exact .quiet (by simp [step, dispatch, hc]) rfl rfl
        (by simp [step, dispatch, hc, writes, Frame.openWrite?])

/-- The behavior of a state stays as it is. -/
theorem behavior_run (m : Machine σ) (state : StateId) (n : Nat) :
    (run n m).world.behavior state = m.world.behavior state := by
  induction n with
  | zero => rfl
  | succ n ih => rw [run_succ_step, (notify_step _ state).behavior, ih]

/-- The subject of a state emits the changes of the effective writes. -/
theorem emissions_run (m : Machine σ) (state : StateId) (n : Nat) :
    emissions (atSubject (.state state) (trace n m)) =
      (effective (atState state (trace n m))).map .change := by
  induction n with
  | zero => rfl
  | succ n ih =>
    have hsubject : atSubject (.state state) (trace n m ++ (run n m).events) =
        atSubject (.state state) (trace n m) ++ atSubject (.state state) (run n m).events :=
      List.filterMap_append
    have hstate : effective (atState state (trace n m ++ (run n m).events)) =
        effective (atState state (trace n m)) ++ effective (atState state (run n m).events) := by
      simp [effective, atState]
    rw [trace_succ, hsubject, emissions_append, ih, (notify_step _ state).emitted, hstate,
      List.map_append]

/-- A hook is dropped only when its state has none or is not alive. -/
theorem dropped_of_mem_events {m : Machine σ} {state : StateId} {c : Change}
    (h : Event.state state (.dropped c) ∈ m.events) :
    (m.world.behavior state).hook? = none ∨ isAlive m.world m.stack state = false := by
  have harises := arises_of_mem_events h
  obtain ⟨w, stack⟩ := m
  cases harises with
  | drop front not => exact not

/-- A state without a hook in the queue has no writes in progress when a script is about to run. -/
theorem writes_start {w : World σ} {state : StateId} (hq : ∀ c, Task.hook state c ∉ w.queue)
    (script : Script σ) : (⟨w, [.run script]⟩ : Machine σ).writes state = ⟨[], []⟩ := by
  have hnone : w.queue.filterMap (·.hookOf? state) = [] := by
    refine List.filterMap_eq_nil_iff.2 fun task htask => ?_
    cases task with
    | script _ => rfl
    | hook other c =>
      -- A hook of the state itself would be in the queue.
      refine if_neg ?_
      rintro rfl
      exact hq c htask
  simp [writes, hnone, Frame.openWrite?]

end Machine

end ReactiveMarkup
