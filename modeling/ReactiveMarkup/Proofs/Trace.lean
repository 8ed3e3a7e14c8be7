-- SUMMARY: Traces of runs, and what single steps do.
import ReactiveMarkup.Machine

/-!
# Traces

The trace of a run lists what happened in it: notices that were emitted and delivered, subscribers
that joined and left, writes, and the reactions to writes. `Machine.events` reads off a machine what
its next step does, and `Machine.trace` lists the events of a run. What holds of every run is proved
by `Machine.trace_induction`, from what one step preserves.
-/

namespace ReactiveMarkup

/-- Something that happens at a subject. -/
inductive SubjectEvent where
  /-- A notice is emitted. -/
  | emitted (notice : Notice)
  /-- A subscriber joins. It is called at once with the notice begun last. -/
  | joined (subscription : Nat) (latest : Option Notice)
  /-- A subscription is given up. -/
  | left (subscription : Nat)
  /-- The delivery of a notice begins. -/
  | begun (notice : Notice)
  /-- A delivery calls a subscriber. -/
  | called (subscription : Nat) (notice : Option Notice)
  /-- A subscriber that a delivery called returns. -/
  | returned (subscription : Nat)

/-- Something that happens at a state. -/
inductive StateEvent (σ : Type) where
  /-- A write succeeds. It is effective if it has a change. -/
  | wrote (path : Path) (change? : Option Change)
  /-- The hook is put in the queue. -/
  | deferred (change : Change)
  /-- A watcher is called with the value replaced and the new value of a change. -/
  | watched (change : Change) (watcher : Watcher σ)
  /-- An effective write is over: all its watchers have returned. -/
  | settled (change : Change)
  /-- The hook starts. -/
  | hooked (change : Change)
  /-- The hook is dropped, as the state is no longer alive. -/
  | dropped (change : Change)

/-- Something that a step of a machine does. -/
inductive Event (σ : Type) where
  | subject (source : SubjectId) (event : SubjectEvent)
  | state (state : StateId) (event : StateEvent σ)

namespace Event

variable {σ : Type}

/-- What happens at a subject, if the event does. -/
def atSubject? (source : SubjectId) : Event σ → Option SubjectEvent
  | subject s e => if s = source then some e else none
  | state _ _ => none

/-- What happens at a state, if the event does. -/
def atState? (id : StateId) : Event σ → Option (StateEvent σ)
  | subject _ _ => none
  | state s e => if s = id then some e else none

end Event

namespace Machine

variable {σ : Type}

/-- What the first operation of a script does. -/
def scriptEvents (w : World σ) : Script σ → List (Event σ)
  | .set state path v _ =>
    match (w.assign state path v).1 with
    | .error _ => []
    | .ok none => [.state state (.wrote path none)]
    | .ok (some c) =>
      [.state state (.wrote path (some c)), .subject (.state state) (.emitted (.change c))]
  | .subscribe source _ _ =>
    [.subject source (.joined (w.subject source).nextId (w.subject source).latest)]
  | .unsubscribe source id _ => [.subject source (.left id)]
  | .emit number v _ => [.subject (.own number) (.emitted (.value v))]
  | .unmount m _ =>
    m.instances.flatMap fun i => i.subscriptions.map fun id => .subject (.state i.state) (.left id)
  | _ => []

/-- What the next step of a machine does. -/
def events (m : Machine σ) : List (Event σ) :=
  match m.stack with
  | .run script :: _ => scriptEvents m.world script
  | .mark (.subscriber source id) :: .deliver source' _ _ :: _ =>
    if source = source' then [.subject source (.returned id)] else []
  | .deliver source notice (s :: _) :: _ => [.subject source (.called s.id notice)]
  | .deliver source _ [] :: _ =>
    match (m.world.subject source).pending with
    | [] => []
    | n :: _ => [.subject source (.begun n)]
  | .react state c :: _ =>
    if (m.world.behavior state).hook?.isSome then [.state state (.deferred c)] else []
  | .watch state c (watcher :: _) :: _ => [.state state (.watched c watcher)]
  | .watch state c [] :: _ => [.state state (.settled c)]
  | .drain _ _ :: _ =>
    match m.world.queue with
    | .hook state c :: _ =>
      if (m.world.behavior state).hook?.isSome && isAlive m.world m.stack state then
        [.state state (.hooked c)]
      else [.state state (.dropped c)]
    | _ => []
  | _ => []

/-- What happens in the first `n` steps of a machine. -/
def trace : (n : Nat) → Machine σ → List (Event σ)
  | 0, _ => []
  | n + 1, m => m.events ++ trace n m.step

/-- What happens at a subject in a trace. -/
def atSubject (source : SubjectId) (t : List (Event σ)) : List SubjectEvent :=
  t.filterMap (·.atSubject? source)

/-- What happens at a state in a trace. -/
def atState (state : StateId) (t : List (Event σ)) : List (StateEvent σ) :=
  t.filterMap (·.atState? state)

theorem mem_of_mem_atSubject {source : SubjectId} {e : SubjectEvent} {t : List (Event σ)}
    (h : e ∈ atSubject source t) : .subject source e ∈ t := by
  obtain ⟨x, hx, he⟩ := List.mem_filterMap.1 h
  cases x with
  | state _ _ => cases he
  | subject other x =>
    by_cases ho : other = source
    · simp only [Event.atSubject?, ho, if_true, Option.some.injEq] at he
      rwa [ho, he] at hx
    · simp [Event.atSubject?, ho] at he

theorem mem_of_mem_atState {state : StateId} {e : StateEvent σ} {t : List (Event σ)}
    (h : e ∈ atState state t) : .state state e ∈ t := by
  obtain ⟨x, hx, he⟩ := List.mem_filterMap.1 h
  cases x with
  | subject _ _ => cases he
  | state other x =>
    by_cases ho : other = state
    · simp only [Event.atState?, ho, if_true, Option.some.injEq] at he
      rwa [ho, he] at hx
    · simp [Event.atState?, ho] at he

/-! ## Emitting -/

/-- Emitting changes one subject, and puts at most a delivery on the stack. -/
theorem emit_cases (w : World σ) (stack : List (Frame σ)) (source : SubjectId) (n : Notice) :
    ∃ s, emit w stack source n = ⟨w.putSubject source s, stack⟩ ∨
      emit w stack source n = ⟨w.putSubject source s, .deliver source none [] :: stack⟩ := by
  unfold emit
  cases hd : ((w.subject source).enqueue n).delivering with
  | true => exact ⟨(w.subject source).enqueue n, .inl (by simp only [hd, if_true])⟩
  | false =>
    refine ⟨{ (w.subject source).enqueue n with delivering := true }, .inr ?_⟩
    simp only [hd, Bool.false_eq_true, if_false]

/-- An emission begins a delivery, unless one is in progress. -/
theorem stack_emit (w : World σ) (stack : List (Frame σ)) (source : SubjectId) (n : Notice) :
    (emit w stack source n).stack =
      (if (w.subject source).delivering then [] else [.deliver source none []]) ++ stack := by
  have henqueue : ((w.subject source).enqueue n).delivering = (w.subject source).delivering := rfl
  rw [emit, henqueue]
  cases (w.subject source).delivering <;> rfl

/-! ## What ends a call and what follows a round -/

/-- The end of a callback is an event only where a delivery called it. -/
theorem events_mark (w : World σ) (callee : Callee) (stack : List (Frame σ)) :
    ((∀ source id notice waiting below, callee = .subscriber source id →
        stack ≠ .deliver source notice waiting :: below) ∧
      events ⟨w, .mark callee :: stack⟩ = []) ∨
    (∃ source id notice waiting below, callee = .subscriber source id ∧
      stack = .deliver source notice waiting :: below ∧
      events ⟨w, .mark callee :: stack⟩ = [.subject source (.returned id)]) := by
  cases callee with
  | watcher _ _ | hook _ _ | listener _ _ | task =>
    exact .inl ⟨fun _ _ _ _ _ h => (by cases h), rfl⟩
  | subscriber source id =>
    cases stack with
    | nil => exact .inl ⟨fun _ _ _ _ _ _ h => (by cases h), rfl⟩
    | cons f below =>
      cases f with
      | deliver other notice waiting =>
        by_cases hs : source = other
        · -- The delivery below is the one that called the subscriber.
          subst hs
          exact .inr ⟨source, id, notice, waiting, below, rfl, rfl, by simp [events]⟩
        · refine .inl ⟨fun source' id' _ _ _ h h' => ?_, by simp [events, hs]⟩
          cases h
          cases h'
          exact hs rfl
      | run _ | mark _ | react _ _ | watch _ _ _ | drain _ _ | dispatch _ _ _ =>
        exact .inl ⟨fun _ _ _ _ _ _ h => (by cases h), rfl⟩

/-- A delivery in which nobody waits begins the next notice or ends. -/
theorem deliver_nil_cases (w : World σ) (stack : List (Frame σ)) (source : SubjectId)
    (notice : Option Notice) :
    (∃ n rest s, (w.subject source).pending = n :: rest ∧
      s = { w.subject source with latest := some n, pending := rest } ∧
      deliver w stack source notice [] =
        ⟨w.putSubject source s, .deliver source (some n) s.subscribers :: stack⟩ ∧
      events ⟨w, .deliver source notice [] :: stack⟩ = [.subject source (.begun n)]) ∨
    ((w.subject source).pending = [] ∧
      deliver w stack source notice [] =
        ⟨w.putSubject source { w.subject source with delivering := false }, stack⟩ ∧
      events ⟨w, .deliver source notice [] :: stack⟩ = []) := by
  cases hp : (w.subject source).pending with
  | cons n rest =>
    exact .inl ⟨n, rest, _, rfl, rfl, by simp only [deliver, Subject.begin?, hp],
      by simp only [events, hp]⟩
  | nil =>
    exact .inr ⟨rfl, by simp only [deliver, Subject.begin?, hp], by simp only [events, hp]⟩

/-! ## The three outcomes of a write -/

section Write

variable {w w' : World σ} {state : StateId} {path : Path} {v : Value}
  {next : Except PathError Bool → Script σ}

theorem perform_set_refused {e : PathError} (h : w.assign state path v = (.error e, w'))
    (stack : List (Frame σ)) :
    perform w stack (.set state path v next) = ⟨w', .run (next (.error e)) :: stack⟩ := by
  simp only [perform, h]

theorem perform_set_silent (h : w.assign state path v = (.ok none, w')) (stack : List (Frame σ)) :
    perform w stack (.set state path v next) = ⟨w', .run (next (.ok false)) :: stack⟩ := by
  simp only [perform, h]

theorem perform_set_effective {c : Change} (h : w.assign state path v = (.ok (some c), w'))
    (stack : List (Frame σ)) :
    perform w stack (.set state path v next) =
      emit w' (.react state c :: .run (next (.ok true)) :: stack) (.state state) (.change c) := by
  simp only [perform, h]

theorem scriptEvents_set_refused {e : PathError} (h : w.assign state path v = (.error e, w')) :
    scriptEvents w (.set state path v next) = [] := by
  simp only [scriptEvents, h]

theorem scriptEvents_set_silent (h : w.assign state path v = (.ok none, w')) :
    scriptEvents w (.set state path v next) = [.state state (.wrote path none)] := by
  simp only [scriptEvents, h]

theorem scriptEvents_set_effective {c : Change} (h : w.assign state path v = (.ok (some c), w')) :
    scriptEvents w (.set state path v next) =
      [.state state (.wrote path (some c)), .subject (.state state) (.emitted (.change c))] := by
  simp only [scriptEvents, h]

end Write

/-! ## What a run of the queue does next -/

/-- A run of the queue is over, or starts a script, or starts the hook of a state that is alive, or
drops the hook of one that has none or is not. -/
theorem drain_cases (w : World σ) (stack : List (Frame σ)) (ran : Nat) (next : Nat → Script σ) :
    (w.queue = [] ∧ drain w stack ran next = ⟨w, .run (next ran) :: stack⟩ ∧
      events ⟨w, .drain ran next :: stack⟩ = []) ∨
    (∃ script queue, w.queue = .script script :: queue ∧
      drain w stack ran next =
        ⟨{ w with queue }, .run script :: .mark .task :: .drain (ran + 1) next :: stack⟩ ∧
      events ⟨w, .drain ran next :: stack⟩ = []) ∨
    (∃ state c hook queue, w.queue = .hook state c :: queue ∧
      (w.behavior state).hook? = some hook ∧ isAlive w (.drain ran next :: stack) state = true ∧
      drain w stack ran next =
        ⟨World.write { w with queue } (hookRecord c),
          .run (hook state c) :: .mark (.hook state c) :: .drain (ran + 1) next :: stack⟩ ∧
      events ⟨w, .drain ran next :: stack⟩ = [.state state (.hooked c)]) ∨
    (∃ state c queue, w.queue = .hook state c :: queue ∧
      ((w.behavior state).hook? = none ∨ isAlive w (.drain ran next :: stack) state = false) ∧
      drain w stack ran next = ⟨{ w with queue }, .drain (ran + 1) next :: stack⟩ ∧
      events ⟨w, .drain ran next :: stack⟩ = [.state state (.dropped c)]) := by
  match hq : w.queue with
  | [] => exact .inl ⟨rfl, by simp only [drain, hq], by simp only [events, hq]⟩
  | .script script :: queue =>
    exact .inr (.inl ⟨script, queue, rfl, by simp only [drain, hq], by simp only [events, hq]⟩)
  | .hook state c :: queue =>
    -- Taking the task off the queue changes neither the hook nor who is alive.
    have hb : World.behavior { w with queue } state = w.behavior state := rfl
    have hl : isAlive { w with queue } (.drain (ran + 1) next :: stack) state =
        isAlive w (.drain ran next :: stack) state := rfl
    cases hh : (w.behavior state).hook? with
    | none =>
      exact .inr (.inr (.inr ⟨state, c, queue, rfl, .inl hh, by simp only [drain, hq, hb, hh],
        by simp [events, hq, hh]⟩))
    | some hook =>
      cases ha : isAlive w (.drain ran next :: stack) state with
      | true =>
        exact .inr (.inr (.inl ⟨state, c, hook, queue, rfl, hh, ha,
          by simp only [drain, hq, hb, hh, hl, ha, if_true], by simp [events, hq, hh, ha]⟩))
      | false =>
        exact .inr (.inr (.inr ⟨state, c, queue, rfl, .inr ha,
          by simp [drain, hq, hb, hh, hl, ha], by simp [events, hq, ha]⟩))

/-! ## Runs step by step -/

private theorem step_of_stack_nil {m : Machine σ} (h : m.stack = []) : m.step = m := by
  unfold step
  rw [h]

theorem run_of_stack_nil {m : Machine σ} (h : m.stack = []) (n : Nat) : run n m = m := by
  cases n with
  | zero => rfl
  | succ n =>
    unfold run
    rw [h]

/-- A run goes on from its first step. -/
theorem run_succ (n : Nat) (m : Machine σ) : run (n + 1) m = run n m.step := by
  cases h : m.stack with
  | nil => rw [step_of_stack_nil h, run_of_stack_nil h, run_of_stack_nil h]
  | cons f rest => simp [run, h]

/-- A longer run ends with one more step. -/
theorem run_succ_step (n : Nat) (m : Machine σ) : run (n + 1) m = (run n m).step := by
  induction n generalizing m with
  | zero => rw [run_succ]; rfl
  | succ n ih => rw [run_succ, ih, ← run_succ]

/-- What is collected over the steps of a run, the first step first, ends with what its last step
adds. -/
theorem collected_succ {α : Type} (added : Machine σ → List α)
    (collected : Nat → Machine σ → List α) (zero : ∀ m, collected 0 m = [])
    (succ : ∀ n m, collected (n + 1) m = added m ++ collected n m.step) (n : Nat) (m : Machine σ) :
    collected (n + 1) m = collected n m ++ added (run n m) := by
  induction n generalizing m with
  | zero => rw [succ, zero, zero, List.append_nil, List.nil_append, run]
  | succ n ih =>
    rw [run_succ]
    calc collected (n + 2) m = added m ++ collected (n + 1) m.step := succ (n + 1) m
      -- The longer run is split at its first step, and the hypothesis at the last.
      _ = added m ++ collected n m.step ++ added (run n m.step) := by rw [ih, List.append_assoc]
      _ = collected (n + 1) m ++ added (run n m.step) := by rw [succ]

theorem trace_succ (n : Nat) (m : Machine σ) : trace (n + 1) m = trace n m ++ (run n m).events :=
  collected_succ events trace (fun _ => rfl) (fun _ _ => rfl) n m

theorem run_add (k n : Nat) (m : Machine σ) : run (k + n) m = run n (run k m) := by
  induction k generalizing m with
  | zero => rw [Nat.zero_add]; rfl
  | succ k ih => rw [Nat.succ_add, run_succ, ih, run_succ]

/-- A run goes on from where a shorter one has got to. -/
theorem trace_add (k n : Nat) (m : Machine σ) : trace (k + n) m = trace k m ++ trace n
    (run k m) := by
  induction k generalizing m with
  | zero => simp [trace, run]
  | succ k ih => rw [Nat.succ_add, run_succ, trace, ih, trace, List.append_assoc]

/-- What holds of a machine at the start of a run, and is preserved by steps that are recorded in
the trace, holds of every run. -/
theorem trace_induction {P : List (Event σ) → Machine σ → Prop} {m : Machine σ} (start : P [] m)
    (step : ∀ n, P (trace n m) (run n m) →
      P (trace n m ++ (run n m).events) (run n m).step) (n : Nat) :
    P (trace n m) (run n m) := by
  induction n with
  | zero => exact start
  | succ n ih => rw [trace_succ, run_succ_step]; exact step n ih

/-- What is in a trace was done by one of its steps. -/
theorem mem_trace {m : Machine σ} {n : Nat} {e : Event σ} (h : e ∈ trace n m) :
    ∃ k < n, e ∈ (run k m).events := by
  induction n with
  | zero => cases h
  | succ n ih =>
    rw [trace_succ] at h
    rcases List.mem_append.1 h with h | h
    · obtain ⟨k, hk, he⟩ := ih h
      exact ⟨k, Nat.lt_succ_of_lt hk, he⟩
    · exact ⟨n, Nat.lt_succ_self n, h⟩

end Machine

end ReactiveMarkup
