-- SUMMARY: The queue of tasks is first in, first out, and every run of it ends with it empty.
import Mathlib.Algebra.Ring.Nat
import ReactiveMarkup.Proofs.CallStack

/-!
# The queue of tasks

Tasks are deferred to the end of the queue, and whoever runs the queue starts them from its front. A
task may defer others and may run the queue itself; such a run takes the tasks that the run around
it would have come to next. `QueueEvent` lists what happens at the queue, and `Handle` what becomes
of it: the tasks that wait, the tasks that runs in progress have started, and those that have not
returned. A script that asks for a run waits for it while the run is `Draining`, and goes on when it
has `Drained`. `Machine.queue_in_order` reads off this that tasks start in the order in which they
were deferred, that every run leaves the queue empty, and that the replies of all runs add up to the
number of tasks.
-/

namespace ReactiveMarkup

variable {σ : Type}

/-! ## What happens at the queue -/

/-- Something that happens at the queue. -/
inductive QueueEvent (σ : Type) where
  /-- A task is put at the end of the queue. -/
  | deferred (task : Task σ)
  /-- The task at the front is taken off the queue and started. -/
  | started (task : Task σ)
  /-- A task has come to its end. -/
  | finished
  /-- A run of the queue returns with the number of tasks that it has run. -/
  | returned (ran : Nat)

namespace QueueEvent

def deferred? : QueueEvent σ → Option (Task σ)
  | deferred task => some task
  | started _ | finished | returned _ => none

def started? : QueueEvent σ → Option (Task σ)
  | started task => some task
  | deferred _ | finished | returned _ => none

def returned? : QueueEvent σ → Option Nat
  | returned ran => some ran
  | deferred _ | started _ | finished => none

def isFinished : QueueEvent σ → Bool
  | finished => true
  | deferred _ | started _ | returned _ => false

end QueueEvent

/-- The tasks deferred, in the order of their deferral. -/
def deferredTasks (t : List (QueueEvent σ)) : List (Task σ) := t.filterMap (·.deferred?)

/-- The tasks started, in the order of their start. -/
def startedTasks (t : List (QueueEvent σ)) : List (Task σ) := t.filterMap (·.started?)

/-- The replies of the runs that have returned. -/
def runReplies (t : List (QueueEvent σ)) : List Nat := t.filterMap (·.returned?)

/-- The number of tasks that have come to their end. -/
def finishedTasks (t : List (QueueEvent σ)) : Nat := t.countP (·.isFinished)

/-- Whether a task is called. -/
def Callee.isTask : Callee → Bool
  | task | hook _ _ => true
  | subscriber _ _ | watcher _ _ | listener _ _ => false

/-- Whether the frame is the mark of a task. -/
def Frame.isTask : Frame σ → Bool
  | mark callee => callee.isTask
  | _ => false

/-- Whether the frame is a run of the queue. -/
def Frame.isDrain : Frame σ → Bool
  | drain _ _ => true
  | _ => false

/-- The number of tasks that a run of the queue has started. -/
def Frame.ran : Frame σ → Nat
  | drain ran _ => ran
  | _ => 0

namespace Machine

/-- What the next step does at the queue. A hook that is not called comes to its end at once. -/
def queueEvents (m : Machine σ) : List (QueueEvent σ) :=
  match m.stack with
  | .run (.defer task _) :: _ => [.deferred (.script task)]
  | .react state c :: _ =>
    if (m.world.behavior state).hook?.isSome then [.deferred (.hook state c)] else []
  | .drain ran _ :: _ =>
    match m.world.queue with
    | [] => [.returned ran]
    | task :: _ => .started task :: if m.call?.isSome then [] else [.finished]
  | .mark callee :: _ => if callee.isTask then [.finished] else []
  | _ => []

/-- What happens at the queue in the first `n` steps of a machine. -/
def queueTrace : (n : Nat) → Machine σ → List (QueueEvent σ)
  | 0, _ => []
  | n + 1, m => m.queueEvents ++ queueTrace n m.step

private theorem queueTrace_succ (n : Nat) (m : Machine σ) :
    queueTrace (n + 1) m = queueTrace n m ++ (run n m).queueEvents :=
  collected_succ queueEvents queueTrace (fun _ => rfl) (fun _ _ => rfl) n m

end Machine

/-- How an event at the queue comes about: the stack at the step in which it does. -/
inductive QueueArises (w : World σ) : List (Frame σ) → QueueEvent σ → Prop
  | defer {task next : Script σ} {below : List (Frame σ)} :
      QueueArises w (.run (.defer task next) :: below) (.deferred (.script task))
  | react {state : StateId} {c : Change} {below : List (Frame σ)}
      (set : (w.behavior state).hook?.isSome = true) :
      QueueArises w (.react state c :: below) (.deferred (.hook state c))
  | start {task : Task σ} {queue : List (Task σ)} {ran : Nat} {next : Nat → Script σ}
      {below : List (Frame σ)} (front : w.queue = task :: queue) :
      QueueArises w (.drain ran next :: below) (.started task)
  /-- The hook of a state that has none or is not alive. -/
  | drop {task : Task σ} {queue : List (Task σ)} {ran : Nat} {next : Nat → Script σ}
      {below : List (Frame σ)} (front : w.queue = task :: queue)
      (uncalled : (⟨w, .drain ran next :: below⟩ : Machine σ).call? = none) :
      QueueArises w (.drain ran next :: below) .finished
  | finish {callee : Callee} {below : List (Frame σ)} (task : callee.isTask = true) :
      QueueArises w (.mark callee :: below) .finished
  | return_ {ran : Nat} {next : Nat → Script σ} {below : List (Frame σ)} (empty : w.queue = []) :
      QueueArises w (.drain ran next :: below) (.returned ran)

/-- What the next step is said to do at the queue comes about as it should. -/
theorem Machine.arises_of_mem_queueEvents {m : Machine σ} {e : QueueEvent σ}
    (h : e ∈ m.queueEvents) : QueueArises m.world m.stack e := by
  obtain ⟨w, stack⟩ := m
  match stack with
  | [] | .deliver _ _ _ :: _ | .watch _ _ _ :: _ | .dispatch _ _ _ :: _ => cases h
  | .run script :: below =>
    cases script with
    | defer task next =>
      obtain rfl := List.mem_singleton.1 h
      exact .defer
    | done | log _ _ | readMemory _ | writeMemory _ _ | readState _ _ | retain _ _ | release _ _
    | set _ _ _ _ | readSubject _ _ | runPending _ | pending _ | readDocument _ | edit _ _
    | listen _ _ _ _ | emit _ _ _ | unlisten _ _ | listeners _ _ | dispatch _ _ _ | subscribe _ _ _
    | unsubscribe _ _ _ | unmount _ _ => cases h
  | .react state c :: below =>
    cases hh : (w.behavior state).hook?.isSome with
    | true =>
      obtain rfl : e = .deferred (.hook state c) := by simpa [queueEvents, hh] using h
      exact .react hh
    | false => simp [queueEvents, hh] at h
  | .mark callee :: below =>
    cases hc : callee.isTask with
    | true =>
      obtain rfl : e = .finished := by simpa [queueEvents, hc] using h
      exact .finish hc
    | false => simp [queueEvents, hc] at h
  | .drain ran next :: below =>
    cases hq : w.queue with
    | nil =>
      obtain rfl : e = .returned ran := by simpa [queueEvents, hq] using h
      exact .return_ hq
    | cons task queue =>
      cases hcall : (⟨w, .drain ran next :: below⟩ : Machine σ).call? with
      | some callee =>
        obtain rfl : e = .started task := by simpa [queueEvents, hq, hcall] using h
        exact .start hq
      | none =>
        obtain rfl | rfl : e = .started task ∨ e = .finished := by
          simpa [queueEvents, hq, hcall] using h
        · exact .start hq
        · exact .drop hq hcall

/-! ## What becomes of the queue -/

/-- The queue and the runs of it that are in progress. -/
structure QueueView (σ : Type) where
  waiting : List (Task σ)
  /-- How many tasks the runs have started. -/
  ran : Nat
  /-- How many tasks have not come to their end. -/
  running : Nat

/-- What can become of the queue, with what happens then. -/
inductive Handle : QueueView σ → List (QueueEvent σ) → QueueView σ → Prop
  | rest (v : QueueView σ) : Handle v [] v
  | defer {q : List (Task σ)} {a r : Nat} (task : Task σ) :
      Handle ⟨q, a, r⟩ [.deferred task] ⟨q ++ [task], a, r⟩
  | start {q : List (Task σ)} {a r : Nat} (task : Task σ) :
      Handle ⟨task :: q, a, r⟩ [.started task] ⟨q, a + 1, r + 1⟩
  /-- The hook of a state that has none or is not alive. -/
  | drop {q : List (Task σ)} {a r : Nat} (task : Task σ) :
      Handle ⟨task :: q, a, r⟩ [.started task, .finished] ⟨q, a + 1, r⟩
  | finish {q : List (Task σ)} {a r : Nat} : Handle ⟨q, a, r + 1⟩ [.finished] ⟨q, a, r⟩
  | return_ {a r : Nat} (ran : Nat) : Handle ⟨[], a + ran, r⟩ [.returned ran] ⟨[], a, r⟩

/-- The tasks that were in the queue first and those deferred since are those started since and
those that wait, in this order, and every task started is accounted for. -/
structure Books (first : List (Task σ)) (t : List (QueueEvent σ)) (v : QueueView σ) : Prop where
  order : first ++ deferredTasks t = startedTasks t ++ v.waiting
  ran : (runReplies t).sum + v.ran = (startedTasks t).length
  running : finishedTasks t + v.running = (startedTasks t).length

private theorem Books.handle {first : List (Task σ)} {t e : List (QueueEvent σ)}
    {v v' : QueueView σ} (h : Books first t v) (hv : Handle v e v') : Books first (t ++ e) v' := by
  obtain ⟨order, ran, running⟩ := h
  simp only [deferredTasks, startedTasks, runReplies, finishedTasks] at order ran running
  constructor <;>
    simp only [deferredTasks, startedTasks, runReplies, finishedTasks, List.filterMap_append,
      List.countP_append, List.length_append, List.sum_append]
  case order =>
    cases hv with
    | rest v => simpa using order
    | defer task =>
      rw [← List.append_assoc, order]
      simp [QueueEvent.deferred?, QueueEvent.started?]
    | start task | drop task | finish | return_ ran =>
      simpa [QueueEvent.deferred?, QueueEvent.started?] using order
  case ran =>
    cases hv with
    | rest v => simpa using ran
    | defer task | start task | drop task | finish | return_ ran' =>
      simp [QueueEvent.returned?, QueueEvent.started?] at ran ⊢
      omega
  case running =>
    cases hv with
    | rest v => simpa using running
    | defer task | start task | drop task | finish | return_ ran' =>
      simp [QueueEvent.isFinished, QueueEvent.started?] at running ⊢
      omega

/-! ## Steps -/

namespace Machine

/-- The queue of a machine and the runs of it on the stack. -/
def queueView (m : Machine σ) : QueueView σ :=
  ⟨m.world.queue, (m.stack.map Frame.ran).sum, m.stack.countP Frame.isTask⟩

section Steps

variable {w : World σ} {stack : List (Frame σ)}

theorem queueView_emit (w : World σ) (stack : List (Frame σ)) (source : SubjectId) (n : Notice) :
    (emit w stack source n).queueView = (⟨w, stack⟩ : Machine σ).queueView := by
  obtain ⟨s, he | he⟩ := emit_cases w stack source n <;>
    simp [he, queueView, Frame.ran, Frame.isTask]

private theorem handle_perform (w : World σ) (stack : List (Frame σ)) (script : Script σ) :
    Handle (⟨w, .run script :: stack⟩ : Machine σ).queueView (queueEvents ⟨w, .run script :: stack⟩)
      (perform w stack script).queueView := by
  have hrest {m : Machine σ}
      (hm : m.queueView = (⟨w, .run script :: stack⟩ : Machine σ).queueView) :
      Handle (⟨w, .run script :: stack⟩ : Machine σ).queueView [] m.queueView := hm ▸ .rest _
  cases script with
  | defer task next =>
    simpa [queueEvents, perform, queueView, Frame.ran, Frame.isTask, World.defer]
      using Handle.defer (.script task)
  | set state path v next =>
    rcases hr : w.assign state path v with ⟨e | _ | c, w'⟩ <;>
      obtain rfl : (w.assign state path v).2 = w' := by rw [hr]
    · rw [perform_set_refused hr]
      exact hrest (by simp [queueView, Frame.ran, Frame.isTask])
    · rw [perform_set_silent hr]
      exact hrest (by simp [queueView, Frame.ran, Frame.isTask])
    · rw [perform_set_effective hr]
      exact hrest ((queueView_emit _ _ _ _).trans (by simp [queueView, Frame.ran, Frame.isTask]))
  | emit number v next =>
    exact hrest ((queueView_emit _ _ _ _).trans (by simp [queueView, Frame.ran, Frame.isTask]))
  | done | log _ _ | readMemory _ | writeMemory _ _ | readState _ _ | retain _ _ | release _ _
  | readSubject _ _ | subscribe _ _ _ | unsubscribe _ _ _ | runPending _ | pending _
  | readDocument _ | edit _ _ | listen _ _ _ _
  | unlisten _ _ | listeners _ _ | dispatch _ _ _ | unmount _ _ =>
    exact hrest (by simp [perform, queueView, Frame.ran, Frame.isTask, Callee.isTask])

private theorem handle_drain (w : World σ) (stack : List (Frame σ)) (ran : Nat)
    (next : Nat → Script σ) :
    Handle (⟨w, .drain ran next :: stack⟩ : Machine σ).queueView
      (queueEvents ⟨w, .drain ran next :: stack⟩) (drain w stack ran next).queueView := by
  obtain ⟨hq, hd, -⟩ | ⟨script, queue, hq, hd, -⟩ | ⟨state, c, hook, queue, hq, hb, ha, hd, -⟩ |
    ⟨state, c, queue, hq, hnot, hd, -⟩ := drain_cases w stack ran next
  · rw [hd]
    have hmove :=
      Handle.return_ (σ := σ) (a := (stack.map Frame.ran).sum) (r := stack.countP Frame.isTask) ran
    simpa [queueEvents, queueView, hq, Frame.ran, Frame.isTask, Nat.add_comm] using hmove
  · rw [hd]
    have hmove := Handle.start (q := queue) (a := ran + (stack.map Frame.ran).sum)
      (r := stack.countP Frame.isTask) (.script script)
    simpa [queueEvents, queueView, hq, call?, List.countP_cons, Frame.ran, Frame.isTask,
      Callee.isTask, Nat.add_right_comm] using hmove
  · rw [hd]
    have hmove := Handle.start (q := queue) (a := ran + (stack.map Frame.ran).sum)
      (r := stack.countP Frame.isTask) (.hook state c)
    simpa [queueEvents, queueView, hq, call?, hb, ha, List.countP_cons, Frame.ran, Frame.isTask,
      Callee.isTask, World.write, Nat.add_right_comm] using hmove
  · rw [hd]
    have hcall : call? ⟨w, .drain ran next :: stack⟩ = none := by
      rcases hnot with hnot | hnot <;> simp [call?, hq, hnot]
    have hmove := Handle.drop (q := queue) (a := ran + (stack.map Frame.ran).sum)
      (r := stack.countP Frame.isTask) (.hook state c)
    simpa [queueEvents, queueView, hq, hcall, Frame.ran, Frame.isTask,
      Nat.add_right_comm] using hmove

end Steps

/-- Every step of a machine is a move of the queue. -/
theorem handle_step (m : Machine σ) : Handle m.queueView m.queueEvents m.step.queueView := by
  obtain ⟨w, stack⟩ := m
  have hrest {stack : List (Frame σ)} {m : Machine σ}
    (hm : m.queueView = (⟨w, stack⟩ : Machine σ).queueView) :
      Handle (⟨w, stack⟩ : Machine σ).queueView [] m.queueView := hm ▸ .rest _
  match stack with
  | [] => exact hrest rfl
  | .run script :: stack => exact handle_perform w stack script
  | .drain ran next :: stack => exact handle_drain w stack ran next
  | .mark callee :: stack =>
    cases hc : callee.isTask with
    | true => simpa [queueEvents, queueView, step, hc, Frame.ran, Frame.isTask] using Handle.finish
    | false => simpa [queueEvents, queueView, step, hc, Frame.ran, Frame.isTask] using Handle.rest _
  | .react state c :: stack =>
    cases hh : (w.behavior state).hook?.isSome with
    | true =>
      simpa [queueEvents, queueView, step, react, hh, World.defer, Frame.ran, Frame.isTask] using
        Handle.defer (.hook state c)
    | false => simpa [queueEvents, queueView, step, react, hh, Frame.ran, Frame.isTask]
      using Handle.rest _
  | .deliver source notice (sub :: waiting) :: stack =>
    exact hrest (by simp [step, deliver, queueView, Frame.ran, Frame.isTask, Callee.isTask])
  | .deliver source notice [] :: stack =>
    have hstep : step ⟨w, .deliver source notice [] :: stack⟩ =
      deliver w stack source notice [] := rfl
    obtain ⟨_, _, _, _, _, hd, _⟩ | ⟨_, hd, _⟩ := deliver_nil_cases w stack source notice <;>
    · rw [hstep, hd]
      exact hrest (by simp [queueView, Frame.ran, Frame.isTask])
  | .watch state c [] :: stack =>
    exact hrest (by simp [step, watch, queueView, Frame.ran, Frame.isTask])
  | .watch state c (watcher :: waiting) :: stack =>
    exact hrest (by simp [step, watch, queueView, Frame.ran, Frame.isTask, Callee.isTask])
  | .dispatch [] called next :: stack =>
    exact hrest (by simp [step, dispatch, queueView, Frame.ran, Frame.isTask])
  | .dispatch (l :: waiting) called next :: stack =>
    cases hl : isCalled stack l.id <;>
      exact hrest (by simp [step, dispatch, hl, queueView, Frame.ran, Frame.isTask, Callee.isTask])

/-! ## Runs -/

theorem books_run (w : World σ) (script : Script σ) (n : Nat) :
    Books w.queue (queueTrace n ⟨w, [.run script]⟩) (run n ⟨w, [.run script]⟩).queueView := by
  induction n with
  | zero =>
    constructor <;>
      simp [queueTrace, run, queueView, deferredTasks, startedTasks, runReplies, finishedTasks,
        Frame.ran, Frame.isTask]
  | succ n ih =>
    rw [queueTrace_succ, run_succ_step]
    exact ih.handle (handle_step _)

/-- A task that has not come to its end was started by a run of the queue that has not returned. -/
private theorem exists_drain_of_task {stack : List (Frame σ)} (h : Layered stack) {f : Frame σ}
    (hf : f ∈ stack) (htask : f.isTask = true) : ∃ g ∈ stack, g.isDrain = true := by
  obtain ⟨above, below, rfl⟩ := List.append_of_mem hf
  cases f with
  | mark c =>
    obtain ⟨g, rest, rfl, hawaits⟩ := h.of_append.awaits
    refine ⟨g, by simp, ?_⟩
    cases c with
    | task | hook _ _ => cases g <;> first | rfl | cases hawaits
    | subscriber _ _ | watcher _ _ | listener _ _ => cases htask
  | run _ | deliver _ _ _ | react _ _ | watch _ _ _ | drain _ _ | dispatch _ _ _ => cases htask

/-- A run of the queue returns when the queue is empty. -/
theorem step_of_returned_run {m : Machine σ} {ran : Nat} (h : .returned ran ∈ m.queueEvents) :
    ∃ next below, m.stack = .drain ran next :: below ∧ m.world.queue = [] ∧
      m.step = ⟨m.world, .run (next ran) :: below⟩ := by
  have harises := arises_of_mem_queueEvents h
  obtain ⟨w, stack⟩ := m
  cases harises with
  | @return_ _ next below empty =>
    have hqueue : w.queue = [] := empty
    exact ⟨next, below, rfl, empty, by simp [step, drain, hqueue]⟩

/-- A script that is started is run, and a hook is run if its state has one and is alive. -/
theorem step_of_started {m : Machine σ} {task : Task σ} (h : .started task ∈ m.queueEvents) :
    ∃ ran next below, m.stack = .drain ran next :: below ∧
      match task with
      | .script s => m.step.stack = .run s :: .mark .task :: .drain (ran + 1) next :: below
      | .hook state c =>
        (∃ hook, (m.world.behavior state).hook? = some hook ∧
          isAlive m.world m.stack state = true ∧ m.step.stack =
            .run (hook state c) :: .mark (.hook state c) :: .drain (ran + 1) next :: below) ∨
        ((m.world.behavior state).hook? = none ∨ isAlive m.world m.stack state = false) ∧
          m.step.stack = .drain (ran + 1) next :: below := by
  have harises := arises_of_mem_queueEvents h
  obtain ⟨w, stack⟩ := m
  cases harises with
  | @start _ queue ran next below front =>
    have hfront : w.queue = task :: queue := front
    have hstep : step ⟨w, .drain ran next :: below⟩ = drain w below ran next := rfl
    refine ⟨ran, next, below, rfl, ?_⟩
    obtain ⟨hq, -⟩ | ⟨script, _, hq, hd, -⟩ | ⟨state, c, hook, _, hq, hb, ha, hd, -⟩ |
      ⟨state, c, _, hq, hnot, hd, -⟩ := drain_cases w below ran next
    · cases hfront.symm.trans hq
    · cases hfront.symm.trans hq
      rw [hstep, hd]
    · cases hfront.symm.trans hq
      exact .inl ⟨hook, hb, ha, by rw [hstep, hd]⟩
    · cases hfront.symm.trans hq
      exact .inr ⟨hnot, by rw [hstep, hd]⟩

/-! ## One run of the queue -/

/-- The task that the run of the queue starts next which has so many frames below it. -/
def startedAt? (depth : Nat) (m : Machine σ) : Option (Task σ) :=
  match m.stack with
  | .drain _ _ :: below => if below.length = depth then m.world.queue.head? else none
  | _ => none

/-- The tasks that runs of the queue with so many frames below them start in the first `n` steps. -/
def startedAt (depth : Nat) : (n : Nat) → Machine σ → List (Task σ)
  | 0, _ => []
  | n + 1, m => (m.startedAt? depth).toList ++ startedAt depth n m.step

theorem startedAt_succ (depth n : Nat) (m : Machine σ) :
    startedAt depth (n + 1) m = startedAt depth n m ++ ((run n m).startedAt? depth).toList :=
  collected_succ (fun m => (m.startedAt? depth).toList) (startedAt depth) (fun _ => rfl)
    (fun _ _ => rfl) n m

private theorem startedAt?_eq_none {m : Machine σ} {f g : Frame σ} {above below : List (Frame σ)}
    (h : m.stack = f :: above ++ g :: below) : m.startedAt? below.length = none := by
  unfold startedAt?
  split
  · next hdrain =>
    rw [h] at hdrain
    obtain ⟨-, rfl⟩ := List.cons.inj hdrain
    refine if_neg ?_
    simp only [List.append_eq, List.length_append, List.length_cons]
    omega
  · rfl

/-- A run of the queue is going on `n` steps after it was begun, and counts the tasks that it has
started. -/
def Draining (next : Nat → Script σ) (below : List (Frame σ)) (n : Nat) (m : Machine σ) : Prop :=
  ∃ above, (run n m).stack = above ++ .drain (startedAt below.length n m).length next :: below

/-- A run of the queue has returned within `n` steps: with the queue empty, and with the number of
tasks that it has started. -/
def Drained (next : Nat → Script σ) (below : List (Frame σ)) (n : Nat) (m : Machine σ) : Prop :=
  ∃ k < n, .returned (startedAt below.length k m).length ∈ (run k m).queueEvents ∧
    (run (k + 1) m).world.queue = [] ∧
    (run (k + 1) m).stack = .run (next (startedAt below.length k m).length) :: below

section Run

variable {m : Machine σ} {next : Nat → Script σ} {below : List (Frame σ)} {n : Nat}

/-- The turn of a run of the queue that has nothing above it. -/
theorem Draining.turn
    (h : (run n m).stack = .drain (startedAt below.length n m).length next :: below) :
    Draining next below (n + 1) m ∨ Drained next below (n + 1) m := by
  have hsucc := run_succ_step n m
  have hstarted := startedAt_succ below.length n m
  rcases hm : run n m with ⟨w, stack⟩
  rw [hm] at h hsucc hstarted
  generalize hran : (startedAt below.length n m).length = ran at h
  obtain rfl : stack = .drain ran next :: below := h
  have hstep : step ⟨w, .drain ran next :: below⟩ = drain w below ran next := rfl
  -- A task that is started is the next one that is counted.
  have hcount {task : Task σ} {queue : List (Task σ)} (hq : w.queue = task :: queue) :
      (startedAt below.length (n + 1) m).length = ran + 1 := by
    simp [hstarted, startedAt?, hq, hran]
  rw [hstep] at hsucc
  obtain ⟨hq, hd, -⟩ | ⟨script, queue, hq, hd, -⟩ | ⟨state, c, hook, queue, hq, -, -, hd, -⟩ |
    ⟨state, c, queue, hq, -, hd, -⟩ := drain_cases w below ran next
  · refine .inr ⟨n, Nat.lt_succ_self n, ?_, ?_, ?_⟩
    · rw [hm, hran]
      simp [queueEvents, hq]
    · rw [hsucc, hd]
      exact hq
    · rw [hsucc, hd, hran]
  · exact .inl ⟨[.run script, .mark .task], by rw [hsucc, hd, hcount hq]; rfl⟩
  · exact .inl ⟨[.run (hook state c), .mark (.hook state c)], by rw [hsucc, hd, hcount hq]; rfl⟩
  · exact .inl ⟨[], by rw [hsucc, hd, hcount hq]; rfl⟩

/-- A run of the queue goes on. -/
theorem Draining.step (h : Draining next below n m) :
    Draining next below (n + 1) m ∨ Drained next below (n + 1) m := by
  obtain ⟨above, hstack⟩ := h
  cases above with
  | nil => exact turn hstack
  | cons f above =>
    -- While something is above it a run waits.
    obtain ⟨above', hstack'⟩ := below_step hstack
    refine .inl ⟨above', ?_⟩
    rw [startedAt_succ, startedAt?_eq_none hstack, run_succ_step, Option.toList_none,
      List.append_nil, hstack']

/-- A run of the queue that is begun is going on until it returns. -/
private theorem draining_or_drained (h : m.stack = .run (.runPending next) :: below) (n : Nat) :
    Draining next below (n + 1) m ∨ Drained next below (n + 1) m := by
  induction n with
  | zero =>
    obtain ⟨w, stack⟩ := m
    obtain rfl : stack = .run (.runPending next) :: below := h
    exact .inl ⟨[], rfl⟩
  | succ n ih =>
    obtain h | ⟨k, hk, h⟩ := ih
    · exact h.step
    · exact .inr ⟨k, Nat.lt_succ_of_lt hk, h⟩

/-- A run of the queue that a script leaves on the stack was there before, or the script asks for
it. -/
private theorem drain_perform {w : World σ} {stack : List (Frame σ)} {script : Script σ} {ran : Nat}
    (h : .drain ran next :: below <:+ (perform w stack script).stack) :
    .drain ran next :: below <:+ stack ∨ script = .runPending next ∧ stack = below := by
  have hrest (pushed : List (Frame σ)) (hp : .drain ran next ∉ pushed)
      (h : .drain ran next :: below <:+ pushed ++ stack) : .drain ran next :: below <:+ stack :=
    suffix_of_suffix_append h hp
  have hemit {w' : World σ} {source : SubjectId} {n : Notice} (pushed : List (Frame σ))
      (hp : .drain ran next ∉ pushed)
      (h : .drain ran next :: below <:+ (emit w' (pushed ++ stack) source n).stack) :
      .drain ran next :: below <:+ stack := by
    obtain ⟨s, he | he⟩ := emit_cases w' (pushed ++ stack) source n
    · rw [he] at h
      exact hrest pushed hp h
    · rw [he] at h
      exact hrest (.deliver source none [] :: pushed) (by simpa using hp) h
  cases script with
  | done => exact .inl h
  | runPending next' =>
    obtain heq | hold := List.suffix_cons_iff.1 h
    · obtain ⟨hframe, rfl⟩ := List.cons.inj heq
      cases hframe
      exact .inr ⟨rfl, rfl⟩
    · exact .inl hold
  | set state path v next' =>
    rcases hr : w.assign state path v with ⟨_ | _ | c, w'⟩
    · rw [perform_set_refused hr] at h
      exact .inl (hrest [.run _] (by simp) h)
    · rw [perform_set_silent hr] at h
      exact .inl (hrest [.run _] (by simp) h)
    · rw [perform_set_effective hr] at h
      exact .inl (hemit [.react state c, .run _] (by simp) h)
  | emit number v next' => exact .inl (hemit [.run next'] (by simp) h)
  | subscribe source callback next' =>
    exact .inl (hrest [.run _, .mark _, .run _] (by simp) h)
  | dispatch node event next' => exact .inl (hrest [.dispatch _ _ _] (by simp) h)
  | log _ _ | readMemory _ | writeMemory _ _ | readState _ _ | retain _ _ | release _ _
  | readSubject _ _ | unsubscribe _ _ _ | defer _ _ | pending _ | readDocument _ | edit _ _
  | listen _ _ _ _ | unlisten _ _ | listeners _ _ | unmount _ _ =>
    exact .inl (hrest [.run _] (by simp) h)

/-- A run of the queue that is on the stack after a step was there before, or a script asks for
it. -/
theorem drain_step {ran : Nat} (h : .drain ran next :: below <:+ m.step.stack) :
    (∃ ran', .drain ran' next :: below <:+ m.stack) ∨
    m.stack = .run (.runPending next) :: below := by
  obtain ⟨w, stack⟩ := m
  have hrest {f : Frame σ} {rest : List (Frame σ)} (pushed : List (Frame σ))
      (hp : .drain ran next ∉ pushed) (h : .drain ran next :: below <:+ pushed ++ rest) :
      ∃ ran', .drain ran' next :: below <:+ f :: rest :=
    ⟨ran, (suffix_of_suffix_append h hp).trans (List.suffix_cons f rest)⟩
  -- A run that goes on is the one that was there, with another count.
  have hdrain {ran' : Nat} {next' : Nat → Script σ} {rest : List (Frame σ)}
    (pushed : List (Frame σ)) (hp : .drain ran next ∉ pushed)
      (h : .drain ran next :: below <:+ pushed ++ .drain (ran' + 1) next' :: rest) :
      ∃ ran'', .drain ran'' next :: below <:+ .drain ran' next' :: rest := by
    obtain heq | hold := List.suffix_cons_iff.1 (suffix_of_suffix_append h hp)
    · obtain ⟨hframe, rfl⟩ := List.cons.inj heq
      cases hframe
      exact ⟨ran', List.suffix_refl _⟩
    · exact ⟨ran, hold.trans (List.suffix_cons _ rest)⟩
  match stack with
  | [] => exact .inl ⟨ran, h⟩
  | .run script :: rest =>
    obtain hold | ⟨rfl, rfl⟩ := drain_perform h
    · exact .inl ⟨ran, hold.trans (List.suffix_cons _ rest)⟩
    · exact .inr rfl
  | .mark _ :: rest | .watch _ _ [] :: rest => exact .inl (hrest [] (by simp) h)
  | .react _ _ :: rest => exact .inl (hrest [.watch _ _ _] (by simp) h)
  | .watch _ _ (_ :: _) :: rest =>
    exact .inl (hrest [.run _, .mark _, .watch _ _ _] (by simp) h)
  | .deliver _ _ (_ :: _) :: rest =>
    exact .inl (hrest [.run _, .mark _, .deliver _ _ _] (by simp) h)
  | .deliver source notice [] :: rest =>
    have hstep : step ⟨w, .deliver source notice [] :: rest⟩ =
      deliver w rest source notice [] := rfl
    obtain ⟨_, _, _, _, _, hd, _⟩ | ⟨_, hd, _⟩ := deliver_nil_cases w rest source notice <;>
      rw [hstep, hd] at h
    · exact .inl (hrest [.deliver _ _ _] (by simp) h)
    · exact .inl (hrest [] (by simp) h)
  | .dispatch [] _ _ :: rest => exact .inl (hrest [.run _] (by simp) h)
  | .dispatch (l :: waiting) called next' :: rest =>
    cases hl : isCalled rest l.id with
    | true =>
      simp only [step, dispatch, hl, if_true] at h
      exact .inl (hrest [.dispatch _ _ _] (by simp) h)
    | false =>
      simp only [step, dispatch, hl, Bool.false_eq_true, if_false] at h
      exact .inl (hrest [.run _, .mark _, .dispatch _ _ _] (by simp) h)
  | .drain ran' next' :: rest =>
    have hstep : step ⟨w, .drain ran' next' :: rest⟩ = drain w rest ran' next' := rfl
    obtain ⟨_, hd, _⟩ | ⟨_, _, _, hd, _⟩ | ⟨_, _, _, _, _, _, _, hd, _⟩ | ⟨_, _, _, _, _, hd, _⟩ :=
      drain_cases w rest ran' next' <;> rw [hstep, hd] at h
    · exact .inl (hrest [.run _] (by simp) h)
    · exact .inl (hdrain [.run _, .mark _] (by simp) h)
    · exact .inl (hdrain [.run _, .mark _] (by simp) h)
    · exact .inl (hdrain [] (by simp) h)

/-- Every run of the queue was asked for by a script. -/
private theorem exists_runPending_of_drain {w : World σ} {script : Script σ} {ran : Nat}
    (h : .drain ran next :: below <:+ (run n ⟨w, [.run script]⟩).stack) :
    ∃ k < n, (run k ⟨w, [.run script]⟩).stack = .run (.runPending next) :: below := by
  induction n generalizing ran with
  | zero => simp [run, List.suffix_cons_iff] at h
  | succ n ih =>
    rw [run_succ_step] at h
    obtain ⟨ran', hold⟩ | hnew := drain_step h
    · obtain ⟨k, hk, hasked⟩ := ih hold
      exact ⟨k, Nat.lt_succ_of_lt hk, hasked⟩
    · exact ⟨n, Nat.lt_succ_self n, hnew⟩

end Run

/-! ## All runs of the queue -/

/-- What the first `n` steps of a machine do to the queue. -/
structure QueueInOrder (start : Machine σ) (n : Nat) : Prop where
  /-- The tasks started are the first of the tasks deferred, in the same order and each once. The
  others wait. -/
  order : start.world.queue ++ deferredTasks (queueTrace n start) =
    startedTasks (queueTrace n start) ++ (run n start).world.queue
  /-- The number of tasks that wait is that of the tasks deferred less that of the tasks started. -/
  length : (run n start).world.queue.length + (startedTasks (queueTrace n start)).length =
    start.world.queue.length + (deferredTasks (queueTrace n start)).length
  /-- A task that is deferred is put at the end of the queue, and the script goes on. -/
  deferred : ∀ k < n, ∀ task next below, (run k start).stack = .run (.defer task next) :: below →
    (run (k + 1) start).stack = .run next :: below ∧
      (run (k + 1) start).world.queue = (run k start).world.queue ++ [.script task]
  /-- The script of a task that starts is run. -/
  begun : ∀ k < n, ∀ s, .started (.script s) ∈ (run k start).queueEvents →
    ∃ below, (run (k + 1) start).stack = .run s :: .mark .task :: below
  /-- The hook of a state is run if the state has one and is alive. -/
  hooked : ∀ k < n, ∀ state c, .started (.hook state c) ∈ (run k start).queueEvents →
    ((run k start).world.behavior state).hook? = none ∨
      isAlive (run k start).world (run k start).stack state = false ∨
      ∃ hook below, ((run k start).world.behavior state).hook? = some hook ∧
        (run (k + 1) start).stack = .run (hook state c) :: .mark (.hook state c) :: below
  /-- A script that asks for the number of tasks is told how many wait. -/
  asked : ∀ k < n, ∀ next below, (run k start).stack = .run (.pending next) :: below →
    (run (k + 1) start).stack = .run (next (run k start).world.queue.length) :: below
  /-- A script that asks for a run of the queue waits for it, and goes on with the number of tasks
  that the run has started when the queue is empty. -/
  runs : ∀ k < n, ∀ next below, (run k start).stack = .run (.runPending next) :: below →
    Draining next below (n - k) (run k start) ∨ Drained next below (n - k) (run k start)
  /-- When nothing is left to do, every run of the queue has returned. -/
  ended : (run n start).stack = [] → ∀ k < n, ∀ next below,
    (run k start).stack = .run (.runPending next) :: below →
    Drained next below (n - k) (run k start)
  /-- Every run of the queue was asked for. -/
  drains : ∀ ran next below, .drain ran next :: below <:+ (run n start).stack →
    ∃ k < n, (run k start).stack = .run (.runPending next) :: below
  /-- A run of the queue returns its number of tasks when the queue is empty. All tasks deferred
  until then have been started. -/
  returned : ∀ k < n, ∀ ran, .returned ran ∈ (run k start).queueEvents →
    (∃ next below, (run k start).stack = .drain ran next :: below ∧
      (run (k + 1) start).stack = .run (next ran) :: below) ∧
    (run (k + 1) start).world.queue = [] ∧
    startedTasks (queueTrace (k + 1) start) = start.world.queue ++
      deferredTasks (queueTrace (k + 1) start)
  /-- When no run of the queue is in progress, the replies of all runs add up to the number of tasks
  that have come to their end. -/
  total : (∀ f ∈ (run n start).stack, f.isDrain = false) →
    (runReplies (queueTrace n start)).sum = finishedTasks (queueTrace n start)

/-- Tasks start in the order of their deferral, however runs of the queue are nested. Every run
returns with the queue empty, and the replies count every task once. -/
theorem queue_in_order (w : World σ) (script : Script σ) (n : Nat) :
    QueueInOrder ⟨w, [.run script]⟩ n := by
  have hbooks := books_run w script n
  have hruns : ∀ k < n, ∀ next below, (run k ⟨w, [.run script]⟩).stack =
    .run (.runPending next) :: below → Draining next below (n - k) (run k ⟨w, [.run script]⟩) ∨
        Drained next below (n - k) (run k ⟨w, [.run script]⟩) := by
    intro k hk next below h
    obtain ⟨j, rfl⟩ := Nat.exists_eq_add_of_lt hk
    rw [Nat.add_assoc, Nat.add_sub_cancel_left]
    exact draining_or_drained h j
  constructor
  case order => exact hbooks.order
  case length =>
    have hlength := congrArg List.length hbooks.order
    rw [List.length_append, List.length_append] at hlength
    rw [hlength]
    exact Nat.add_comm _ _
  case deferred =>
    intro k _ task next below h
    rw [run_succ_step, step, h]
    exact ⟨rfl, rfl⟩
  case begun =>
    intro k _ s hs
    obtain ⟨ran, next, below, -, hstep⟩ := step_of_started hs
    exact ⟨_, by rw [run_succ_step]; exact hstep⟩
  case hooked =>
    intro k _ state c hs
    obtain ⟨ran, next, below, -, ⟨hook, hset, -, hstep⟩ | ⟨hnot, -⟩⟩ := step_of_started hs
    · exact .inr (.inr ⟨hook, _, hset, by rw [run_succ_step]; exact hstep⟩)
    · exact hnot.imp_right .inl
  case asked =>
    intro k _ next below h
    rw [run_succ_step, step, h]
    rfl
  case runs => exact hruns
  case ended =>
    intro hdone k hk next below h
    refine (hruns k hk next below h).resolve_left ?_
    rintro ⟨above, hstack⟩
    rw [← run_add, Nat.add_sub_of_le (Nat.le_of_lt hk), hdone] at hstack
    simp at hstack
  case drains => exact fun ran next below h => exists_runPending_of_drain h
  case returned =>
    intro k _ ran hran
    obtain ⟨next, below, hstack, hqueue, hstep⟩ := step_of_returned_run hran
    have hempty : (run (k + 1) ⟨w, [.run script]⟩).world.queue = [] := by
      rw [run_succ_step, hstep]
      exact hqueue
    refine ⟨⟨next, below, hstack, by rw [run_succ_step, hstep]⟩, hempty, ?_⟩
    have horder := (books_run w script (k + 1)).order
    rw [queueView, hempty, List.append_nil] at horder
    exact horder.symm
  case total =>
    intro hidle
    have hran : ((run n ⟨w, [.run script]⟩).stack.map Frame.ran).sum = 0 := by
      refine List.sum_eq_zero_iff_forall_eq_nat.2 fun a ha => ?_
      obtain ⟨f, hf, rfl⟩ := List.mem_map.1 ha
      have hnot := hidle f hf
      cases f <;> first | rfl | cases hnot
    have hrunning : (run n ⟨w, [.run script]⟩).stack.countP Frame.isTask = 0 := by
      refine List.countP_eq_zero.2 fun f hf htask => ?_
      obtain ⟨g, hg, hdrain⟩ :=
        exists_drain_of_task (layered_run (layered_script script) n) hf htask
      rw [hidle g hg] at hdrain
      cases hdrain
    have hreplies := hbooks.ran
    have hfinished := hbooks.running
    simp only [queueView, hran, hrunning, Nat.add_zero] at hreplies hfinished
    rw [hreplies, hfinished]

/-- Defers a task that defers another one and runs the queue, defers a second task, and runs the
queue. -/
def nestedDrains : Script Unit :=
  .defer (.defer .done (.runPending fun _ => .done)) (.defer .done (.runPending fun _ => .done))

/-- The run within the first task takes the other two. -/
example : runReplies (queueTrace 20 ⟨{ memory := () }, [.run nestedDrains]⟩) = [2, 1] := by decide

end Machine

end ReactiveMarkup
