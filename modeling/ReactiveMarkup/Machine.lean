-- SUMMARY: The machine that runs scripts, step by step, on a world and a stack of frames.
import ReactiveMarkup.World

/-!
# Running scripts

A `Machine` is a world and a stack of frames: what is being done, the innermost first.
`Machine.step` does one thing. Below every script that was called back stands a mark that says who
was called, until the callback returns.

The order of an effective write is: the tree changes, subscribers are called, the hook is deferred,
and the watchers of the path are called. If a delivery from the same state is in progress the change
is left to it, and hook and watchers come first.
-/

namespace ReactiveMarkup

/-- Who is called back. -/
inductive Callee where
  | subscriber (source : SubjectId) (subscription : Nat)
  | watcher (state : StateId) (path : Path)
  | hook (state : StateId) (change : Change)
  | listener (listener : ListenerId) (owner : Option StateId)
  | task

/-- Something being done. -/
inductive Frame (σ : Type) where
  /-- What is left of a script. -/
  | run (script : Script σ)
  /-- The end of a callback. -/
  | mark (callee : Callee)
  /-- A delivery: the notice in progress and the subscribers that have not seen it. -/
  | deliver (source : SubjectId) (notice : Option Notice) (waiting : List (Subscriber σ))
  /-- What is left of a write once its change was handed to the subscribers. -/
  | react (state : StateId) (change : Change)
  /-- The watchers of a write that have not been called. -/
  | watch (state : StateId) (change : Change) (waiting : List (Watcher σ))
  /-- A run of the queue that has run some tasks. -/
  | drain (ran : Nat) (next : Nat → Script σ)
  /-- A dispatch: the listeners whose turn is to come, and how many have been called. -/
  | dispatch (waiting : List (Listener σ)) (called : Nat) (next : Nat → Script σ)

/-- Whether a callee keeps the state alive while it is called. -/
def Callee.holds (state : StateId) : Callee → Bool
  | subscriber _ _ | task => false
  | watcher s _ => s == state
  | hook s _ => s == state
  | listener _ owner => owner == some state

/-- Whether a frame keeps the state alive. -/
def Frame.holds {σ : Type} (state : StateId) : Frame σ → Bool
  | run _ | deliver _ _ _ | drain _ _ => false
  | mark callee => callee.holds state
  | react s _ => s == state
  | watch s _ _ => s == state
  | dispatch waiting _ _ => waiting.any (·.owner == some state)

/-- Whether the frame is the mark of a call of the listener. -/
def Frame.isCallOf {σ : Type} (id : ListenerId) : Frame σ → Bool
  | mark (.listener other _) => other == id
  | _ => false

/-- A world in which something is being done. -/
structure Machine (σ : Type) where
  world : World σ
  /-- What is being done, the innermost first. -/
  stack : List (Frame σ)

namespace Machine

variable {σ : Type}

/-- Whether the state is held by the world or by something being done. -/
def isAlive (w : World σ) (stack : List (Frame σ)) (state : StateId) : Bool :=
  w.isHeld state || stack.any (·.holds state)

/-- Whether the listener is being called. -/
def isCalled (stack : List (Frame σ)) (id : ListenerId) : Bool := stack.any (·.isCallOf id)

/-! ## Steps -/

/-- Emits a notice: it joins the line of its subject, and a delivery begins unless one is in
progress. -/
def emit (w : World σ) (stack : List (Frame σ)) (source : SubjectId) (n : Notice) : Machine σ :=
  let s := (w.subject source).enqueue n
  if s.delivering then ⟨w.putSubject source s, stack⟩
  else ⟨w.putSubject source { s with delivering := true }, .deliver source none [] :: stack⟩

/-- The first operation of a script, with what is being done around it. -/
def perform (w : World σ) (stack : List (Frame σ)) : Script σ → Machine σ
  | .done => ⟨w, stack⟩
  | .log entry next => ⟨w.write entry, .run next :: stack⟩
  | .readMemory next => ⟨w, .run (next w.memory) :: stack⟩
  | .writeMemory memory next => ⟨{ w with memory }, .run next :: stack⟩
  | .readState state next => ⟨w, .run (next (w.stateView state)) :: stack⟩
  | .set state path v next =>
    match w.assign state path v with
    | (.error e, w) => ⟨w, .run (next (.error e)) :: stack⟩
    | (.ok none, w) => ⟨w, .run (next (.ok false)) :: stack⟩
    | (.ok (some c), w) =>
      emit w (.react state c :: .run (next (.ok true)) :: stack) (.state state) (.change c)
  | .retain state next => ⟨w.retain state, .run next :: stack⟩
  | .release state next => ⟨w.release state, .run next :: stack⟩
  | .readSubject source next => ⟨w, .run (next (w.subject source).view) :: stack⟩
  | .subscribe source callback next =>
    let (id, w) := w.register source callback
    ⟨w, .run (callback (w.subject source).latest) :: .mark (.subscriber source id)
      :: .run (next id) :: stack⟩
  | .unsubscribe source id next => ⟨w.unsubscribe source id, .run next :: stack⟩
  | .emit number v next => emit w (.run next :: stack) (.own number) (.value v)
  | .defer task next => ⟨w.defer (.script task), .run next :: stack⟩
  | .runPending next => ⟨w, .drain 0 next :: stack⟩
  | .pending next => ⟨w, .run (next w.queue.length) :: stack⟩
  | .readDocument next => ⟨w, .run (next w.document) :: stack⟩
  | .edit e next =>
    let (reply, w) := w.edit e
    ⟨w, .run (next reply) :: stack⟩
  | .listen node event callback next =>
    let (id, w) := w.listen node event none callback
    ⟨w, .run (next id) :: stack⟩
  | .unlisten id next => ⟨w.unlisten id, .run next :: stack⟩
  | .listeners node next => ⟨w, .run (next (w.listenersAt node).length) :: stack⟩
  | .dispatch node event next => ⟨w, .dispatch (w.listenersFor node event) 0 next :: stack⟩
  | .unmount m next => ⟨w.unmount m, .run next :: stack⟩

/-- Goes on with a delivery: the next subscriber is called, or the next notice in line is begun, or
the delivery ends. -/
def deliver (w : World σ) (stack : List (Frame σ)) (source : SubjectId) (notice : Option Notice) :
    List (Subscriber σ) → Machine σ
  | s :: waiting =>
    ⟨w, .run (s.callback notice) :: .mark (.subscriber source s.id)
      :: .deliver source notice waiting :: stack⟩
  | [] =>
    let s := w.subject source
    match s.begin? with
    | some (n, s) => ⟨w.putSubject source s, .deliver source (some n) s.subscribers :: stack⟩
    | none => ⟨w.putSubject source { s with delivering := false }, stack⟩

/-- Goes on with a write after its delivery: the hook is deferred, and the watchers of the path are
to be called. -/
def react (w : World σ) (stack : List (Frame σ)) (state : StateId) (c : Change) : Machine σ :=
  let b := w.behavior state
  let w := if b.hook?.isSome then w.defer (.hook state c) else w
  ⟨w, .watch state c (b.watchersOf c.path) :: stack⟩

/-- Goes on with the watchers of a write. -/
def watch (w : World σ) (stack : List (Frame σ)) (state : StateId) (c : Change) :
    List (Watcher σ) → Machine σ
  | watcher :: waiting =>
    ⟨w, .run (watcher state c.previous c.current) :: .mark (.watcher state c.path)
      :: .watch state c waiting :: stack⟩
  | [] => ⟨w, stack⟩

/-- The record that the hook of a state is run. -/
def hookRecord (c : Change) : Entry := .record .trace ("running change hook for " ++ c.path.text)

/-- Goes on with a run of the queue: the next task is run, or the number of tasks is the reply. The
hook of a state that is no longer alive does nothing. -/
def drain (w : World σ) (stack : List (Frame σ)) (ran : Nat) (next : Nat → Script σ) : Machine σ :=
  match w.queue with
  | [] => ⟨w, .run (next ran) :: stack⟩
  | task :: queue =>
    let w := { w with queue }
    let stack := .drain (ran + 1) next :: stack
    match task with
    | .script s => ⟨w, .run s :: .mark .task :: stack⟩
    | .hook state c =>
      match (w.behavior state).hook? with
      | some hook =>
        if isAlive w stack state then
          ⟨w.write (hookRecord c), .run (hook state c) :: .mark (.hook state c) :: stack⟩
        else ⟨w, stack⟩
      | none => ⟨w, stack⟩

/-- Goes on with a dispatch: the next listener is called unless it is being called already, or the
number of listeners called is the reply. -/
def dispatch (w : World σ) (stack : List (Frame σ)) (called : Nat) (next : Nat → Script σ) :
    List (Listener σ) → Machine σ
  | l :: waiting =>
    if isCalled stack l.id then ⟨w, .dispatch waiting called next :: stack⟩
    else
      ⟨w, .run l.callback :: .mark (.listener l.id l.owner)
        :: .dispatch waiting (called + 1) next :: stack⟩
  | [] => ⟨w, .run (next called) :: stack⟩

/-- Does the next thing, if there is something to do. -/
def step (m : Machine σ) : Machine σ :=
  match m.stack with
  | [] => m
  | .run script :: stack => perform m.world stack script
  | .mark _ :: stack => ⟨m.world, stack⟩
  | .deliver source notice waiting :: stack => deliver m.world stack source notice waiting
  | .react state c :: stack => react m.world stack state c
  | .watch state c waiting :: stack => watch m.world stack state c waiting
  | .drain ran next :: stack => drain m.world stack ran next
  | .dispatch waiting called next :: stack => dispatch m.world stack called next waiting

/-! ## Runs -/

/-- Takes steps until nothing is left to do, or until `fuel` steps have been taken. -/
def run : (fuel : Nat) → Machine σ → Machine σ
  | 0, m => m
  | fuel + 1, m =>
    match m.stack with
    | [] => m
    | _ :: _ => run fuel m.step

/-- The world after a script, if the script and all that it calls come to an end within `fuel`
steps. -/
def exec? (fuel : Nat) (w : World σ) (script : Script σ) : Option (World σ) :=
  let m := run fuel ⟨w, [.run script]⟩
  match m.stack with
  | [] => some m.world
  | _ :: _ => none

end Machine

end ReactiveMarkup
