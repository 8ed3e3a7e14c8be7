-- SUMMARY: Everything that scripts act on, with the operations that take effect at once.
import ReactiveMarkup.Document.View
import ReactiveMarkup.State

/-!
# Worlds

A `World` is everything that scripts act on: the memory of their client, the log, subjects, states,
the queue of deferred tasks, a document, and the listeners at its nodes. The operations here take
effect at once and call nothing back; what calls back is in `ReactiveMarkup.Machine`.
-/

namespace ReactiveMarkup

/-- What waits in the queue. -/
inductive Task (σ : Type) where
  | script (s : Script σ)
  /-- The hook of a state for a change, which is dropped when the state is no longer alive. -/
  | hook (state : StateId) (change : Change)

/-- A callback for an event at a node. -/
structure Listener (σ : Type) where
  id : ListenerId
  node : NodeId
  event : String
  /-- The state that the callback holds. -/
  owner : Option StateId
  callback : Script σ

/-- Everything that scripts act on. -/
structure World (σ : Type) where
  /-- The memory of the client. -/
  memory : σ
  log : Log := []
  /-- The subjects that belong to no state. -/
  subjects : List (Subject σ) := []
  states : List (State σ) := []
  /-- The deferred tasks, the next one first. -/
  queue : List (Task σ) := []
  document : Document := {}
  /-- The listeners in the order of registration. -/
  listeners : List (Listener σ) := []
  nextListener : ListenerId := 0

namespace World

variable {σ : Type}

/-- Writes a line of the log. -/
def write (w : World σ) (entry : Entry) : World σ := { w with log := w.log ++ [entry] }

/-! ## Subjects -/

/-- Makes a subject that belongs to no state. -/
def newSubject (w : World σ) : Nat × World σ :=
  (w.subjects.length, { w with subjects := w.subjects ++ [{}] })

/-- The subject that a source names. -/
def subject (w : World σ) : SubjectId → Subject σ
  | .own number => w.subjects.getD number {}
  | .state state => (w.states[state]?.map (·.changes)).getD {}

/-- Changes the state with a number. -/
def modifyState (w : World σ) (state : StateId) (f : State σ → State σ) : World σ :=
  { w with states := w.states.modify state f }

/-- Puts a subject in the place of the one that a source names. -/
def putSubject (w : World σ) (source : SubjectId) (s : Subject σ) : World σ :=
  match source with
  | .own number => { w with subjects := w.subjects.set number s }
  | .state state => w.modifyState state fun st => { st with changes := s }

/-- Registers a subscriber, without calling it. The result is the number of the subscription. -/
def register (w : World σ) (source : SubjectId) (callback : Option Notice → Script σ) :
    Nat × World σ :=
  let (id, s) := (w.subject source).register callback
  (id, w.putSubject source s)

/-- Takes a subscriber away. -/
def unsubscribe (w : World σ) (source : SubjectId) (subscription : Nat) : World σ :=
  w.putSubject source ((w.subject source).remove subscription)

/-! ## States -/

/-- Makes a state, which its maker holds. -/
def newState (w : World σ) (data : Value) (behavior : Behavior σ) : StateId × World σ :=
  (w.states.length, { w with states := w.states ++ [{ data, behavior }] })

/-- The tree of a state. -/
def data (w : World σ) (state : StateId) : Value := (w.states[state]?.map (·.data)).getD .null

/-- The behavior of a state. -/
def behavior (w : World σ) (state : StateId) : Behavior σ :=
  (w.states[state]?.map (·.behavior)).getD {}

/-- What can be read of a state. -/
def stateView (w : World σ) (state : StateId) : StateView :=
  ⟨w.data state, (w.subject (.state state)).view⟩

/-- Adds a holder of a state. -/
def retain (w : World σ) (state : StateId) : World σ :=
  w.modifyState state fun s => { s with holders := s.holders + 1 }

/-- Takes a holder of a state away. -/
def release (w : World σ) (state : StateId) : World σ :=
  w.modifyState state fun s => { s with holders := s.holders - 1 }

/-- Whether the state has a holder, or a listener whose callback holds it. -/
def isHeld (w : World σ) (state : StateId) : Bool :=
  (w.states[state]?.map (·.holders)).getD 0 != 0 || w.listeners.any (·.owner == some state)

/-- The record of an effective write. -/
def changeRecord (c : Change) : Entry :=
  .record .trace
    (c.path.text ++ " has been changed from " ++ c.previous.json ++ " to " ++ c.current.json)

/-- Writes a value into the tree of a state. An effective write is logged, and the result holds its
change. -/
def assign (w : World σ) (state : StateId) (path : Path) (v : Value) :
    Except PathError (Option Change) × World σ :=
  match path.write (w.data state) v with
  | .error e => (.error e, w)
  | .ok (tree, change?) =>
    let w := w.modifyState state fun s => { s with data := tree }
    match change? with
    | none => (.ok none, w)
    | some c => (.ok (some c), w.write (changeRecord c))

/-! ## The queue -/

/-- Puts a task at the end of the queue. -/
def defer (w : World σ) (task : Task σ) : World σ := { w with queue := w.queue ++ [task] }

/-! ## The document -/

/-- Performs an edit of the document. -/
def edit (w : World σ) (e : Edit) : Except HostError NodeId × World σ :=
  match w.document.edit e with
  | .error err => (.error err, w)
  | .ok (node, d) => (.ok node, { w with document := d })

/-- Registers a listener at a node. The result is its number. -/
def listen (w : World σ) (node : NodeId) (event : String) (owner : Option StateId)
    (callback : Script σ) : ListenerId × World σ :=
  (w.nextListener,
    { w with
      listeners := w.listeners ++ [⟨w.nextListener, node, event, owner, callback⟩]
      nextListener := w.nextListener + 1 })

/-- Takes a listener away. -/
def unlisten (w : World σ) (id : ListenerId) : World σ :=
  { w with listeners := w.listeners.filter (·.id != id) }

/-- The listeners at a node. -/
def listenersAt (w : World σ) (node : NodeId) : List (Listener σ) :=
  w.listeners.filter (·.node == node)

/-- The listeners that an event at a node is for. -/
def listenersFor (w : World σ) (node : NodeId) (event : String) : List (Listener σ) :=
  (w.listenersAt node).filter (·.event == event)

/-! ## Mounted modules -/

/-- Releases what an instance holds: its subscriptions, its listeners and its state. -/
def releaseInstance (w : World σ) (i : Instance) : World σ :=
  let w := i.subscriptions.foldl (fun w id => w.unsubscribe (.state i.state) id) w
  let w := i.listeners.foldl unlisten w
  w.release i.state

/-- Releases what a list of instances holds. -/
def releaseAll (w : World σ) (instances : List Instance) : World σ :=
  instances.foldl releaseInstance w

/-- Releases everything that a module holds. The nodes stay where they are. -/
def unmount (w : World σ) (m : Module) : World σ :=
  let count := toString m.instances.length
  (w.write (.record .debug ("unmounting " ++ count ++ " component instances"))).releaseAll
    m.instances

end World

end ReactiveMarkup
