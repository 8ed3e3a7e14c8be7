-- SUMMARY: Scripts: the operations that a callback may perform, one after the other.
import ReactiveMarkup.Change
import ReactiveMarkup.Log
import ReactiveMarkup.Module

/-!
# Scripts

Methods, watchers, hooks, subscribers, listeners and tasks are scripts: programs made of the
operations that a callback may perform, each with the script that follows. Where an operation has a
reply, what follows is a function of it. Scripts read and write a memory of type `σ` that belongs to
their client; what they read of everything else holds no scripts.

`Program σ α` is a script that lacks its end: given what follows the result, it is a script.
Programs are a monad, so that scripts can be written in sequence.
-/

namespace ReactiveMarkup

/-- A source of notices: a subject of its own, or the changes of a state. -/
inductive SubjectId where
  | own (number : Nat)
  | state (state : StateId)
deriving DecidableEq

/-- What a subject passes on to its subscribers. -/
inductive Notice where
  | value (v : Value)
  | change (c : Change)

/-- What can be read of a subject. -/
structure SubjectView where
  /-- The notice emitted last. -/
  latest : Option Notice
  /-- The number of subscribers. -/
  subscribers : Nat

/-- What can be read of a state. -/
structure StateView where
  /-- The whole tree. -/
  data : Value
  /-- Its changes as a subject. -/
  changes : SubjectView

/-- A callback as data. -/
inductive Script (σ : Type) where
  | done
  /-- Writes a line of the log. -/
  | log (entry : Entry) (next : Script σ)
  /-- Reads the memory of the client. -/
  | readMemory (next : σ → Script σ)
  /-- Writes the memory of the client. -/
  | writeMemory (memory : σ) (next : Script σ)
  /-- Reads a state. -/
  | readState (state : StateId) (next : StateView → Script σ)
  /-- Writes a value at a path of a state. The reply says whether the write was effective. -/
  | set (state : StateId) (path : Path) (value : Value) (next : Except PathError Bool → Script σ)
  /-- Keeps a state alive until a matching release. -/
  | retain (state : StateId) (next : Script σ)
  | release (state : StateId) (next : Script σ)
  /-- Reads a subject. -/
  | readSubject (source : SubjectId) (next : SubjectView → Script σ)
  /-- Registers a subscriber, which is called at once with the latest notice. The reply is the
  number of the subscription. -/
  | subscribe (source : SubjectId) (callback : Option Notice → Script σ) (next : Nat → Script σ)
  | unsubscribe (source : SubjectId) (subscription : Nat) (next : Script σ)
  /-- Emits a value from a subject of its own. -/
  | emit (subject : Nat) (value : Value) (next : Script σ)
  /-- Puts a task at the end of the queue. -/
  | defer (task : Script σ) (next : Script σ)
  /-- Runs tasks until the queue is empty. The reply is the number of tasks run. -/
  | runPending (next : Nat → Script σ)
  /-- Reads the number of tasks in the queue. -/
  | pending (next : Nat → Script σ)
  /-- Reads the document. -/
  | readDocument (next : Document → Script σ)
  /-- Changes the document. The reply is the node made or changed. -/
  | edit (e : Edit) (next : Except HostError NodeId → Script σ)
  /-- Has the callback called for every event of the name at the node. -/
  | listen (node : NodeId) (event : String) (callback : Script σ) (next : ListenerId → Script σ)
  | unlisten (listener : ListenerId) (next : Script σ)
  /-- Reads the number of listeners at a node. -/
  | listeners (node : NodeId) (next : Nat → Script σ)
  /-- Calls the listeners for an event at a node. The reply is the number of listeners called. -/
  | dispatch (node : NodeId) (event : String) (next : Nat → Script σ)
  /-- Releases everything that a mounted module holds. -/
  | unmount (module : Module) (next : Script σ)

instance {σ : Type} : Inhabited (Script σ) := ⟨.done⟩

/-- A script that goes on with a result of type `α`. -/
def Program (σ α : Type) : Type := (α → Script σ) → Script σ

namespace Program

variable {σ α : Type}

instance : Monad (Program σ) where
  pure a := fun next => next a
  bind x f := fun next => x fun a => f a next

instance : Inhabited (Program σ α) := ⟨fun _ => .done⟩

/-- The script that ends with the program. -/
def toScript (x : Program σ α) : Script σ := x fun _ => .done

/-! ## Single operations -/

def log (entry : Entry) : Program σ Unit := fun next => Script.log entry (next ())

def readMemory : Program σ σ := Script.readMemory

def writeMemory (memory : σ) : Program σ Unit := fun next => Script.writeMemory memory (next ())

/-- Changes the memory of the client. -/
def update (f : σ → σ) : Program σ Unit := do
  writeMemory (f (← readMemory))

def readState (state : StateId) : Program σ StateView := Script.readState state

def set (state : StateId) (path : Path) (value : Value) : Program σ (Except PathError Bool) :=
  Script.set state path value

def retain (state : StateId) : Program σ Unit := fun next => Script.retain state (next ())

def release (state : StateId) : Program σ Unit := fun next => Script.release state (next ())

def readSubject (source : SubjectId) : Program σ SubjectView := Script.readSubject source

def subscribe (source : SubjectId) (callback : Option Notice → Script σ) : Program σ Nat :=
  Script.subscribe source callback

def unsubscribe (source : SubjectId) (subscription : Nat) : Program σ Unit :=
  fun next => Script.unsubscribe source subscription (next ())

def emit (subject : Nat) (value : Value) : Program σ Unit :=
  fun next => Script.emit subject value (next ())

def defer (task : Script σ) : Program σ Unit := fun next => Script.defer task (next ())

def runPending : Program σ Nat := Script.runPending

def pending : Program σ Nat := Script.pending

def readDocument : Program σ Document := Script.readDocument

def edit (e : Edit) : Program σ (Except HostError NodeId) := Script.edit e

def listen (node : NodeId) (event : String) (callback : Script σ) : Program σ ListenerId :=
  Script.listen node event callback

def unlisten (listener : ListenerId) : Program σ Unit :=
  fun next => Script.unlisten listener (next ())

def listeners (node : NodeId) : Program σ Nat := Script.listeners node

def dispatch (node : NodeId) (event : String) : Program σ Nat := Script.dispatch node event

def unmount (module : Module) : Program σ Unit := fun next => Script.unmount module (next ())

end Program

end ReactiveMarkup
