-- SUMMARY: Rendering components into a document, and mounting them at a root.
import ReactiveMarkup.Binding
import ReactiveMarkup.Registry

/-!
# Mounting

`World.mount` renders the component registered for the tag of a root into the root. An element with
the tag of a component becomes a container for a new instance of it; other elements are made with
their attributes read as bindings to the instance that owns the template; texts are copied. A
component that is rendered inside itself is an error, so every template on the way down belongs to
another component, and rendering ends.

The nodes are attached to the root when all of them have been made. When rendering fails, whatever
the instances made so far hold is released.
-/

namespace ReactiveMarkup

/-- Where a rendering has got to. -/
structure Rendering (σ : Type) where
  world : World σ
  /-- The instances made so far, in document order. -/
  instances : List Instance

/-- A part of a rendering, which may fail. What was done before the failure is kept. -/
abbrev Render (σ α : Type) := EStateM Error (Rendering σ) α

namespace Render

variable {σ α : Type}

/-! ## Parts of a rendering -/

/-- The result of an operation on the world. -/
def onWorld (f : World σ → α × World σ) : Render σ α :=
  fun r => let (a, w) := f r.world; .ok a { r with world := w }

/-- Edits the document. -/
def edit (e : Edit) : Render σ NodeId :=
  fun r => match r.world.edit e with
    | (.ok node, w) => .ok node { r with world := w }
    | (.error err, w) => .error (.host err) { r with world := w }

/-- Makes an instance of a component. The result is its place among the instances and its state. The
instance has its place at once, and is filled in there while its template is rendered. Inserting it
at its place when it is complete gives the same list: `instances_renderComponent`. -/
def instantiate (c : Component σ) (container : NodeId) : Render σ (Nat × StateId) :=
  fun r =>
    let (state, w) := c.instantiate r.world
    .ok (r.instances.length, state)
      ⟨w, r.instances ++ [⟨c.selector, state, container, [], []⟩]⟩

/-- Changes the instance at a place. -/
def modifyInstance (place : Nat) (f : Instance → Instance) : Render σ Unit :=
  fun r => .ok () { r with instances := r.instances.modify place f }

/-- Subscribes an instance to the changes of its state. A new state has no change to replay, and for
lack of one the callback does nothing. -/
def subscribe (place : Nat) (state : StateId) (callback : Option Notice → Script σ) :
    Render σ Unit := do
  let id ← onWorld (·.register (.state state) callback)
  modifyInstance place fun i => { i with subscriptions := i.subscriptions ++ [id] }

/-- Has an instance listen for an event at a node. -/
def listen (place : Nat) (state : StateId) (node : NodeId) (event : String) (callback : Script σ) :
    Render σ Unit := do
  let id ← onWorld (·.listen node event (some state) callback)
  modifyInstance place fun i => { i with listeners := i.listeners ++ [id] }

/-! ## Bindings -/

/-- The subscriber that keeps a property in step with a path. -/
def syncScript (element : NodeId) (property : String) (path : Path) : Option Notice → Script σ
  | some (.change c) =>
    match c.valueAt? path with
    | some v => .edit (.setProperty element property v) fun _ => .done
    | none => .done
  | _ => .done

/-- The listener that writes the value of an input to a path. -/
def inputScript (element : NodeId) (state : StateId) (path : Path) : Script σ :=
  .readDocument fun d => .set state path (.string (d.inputValue element)) fun
    | .ok _ => .done
    | .error e =>
      .log (.record .error ("cannot write input value to `" ++ path.text ++ "`: " ++
        e.message)) .done

/-- Sets a property from a path and keeps it in step. -/
def sync (place : Nat) (state : StateId) (element : NodeId) (property : String) (path : Path) :
    Render σ Unit := do
  match path.get ((← get).world.data state) with
  | .error e => throw (.path e)
  | .ok v =>
    let _ ← edit (.setProperty element property v)
    subscribe place state (syncScript element property path)

/-- Carries out what an attribute of an element asks for. -/
def bindAttribute (c : Component σ) (place : Nat) (state : StateId) (tag : String)
    (element : NodeId) : Binding → Render σ Unit
  | .listen event method =>
    match c.method? method with
    | none => throw (.unknownMethod c.selector method)
    | some script => listen place state element event (script state)
  | .model path =>
    if Text.sameLetters tag "input" then do
      sync place state element "value" path
      listen place state element "input" (inputScript element state path)
    else throw (.modelOnNonInput tag)
  | .property property path => sync place state element property path
  | .fixed property value => do
    let _ ← edit (.setProperty element property (.string value))

/-- Carries out what the attributes of an element ask for, in their order. -/
def bindAll (c : Component σ) (place : Nat) (state : StateId) (tag : String) (element : NodeId) :
    List Markup.Attribute → Render σ Unit
  | [] => pure ()
  | a :: rest => do
    bindAttribute c place state tag element (.ofAttribute a)
    bindAll c place state tag element rest

/-- Appends nodes to a parent, in their order. -/
def appendAll (parent : NodeId) : List NodeId → Render σ Unit
  | [] => pure ()
  | child :: rest => do
    let _ ← edit (.append parent child)
    appendAll parent rest

end Render

namespace Registry

variable {σ : Type}

/-! ## Templates -/

/-- The number of components that are not among those being rendered. -/
def unvisited (r : Registry σ) (stack : List String) : Nat :=
  r.components.countP fun c => !stack.contains c.selector

private theorem countP_lt_countP {α : Type} {p q : α → Bool} {l : List α} {a : α}
    (hqp : ∀ x, q x = true → p x = true) (ha : a ∈ l) (hp : p a = true) (hq : q a = false) :
    l.countP q < l.countP p := by
  induction l with
  | nil => simp at ha
  | cons x l ih =>
    have hle : l.countP q ≤ l.countP p := List.countP_mono_left fun x _ => hqp x
    simp only [List.countP_cons]
    rcases List.mem_cons.1 ha with rfl | ha
    · simp only [hp, hq, if_true, Bool.false_eq_true, if_false]
      omega
    · have := ih ha
      by_cases hx : q x = true
      · simp only [hx, hqp x hx, if_true]
        omega
      · simp only [hx, Bool.false_eq_true, if_false]
        omega

/-- Rendering a component leaves fewer components unvisited. -/
theorem unvisited_cons_lt {r : Registry σ} {stack : List String} {c : Component σ}
    (hc : c ∈ r.components) (hs : ¬ stack.contains c.selector = true) :
    r.unvisited (c.selector :: stack) < r.unvisited stack := by
  refine countP_lt_countP (fun d hd => ?_) hc (by simpa using hs) (by simp)
  simp only [List.contains_cons, Bool.not_or, Bool.and_eq_true] at hd
  exact hd.2

mutual

/-- Renders a new instance of a component. The result is the nodes at the top of its template, which
are for the caller to attach to the container. -/
def renderComponent (r : Registry σ) (stack : List String) (c : Component σ)
    (_hc : c ∈ r.components) (container : NodeId) : Render σ (List NodeId) :=
  if _h : stack.contains c.selector = true then throw (.recursive c.selector)
  else do
    let (place, state) ← Render.instantiate c container
    renderNodes r (c.selector :: stack) c place state c.template
termination_by (r.unvisited stack, 0)
decreasing_by exact Prod.Lex.left _ _ (unvisited_cons_lt _hc _h)

/-- Renders a node of a template for the instance at a place. -/
def renderNode (r : Registry σ) (stack : List String) (c : Component σ) (place : Nat)
    (state : StateId) : Markup.Node → Render σ NodeId
  | .text content => Render.edit (.createText content)
  | .element tag attributes children =>
    match h : r.get? tag with
    | some nested => do
      let container ← Render.edit (.createElement tag)
      let nodes ← renderComponent r stack nested (mem_of_get? h) container
      Render.appendAll container nodes
      return container
    | none => do
      let element ← Render.edit (.createElement tag)
      Render.bindAll c place state tag element attributes
      renderChildren r stack c place state element children
      return element
termination_by n => (r.unvisited stack, sizeOf n)

/-- Renders the children of an element, appending each of them. -/
def renderChildren (r : Registry σ) (stack : List String) (c : Component σ) (place : Nat)
    (state : StateId) (element : NodeId) : List Markup.Node → Render σ Unit
  | [] => pure ()
  | n :: rest => do
    let child ← renderNode r stack c place state n
    let _ ← Render.edit (.append element child)
    renderChildren r stack c place state element rest
termination_by ns => (r.unvisited stack, sizeOf ns)

/-- Renders the nodes at the top of a template. -/
def renderNodes (r : Registry σ) (stack : List String) (c : Component σ) (place : Nat)
    (state : StateId) : List Markup.Node → Render σ (List NodeId)
  | [] => pure []
  | n :: rest => do
    let node ← renderNode r stack c place state n
    let nodes ← renderNodes r stack c place state rest
    return node :: nodes
termination_by ns => (r.unvisited stack, sizeOf ns)

end

end Registry

namespace World

variable {σ : Type}

/-- The record that a module was mounted. -/
def mountedRecord (tag : String) (count : Nat) : Entry :=
  .record .debug ("mounted <" ++ tag ++ "> with " ++ toString count ++ " component instances")

/-- Renders the component for the tag of the root and attaches its nodes to the root. -/
def renderRoot (r : Registry σ) (root : NodeId) (tag : String) : Render σ Unit :=
  match h : r.get? tag with
  | none => throw (.unknownRoot tag)
  | some c => do
    let nodes ← r.renderComponent [] c (Registry.mem_of_get? h) root
    Render.appendAll root nodes

/-- Mounts the component for the tag of the root, out of the components given. A failure releases
what the rendering made, and changes neither the root nor any other node that was there before. -/
def mount (w : World σ) (components : List (Component σ)) (root : NodeId) :
    Except Error Module × World σ :=
  let (r, log) := Registry.empty.registerAll components w.log
  let tag := Text.lower (w.document.tag root)
  match renderRoot r root tag ⟨{ w with log }, []⟩ with
  | .error e rendering => (.error e, rendering.world.releaseAll rendering.instances)
  | .ok () rendering =>
    (.ok ⟨root, r.selectors, rendering.instances⟩,
      rendering.world.write (mountedRecord tag rendering.instances.length))

end World

end ReactiveMarkup
