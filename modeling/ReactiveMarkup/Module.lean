-- SUMMARY: What a mount leaves to its caller, and unmounting it.
import ReactiveMarkup.Document.Basic
import ReactiveMarkup.Text.LetterCase

/-!
# Mounted modules

A `Module` is what is left of a mount: the root it was rendered into and the component instances
with the subscriptions and listeners that keep their bindings alive. It refers to states,
subscriptions and listeners by number, so it can be kept anywhere.
-/

namespace ReactiveMarkup

/-- The number of a state in the order of creation. -/
abbrev StateId := Nat

/-- The number of a listener in the order of registration. -/
abbrev ListenerId := Nat

/-- A mounted instance of a component. -/
structure Instance where
  selector : String
  state : StateId
  /-- The element it was rendered into. -/
  container : NodeId
  /-- The numbers of its subscriptions to the changes of its state. -/
  subscriptions : List Nat
  listeners : List ListenerId
deriving DecidableEq

/-- A mounted tree of components. -/
structure Module where
  root : NodeId
  /-- The selectors of the components that it could use. -/
  selectors : List String
  /-- The instances in document order, that of the root first. -/
  instances : List Instance
deriving DecidableEq

namespace Module

/-- The state of the instance of the root, which rendering creates first. -/
def state? (m : Module) : Option StateId := m.instances.head?.map (·.state)

/-- The instances of the component with the selector. The case of letters does not count. -/
def instancesOf (m : Module) (selector : String) : List Instance :=
  m.instances.filter fun i => Text.sameLetters i.selector selector

end Module

end ReactiveMarkup
