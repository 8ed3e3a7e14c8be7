-- SUMMARY: Components: selector, template, initial tree, methods, watchers and hook.
import ReactiveMarkup.Error
import ReactiveMarkup.Text.LetterCase
import ReactiveMarkup.World

/-!
# Components

A `Component` ties a selector, the tag under which it is used, to a template, a tree of values to
start from, methods for events, watchers and a hook. Selectors are in lower case.

Methods, watchers and hooks end with an outcome. As nobody is there to take an error from them, it
is written to the log.
-/

namespace ReactiveMarkup

/-- How a callback of a component ends: well, or with the message of an error. -/
abbrev Outcome := Except String Unit

/-- The script that runs a program to its outcome and logs an error, saying whose it is. -/
def Outcome.report {σ : Type} (context : String) (p : Program σ Outcome) : Script σ :=
  p fun
    | .ok () => .done
    | .error message => .log (.record .error (context ++ ": " ++ message)) .done

/-- What is registered under a selector. -/
structure Component (σ : Type) where
  selector : String
  template : List Markup.Node
  /-- The tree that the state of every instance starts from: what the factory of the component
  gives. The factory takes no arguments and is taken to be pure, so that it gives every instance the
  same tree. -/
  initial : Value
  /-- What methods do to the state of an instance. -/
  methods : Fields (StateId → Script σ) := []
  behavior : Behavior σ := {}
  selector_lower : Text.lower selector = selector

namespace Component

variable {σ : Type}

/-- The record that a component was made. -/
def madeRecord (selector : String) (nodes : Nat) : Entry :=
  .record .debug
    ("registered <" ++ selector ++ "> with " ++ toString nodes ++ " top-level template nodes")

/-- Makes a component with an empty object to start from, and logs that. -/
def ofMarkup (selector markup : String) (log : Log) : Except Error (Component σ) × Log :=
  let selector' := Text.lower selector
  match Markup.Forest.parse markup with
  | .error e => (.error (.template e), log)
  | .ok template =>
    (.ok { selector := selector', template, initial := .empty, selector_lower :=
      Text.lower_lower selector }, log ++ [madeRecord selector' template.length])

/-- The component with another tree to start from. -/
def withInitial (c : Component σ) (v : Value) : Component σ := { c with initial := v }

/-- The component with a method, which replaces an earlier one of the name. -/
def withMethod (c : Component σ) (name : String) (p : StateId → Program σ Outcome) : Component σ :=
  let context := "<" ++ c.selector ++ "> method `" ++ name ++ "`"
  { c with methods := c.methods.insert name fun state => Outcome.report context (p state) }

/-- The component with one more watcher. -/
def withWatcher (c : Component σ) (path : Path) (p : StateId → Value → Value → Program σ Outcome) :
    Component σ :=
  let context := "<" ++ c.selector ++ "> watcher of `" ++ path.text ++ "`"
  { c with
    behavior := c.behavior.watch path fun state previous current =>
      Outcome.report context (p state previous current) }

/-- The component with a hook, which replaces an earlier one. -/
def withHook (c : Component σ) (p : StateId → Change → Program σ Outcome) : Component σ :=
  let context := "<" ++ c.selector ++ "> change hook"
  { c with behavior := c.behavior.onChanges fun state change =>
    Outcome.report context (p state change) }

/-- What the method of a name does. -/
def method? (c : Component σ) (name : String) : Option (StateId → Script σ) := c.methods.get? name

/-- Makes the state of a new instance. -/
def instantiate (c : Component σ) (w : World σ) : StateId × World σ :=
  w.newState c.initial c.behavior

end Component

/-! ## Trees from keys and values -/

namespace Value

/-- The text that a value becomes as the key of a field. -/
def keyText? : Value → Option String
  | string s => some s
  | integer n => some (integerText n)
  | float x => some x.text
  | bool b => some (boolText b)
  | _ => none

/-- The object with the keys and values given, a later pair winning over an earlier one of the same
key. -/
def ofPairs (pairs : List (Value × Value)) : Except Error Value :=
  let fields := pairs.mapM fun (k, v) => (keyText? k).map (·, v)
  match fields with
  | some fields => .ok (.object (Fields.ofList fields))
  | none => .error (.conversion .keyNotText)

end Value

end ReactiveMarkup
