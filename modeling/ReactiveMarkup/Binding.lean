-- SUMMARY: What the attributes of a template bind: listeners, models, properties, fixed texts.
import ReactiveMarkup.Markup.Node
import ReactiveMarkup.Path.Basic
import ReactiveMarkup.Text.Blank

/-!
# Bindings

The attributes of a template element bind the element to the state that owns the template:
`on-click="inc()"` calls a method, `bind-model="name"` ties the value of an input to a path,
`bind-hidden="flag"` keeps a property in step with a path, and any other attribute is a property
with a fixed text.
-/

namespace ReactiveMarkup

/-- What an attribute of a template asks for. -/
inductive Binding where
  /-- Call the method on every event. -/
  | listen (event : String) (method : String)
  /-- Keep the value of an input and the value at the path equal, both ways. -/
  | model (path : Path)
  /-- Keep the property equal to the value at the path. -/
  | property (property : String) (path : Path)
  /-- Give the property a fixed text. -/
  | fixed (property : String) (value : String)
deriving DecidableEq

namespace Binding

/-- What follows `start` at the beginning of the text. -/
def after? (start s : String) : Option String :=
  if start.toList.isPrefixOf s.toList then some
    (String.ofList (s.toList.drop start.length)) else none

/-- The name in a call such as `greet('you')`, whose arguments do not count. -/
def methodName (call : String) : String :=
  Text.trim (String.ofList (call.toList.takeWhile (· != '(')))

/-- The property that an attribute name stands for. -/
def propertyName (name : String) : String := if name = "class" then "className" else name

/-- What the attribute asks for. -/
def ofAttribute (a : Markup.Attribute) : Binding :=
  match after? "on-" a.name with
  | some event => listen event (methodName a.value)
  | none =>
    if a.name = "bind-model" then model (.ofString (Text.trim a.value))
    else match after? "bind-" a.name with
      | some name => property name (.ofString (Text.trim a.value))
      | none => fixed (propertyName a.name) a.value

end Binding

end ReactiveMarkup
