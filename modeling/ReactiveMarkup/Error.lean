-- SUMMARY: The errors of making and mounting components, with their messages.
import ReactiveMarkup.Document.Basic
import ReactiveMarkup.Markup.Forest
import ReactiveMarkup.Path.Access

/-!
# Errors

What can go wrong when components are made and mounted.
-/

namespace ReactiveMarkup

/-- Why values cannot be made into a tree. -/
inductive ConversionError where
  /-- A key is neither a string nor a number nor a truth value. -/
  | keyNotText
deriving DecidableEq

/-- The message of the error. -/
def ConversionError.message : ConversionError → String
  | keyNotText => "key must be a string"

/-- Why a component cannot be made or mounted. -/
inductive Error where
  /-- No component is registered for the tag of the root. -/
  | unknownRoot (tag : String)
  /-- `bind-model` stands on an element that is no input. -/
  | modelOnNonInput (tag : String)
  | unknownMethod (selector method : String)
  /-- The component is rendered inside itself. -/
  | recursive (selector : String)
  | path (error : PathError)
  | template (error : Markup.ParseError)
  | conversion (error : ConversionError)
  | host (error : HostError)
deriving DecidableEq

/-- The message of the error. -/
def Error.message : Error → String
  | unknownRoot tag => "root element <" ++ tag ++ "> is not a registered component"
  | modelOnNonInput tag =>
    "`bind-model` can only be used on <input> elements, found it on <" ++ tag ++ ">"
  | unknownMethod selector method =>
    "component <" ++ selector ++ "> has no method `" ++ method ++ "`"
  | recursive selector => "component <" ++ selector ++ "> is rendered inside itself"
  | path error => error.message
  | template error => "malformed template: " ++ error.display
  | conversion error => "component state could not be converted: " ++ error.message
  | host error => "host DOM error: " ++ error.message

end ReactiveMarkup
