-- SUMMARY: Template nodes and their attributes.
/-!
# Template nodes

A template is a forest of elements and texts. Attributes keep the order in which they were written.
-/

namespace ReactiveMarkup.Markup

/-- A name with a value, as written on an element. -/
structure Attribute where
  name : String
  value : String
deriving DecidableEq

/-- A node of a template. -/
inductive Node where
  | element (tag : String) (attributes : List Attribute) (children : List Node)
  | text (content : String)

/-- The tag that text nodes go by. -/
def textTag : String := "#text"

namespace Node

/-- The tag as written, or `#text`. -/
def tag : Node → String
  | element tag _ _ => tag
  | text _ => textTag

/-- The attributes, of which a text has none. -/
def attributes : Node → List Attribute
  | element _ attributes _ => attributes
  | text _ => []

/-- The children, of which a text has none. -/
def children : Node → List Node
  | element _ _ children => children
  | text _ => []

/-- The text of a text node. -/
def content? : Node → Option String
  | element _ _ _ => none
  | text content => some content

/-- The value of the first attribute with the name. -/
def attribute? (n : Node) (name : String) : Option String :=
  (n.attributes.find? (·.name == name)).map (·.value)

end Node

end ReactiveMarkup.Markup
