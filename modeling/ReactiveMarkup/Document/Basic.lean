-- SUMMARY: The document: nodes in the order of their creation, and the edits that change them.
import ReactiveMarkup.Markup.Node
import ReactiveMarkup.Text.Alphabetic
import ReactiveMarkup.Text.Numeric
import ReactiveMarkup.Value.Text

/-!
# Documents

A `Document` is a store of elements and texts, which are named by the order in which they were made.
It is changed by edits, and it counts those that a renderer makes: creations, appends and writes of
properties. A number that the document never gave out reads as an empty text.

Writing the property `innerText` or `textContent` replaces the children by one new text.
-/

namespace ReactiveMarkup

/-- The number of a node in the order of creation. -/
abbrev NodeId := Nat

/-- What a node is. -/
inductive NodeKind where
  | element (tag : String)
  | text (content : String)
deriving DecidableEq

/-- What a document keeps of a node. -/
structure NodeData where
  kind : NodeKind
  properties : Fields Value := []
  children : List NodeId := []

/-- A store of nodes. -/
structure Document where
  nodes : List NodeData := []
  /-- How many edits have been counted. -/
  mutations : Nat := 0

/-- Why an edit is refused. -/
inductive HostError where
  | invalidName (tag : String)
  | appendToItself
  /-- A text cannot have children appended. -/
  | textParent
deriving DecidableEq

/-- The message of the error. -/
def HostError.message : HostError → String
  | invalidName tag => "invalid element name `" ++ tag ++ "`"
  | appendToItself => "cannot append a node to itself"
  | textParent => "text nodes cannot have children"

/-- A change to a document. -/
inductive Edit where
  /-- Makes an element for others to be mounted into, with any tag, which is not counted. -/
  | mountPoint (tag : String)
  | createElement (tag : String)
  | createText (content : String)
  | append (parent child : NodeId)
  | setProperty (node : NodeId) (name : String) (value : Value)
  /-- Changes the value of an input as typing does, which is not counted. -/
  | setValue (node : NodeId) (text : String)

namespace Document

/-! ## Reading nodes -/

/-- The node with a number. -/
def node (d : Document) (id : NodeId) : NodeData := d.nodes.getD id { kind := .text "" }

/-- The tag of a node, which is `#text` for texts. -/
def tag (d : Document) (id : NodeId) : String :=
  match (d.node id).kind with
  | .element tag => tag
  | .text _ => Markup.textTag

/-- Whether the node is a text. -/
def isText (d : Document) (id : NodeId) : Bool :=
  match (d.node id).kind with
  | .element _ => false
  | .text _ => true

/-- The children of a node. -/
def children (d : Document) (id : NodeId) : List NodeId := (d.node id).children

/-- The value of a property. -/
def property? (d : Document) (id : NodeId) (name : String) : Option Value :=
  Fields.get? (d.node id).properties name

/-- What an input shows: the property `value` as text, or nothing. -/
def inputValue (d : Document) (id : NodeId) : String :=
  match d.property? id "value" with
  | some v => v.text
  | none => ""

/-! ## Edits -/

/-- Whether an element may have the tag: a letter or underscore, and then letters, numbers, hyphens,
underscores, points and colons. -/
def isValidName (tag : String) : Bool :=
  match tag.toList with
  | [] => false
  | c :: cs =>
    (Text.isAlphabetic c || c == '_') &&
      cs.all fun c =>
        Text.isAlphabetic c || Text.isNumeric c || c == '-' || c == '_' || c == '.' || c == ':'

/-- Adds a node. The new node has the returned number. -/
def add (d : Document) (kind : NodeKind) : NodeId × Document :=
  (d.nodes.length, { d with nodes := d.nodes ++ [{ kind }] })

/-- Changes what is kept of a node. -/
def modify (d : Document) (id : NodeId) (f : NodeData → NodeData) : Document :=
  { d with nodes := d.nodes.modify id f }

/-- Counts one edit. -/
def count (d : Document) : Document := { d with mutations := d.mutations + 1 }

/-- Whether writing the property replaces the children of its node. -/
def isContentProperty (name : String) : Bool := name == "innerText" || name == "textContent"

/-- Writes a property of a node. -/
def setProperty (d : Document) (id : NodeId) (name : String) (value : Value) : Document :=
  let d := d.count
  if isContentProperty name then
    let (text, d) := d.add (.text value.text)
    d.modify id fun n => { n with children := [text] }
  else d.modify id fun n => { n with properties := Fields.insert n.properties name value }

/-- Performs an edit. The result is the node made or changed, and the document afterwards; a refused
edit changes nothing. -/
def edit (d : Document) : Edit → Except HostError (NodeId × Document)
  | .mountPoint tag => .ok (d.add (.element tag))
  | .createElement tag =>
    if isValidName tag then .ok (d.count.add (.element tag)) else .error (.invalidName tag)
  | .createText content => .ok (d.count.add (.text content))
  | .append parent child =>
    if parent = child then .error .appendToItself
    else if d.isText parent then .error .textParent
    else .ok (parent, d.count.modify parent fun n => { n with children := n.children ++ [child] })
  | .setProperty id name value => .ok (id, d.setProperty id name value)
  | .setValue id text =>
    .ok (id,
      d.modify id fun n =>
        { n with properties := Fields.insert n.properties "value" (.string text) })

end Document

end ReactiveMarkup
