-- SUMMARY: What nodes read as: text, the nodes with a tag, and HTML.
import ReactiveMarkup.Document.Basic
import ReactiveMarkup.Text.LetterCase

/-!
# Views of a document

What a node and everything below it read as: their text, the nodes with a tag, and HTML. The
children of a node are visited in order, and no way down a document of `n` nodes without cycles is
longer than `n` nodes, which bounds the depth of a visit.
-/

namespace ReactiveMarkup.Document

/-- How deep a visit goes. -/
def depth (d : Document) : Nat := d.nodes.length + 1

/-! ## Text -/

/-- The texts at and below a node, down to a depth. -/
def textWithin (d : Document) : Nat → NodeId → String
  | 0, _ => ""
  | depth + 1, id =>
    match (d.node id).kind with
    | .text content => content
    | .element _ => String.join ((d.children id).map (textWithin d depth))

/-- The texts at and below a node, one after the other. -/
def textContent (d : Document) (id : NodeId) : String := d.textWithin d.depth id

/-! ## Search -/

/-- A node and those below it in document order, down to a depth. -/
def nodesWithin (d : Document) : Nat → NodeId → List NodeId
  | 0, _ => []
  | depth + 1, id => id :: (d.children id).flatMap (nodesWithin d depth)

/-- The nodes with the tag at and below a node, in document order. The case of letters does not
count. -/
def findAll (d : Document) (id : NodeId) (tag : String) : List NodeId :=
  (d.nodesWithin d.depth id).filter fun n => Text.sameLetters (d.tag n) tag

/-- The first node with the tag at or below a node. -/
def find? (d : Document) (id : NodeId) (tag : String) : Option NodeId := (d.findAll id tag).head?

/-! ## HTML -/

/-- The character as it stands in HTML. -/
def escapeChar (c : Char) : List Char :=
  if c = '&' then ['&', 'a', 'm', 'p', ';']
  else if c = '<' then ['&', 'l', 't', ';']
  else if c = '>' then ['&', 'g', 't', ';']
  else if c = '"' then ['&', 'q', 'u', 'o', 't', ';']
  else [c]

/-- The text as it stands in HTML. -/
def escape (s : String) : String := String.ofList (s.toList.flatMap escapeChar)

/-- The name under which a property is written. -/
def attributeName (property : String) : String :=
  if property = "className" then "class" else property

/-- A property as an attribute, behind a space. Null and false are not written, and true is written
as the bare name. -/
def attributeHtml (property : String) : Value → String
  | .null | .bool false => ""
  | .bool true => " " ++ attributeName property
  | v => " " ++ attributeName property ++ "=\"" ++ escape v.text ++ "\""

/-- The HTML of a node, down to a depth. -/
def htmlWithin (d : Document) : Nat → NodeId → String
  | 0, _ => ""
  | depth + 1, id =>
    match (d.node id).kind with
    | .text content => escape content
    | .element tag =>
      "<" ++ tag ++ String.join ((d.node id).properties.map fun p => attributeHtml p.1 p.2) ++ ">"
        ++ String.join ((d.children id).map (htmlWithin d depth)) ++ "</" ++ tag ++ ">"

/-- The HTML of a node and those below it, with the properties in the order of their names. -/
def html (d : Document) (id : NodeId) : String := d.htmlWithin d.depth id

end ReactiveMarkup.Document
