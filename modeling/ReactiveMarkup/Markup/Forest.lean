-- SUMMARY: From the events of markup to a forest of template nodes, or an error with its position.
import ReactiveMarkup.Markup.Event
import ReactiveMarkup.Text.Blank

/-!
# Forests from events

`Forest.parse` turns markup into template nodes. Elements that are open are kept with the offsets of
their start tags; an end tag closes the innermost one and hands it to the element around it.
Comments, instructions and document types leave no node, and neither does a blank text outside all
elements. Errors are reported at a position of the markup, the earliest first.
-/

namespace ReactiveMarkup.Markup

/-- Why markup is no template. -/
inductive ParseCause where
  | read (error : ReadError)
  | tag (error : TagError)
  | text (error : EntityError)
  | neverClosed (tag : String)
deriving DecidableEq

/-- The message of the cause. -/
def ParseCause.message : ParseCause → String
  | read error => error.message
  | tag error => error.message
  | text error => error.message
  | neverClosed name => "element <" ++ name ++ "> is never closed"

/-- Why markup is no template, and where. -/
structure ParseError where
  cause : ParseCause
  position : Position
deriving DecidableEq

namespace ParseError

/-- The message without the position. -/
def message (e : ParseError) : String := e.cause.message

/-- The message with the position. -/
def display (e : ParseError) : String :=
  e.message ++ " at " ++ toString e.position.line ++ ":" ++ toString e.position.column

end ParseError

/-- An element whose end has not been read yet. -/
structure OpenElement where
  tag : String
  attributes : List Attribute
  /-- The children read so far. -/
  children : List Node
  /-- Where its start tag begins. -/
  offset : Nat

/-- The nodes read so far. -/
structure Forest where
  /-- The finished nodes outside all open elements. -/
  nodes : List Node
  /-- The open elements, the innermost first. -/
  opened : List OpenElement

namespace Forest

/-- The forest before the first event. -/
def empty : Forest := ⟨[], []⟩

/-- Puts a finished node into the innermost open element, or outside when none is open. -/
def push (f : Forest) (n : Node) : Forest :=
  match f.opened with
  | [] => { f with nodes := f.nodes ++ [n] }
  | parent :: outer =>
    { f with opened := { parent with children := parent.children ++ [n] } :: outer }

/-- Opens an element. -/
def enter (f : Forest) (tag : String) (attributes : List Attribute) (offset : Nat) : Forest :=
  { f with opened := ⟨tag, attributes, [], offset⟩ :: f.opened }

/-- Finishes the innermost open element. -/
def leave (f : Forest) : Forest :=
  match f.opened with
  | [] => f
  | e :: outer => push { f with opened := outer } (.element e.tag e.attributes e.children)

/-- The name of a tag and its attributes. -/
def readTag (t : Tag) : Except ParseCause (String × List Attribute) :=
  match t.attributes with
  | .ok attributes => .ok (String.ofList t.name, attributes)
  | .error e => .error (.tag e)

/-- The forest after one more event, which begins at the offset. -/
def accept (f : Forest) (offset : Nat) (e : Event) : Except ParseCause Forest :=
  match e with
  | .start t => do
    let (tag, attributes) ← readTag t
    return f.enter tag attributes offset
  | .empty t => do
    let (tag, attributes) ← readTag t
    return f.push (.element tag attributes [])
  | .close _ => .ok f.leave
  | .text raw =>
    match Entity.decode raw with
    | .error e => .error (.text e)
    | .ok text =>
      if f.opened.isEmpty && Text.allBlank text then .ok f else .ok (f.push (.text text))
  | .characterData content => .ok (f.push (.text (String.ofList content)))
  | .comment | .instruction | .documentType => .ok f

/-- The forest after the events, or the first cause of an error with the offset of its event. -/
def acceptAll (f : Forest) : List (Nat × Event) → Except (ParseCause × Nat) Forest
  | [] => .ok f
  | (offset, e) :: rest =>
    match f.accept offset e with
    | .ok f => acceptAll f rest
    | .error cause => .error (cause, offset)

/-- The nodes of a stream of events, or the cause of an error with its offset. -/
def ofStream (s : EventStream) : Except (ParseCause × Nat) (List Node) :=
  match empty.acceptAll s.events with
  | .error e => .error e
  | .ok f =>
    match s.failure?, f.opened with
    | some failure, _ => .error (.read failure.error, failure.offset)
    | none, e :: _ => .error (.neverClosed e.tag, e.offset)
    | none, [] => .ok f.nodes

/-- The template nodes that the markup denotes. -/
def parse (markup : String) : Except ParseError (List Node) :=
  match ofStream (EventStream.ofMarkup markup.toList) with
  | .ok nodes => .ok nodes
  | .error (cause, offset) => .error ⟨cause, .ofOffset markup.toList offset⟩

end Forest

end ReactiveMarkup.Markup
