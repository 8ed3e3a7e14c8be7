-- SUMMARY: Reading and writing the value at a path, with the errors of both.
import ReactiveMarkup.Path.Basic
import ReactiveMarkup.Value.Basic

/-!
# Reading and writing at a path

A segment names a field of an object or, as a decimal number, an item of an array. `Path.get` reads
the value at a path. `Path.slot` finds the place that a write goes to: the way there must exist, but
the last segment may name a field that its object does not have yet, which then counts as null. A
`Slot` is a place together with the tree around it, so a write is `Slot.fill`.
-/

namespace ReactiveMarkup

/-- Why a path does not lead to a place. -/
inductive PathError where
  /-- The path has no segments or an empty one. -/
  | emptySegment (path : Path)
  /-- The value at `parent` has no children, so `segment` cannot be looked up. -/
  | notAnObject (parent : Path) (segment : String)
  /-- The container on the way has no such child. -/
  | missing (path : Path)
deriving DecidableEq

namespace PathError

/-- The message of the error. The blank path is called the root. -/
def message : PathError → String
  | emptySegment path => "empty segment in property path `" ++ path.text ++ "`"
  | notAnObject parent segment =>
    let parentText := if parent.segments.isEmpty then "<root>" else parent.text
    "cannot read `" ++ segment ++ "` of `" ++ parentText ++ "`: not an object"
  | missing path => "property `" ++ path.text ++ "` does not exist"

end PathError

namespace Value

/-! ## Children -/

/-- The array index that a segment spells: ASCII digits, after one plus sign at most, for a number
that fits into 64 bits. -/
def index? (segment : String) : Option Nat :=
  let digits := match segment.toList with
    | '+' :: rest => rest
    | cs => cs
  if digits.isEmpty || !digits.all Char.isDigit then none
  else
    let n := digits.foldl (fun n d => n * 10 + (d.toNat - 48)) 0
    if n < UInt64.size then some n else none

/-- The child that a segment names. -/
def child? (v : Value) (segment : String) : Option Value :=
  match v with
  | object fields => Fields.get? fields segment
  | array items => (index? segment).bind (items[·]?)
  | _ => none

/-- The value with another child under a segment. A field is added when it is new, an item is
not. -/
def putChild (v : Value) (segment : String) (w : Value) : Value :=
  match v with
  | object fields => object (Fields.insert fields segment w)
  | array items =>
    match index? segment with
    | some i => array (items.set i w)
    | none => v
  | _ => v

end Value

/-- A place in a tree. -/
structure Slot where
  /-- The value at the place. -/
  content : Value
  /-- The tree when the place holds another value. -/
  fill : Value → Value

namespace Path

/-! ## Reading -/

/-- The value along `segments` below a value that was reached along `route`. -/
def getAlong (route : Path) : List String → Value → Except PathError Value
  | [], v => .ok v
  | segment :: rest, v =>
    if v.isNested then
      match v.child? segment with
      | some w => getAlong (route.push segment) rest w
      | none => .error (.missing (route.push segment))
    else .error (.notAnObject route segment)

/-- The value at a path. -/
def get (p : Path) (root : Value) : Except PathError Value :=
  if p.isProper then getAlong blank p.segments root else .error (.emptySegment p)

/-! ## Writing -/

/-- The place that the last segment of a path names in the container on the way to it. -/
def lastSlot (route : Path) (segment : String) (v : Value) : Except PathError Slot :=
  match v with
  | .object fields =>
    .ok ⟨(Fields.get? fields segment).getD .null, fun w => v.putChild segment w⟩
  | .array _ =>
    match v.child? segment with
    | some w => .ok ⟨w, fun w => v.putChild segment w⟩
    | none => .error (.missing (route.push segment))
  | _ => .error (.notAnObject route segment)

/-- The place along `segments` below a value that was reached along `route`. -/
def slotAlong (route : Path) : List String → Value → Except PathError Slot
  | [], v => .ok ⟨v, id⟩
  | [segment], v => lastSlot route segment v
  | segment :: next :: rest, v =>
    if v.isNested then
      match v.child? segment with
      | some w => do
        let slot ← slotAlong (route.push segment) (next :: rest) w
        return ⟨slot.content, fun x => v.putChild segment (slot.fill x)⟩
      | none => .error (.missing (route.push segment))
    else .error (.notAnObject route segment)

/-- The place that a path names for a write. -/
def slot (p : Path) (root : Value) : Except PathError Slot :=
  if p.isProper then slotAlong blank p.segments root else .error (.emptySegment p)

/-- Writes a value at a path. The result is the value that was there and the tree afterwards. -/
def set (p : Path) (root : Value) (v : Value) : Except PathError (Value × Value) := do
  let slot ← p.slot root
  return (slot.content, slot.fill v)

end Path

end ReactiveMarkup
