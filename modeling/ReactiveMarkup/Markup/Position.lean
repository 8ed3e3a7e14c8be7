-- SUMMARY: Lines and columns for byte offsets.
/-!
# Positions in markup

Offsets count bytes. A `Position` counts lines and, within a line, characters, both from one. The
position of an offset is that of the last character boundary at or before it.
-/

namespace ReactiveMarkup.Markup

/-- The number of bytes that the characters take. -/
def byteLength : List Char → Nat
  | [] => 0
  | c :: cs => c.utf8Size + byteLength cs

@[simp] theorem byteLength_nil : byteLength [] = 0 := rfl

@[simp] theorem byteLength_cons (c : Char) (cs : List Char) :
    byteLength (c :: cs) = c.utf8Size + byteLength cs := rfl

@[simp] theorem byteLength_append (cs ds : List Char) :
    byteLength (cs ++ ds) = byteLength cs + byteLength ds := by
  induction cs with
  | nil => simp
  | cons c cs ih => simp [ih, Nat.add_assoc]

/-- A line and a column, both counted from one. -/
structure Position where
  line : Nat
  column : Nat
deriving DecidableEq

namespace Position

/-- The place of the first character. -/
def start : Position := ⟨1, 1⟩

/-- The place after a character. -/
def next (p : Position) (c : Char) : Position :=
  if c = '\n' then ⟨p.line + 1, 1⟩ else ⟨p.line, p.column + 1⟩

/-- The place reached from `p` by the characters that end within the next `offset` bytes. -/
def advance (p : Position) : (offset : Nat) → List Char → Position
  | _, [] => p
  | offset, c :: cs =>
    if c.utf8Size ≤ offset then advance (p.next c) (offset - c.utf8Size) cs else p

/-- The position of a byte offset in the markup. -/
def ofOffset (markup : List Char) (offset : Nat) : Position := start.advance offset markup

end Position

end ReactiveMarkup.Markup
