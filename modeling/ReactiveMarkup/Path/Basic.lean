-- SUMMARY: Dotted paths as lists of segments.
/-!
# Dotted paths

A `Path` names a place in a tree of values by the segments on the way to it, as in `user.name` or
`items.0`. The blank text is the path without segments. Two points in a row, or a point at an end of
the text, make an empty segment, which no place has.
-/

namespace ReactiveMarkup

/-- The segments on the way from the root of a tree to a place in it. -/
@[ext] structure Path where
  segments : List String
deriving DecidableEq, Inhabited

namespace Path

/-- The path without segments. -/
def blank : Path := ⟨[]⟩

/-- The parts of a text between its points. -/
def splitPoints : List Char → List (List Char)
  | [] => [[]]
  | c :: cs =>
    if c = '.' then [] :: splitPoints cs
    else match splitPoints cs with
      | [] => [[c]]
      | part :: parts => (c :: part) :: parts

/-- The path that a text spells. -/
def ofString (s : String) : Path :=
  if s.isEmpty then blank else ⟨(splitPoints s.toList).map String.ofList⟩

/-- The segments with points between them. -/
def joinPoints : List String → String
  | [] => ""
  | [s] => s
  | s :: t :: rest => s ++ "." ++ joinPoints (t :: rest)

/-- The text of the path. -/
def text (p : Path) : String := joinPoints p.segments

/-- The path that goes on from `p` along `q`. -/
def append (p q : Path) : Path := ⟨p.segments ++ q.segments⟩

instance : Append Path := ⟨append⟩

/-- The path with one more segment. -/
def push (p : Path) (segment : String) : Path := ⟨p.segments ++ [segment]⟩

/-- What is left of `segments` behind `base`, if they begin with it. -/
def segmentsAfter : (base segments : List String) → Option (List String)
  | [], segments => some segments
  | b :: base, s :: segments => if b = s then segmentsAfter base segments else none
  | _ :: _, [] => none

/-- The path that leads on from `base` to `p`, if `base` lies on the way to `p`. -/
def after? (base p : Path) : Option Path := (segmentsAfter base.segments p.segments).map Path.mk

/-- The path without its last segment. -/
def parent (p : Path) : Path := ⟨p.segments.dropLast⟩

/-- The last segment, or the empty text of the blank path. -/
def lastSegment (p : Path) : String := p.segments.getLast?.getD ""

/-- Whether the path can name a place: it has segments, and none of them is empty. -/
def isProper (p : Path) : Bool := !p.segments.isEmpty && !p.segments.contains ""

@[simp] theorem segments_append (p q : Path) : (p ++ q).segments = p.segments ++ q.segments := rfl

@[simp] theorem blank_append (p : Path) : blank ++ p = p := rfl

@[simp] theorem append_blank (p : Path) : p ++ blank = p :=
  Path.ext (List.append_nil p.segments)

theorem segmentsAfter_eq_some_iff {base segments rest : List String} :
    segmentsAfter base segments = some rest ↔ segments = base ++ rest := by
  induction base generalizing segments with
  | nil => simp [segmentsAfter, eq_comm]
  | cons b base ih =>
    cases segments with
    | nil => simp [segmentsAfter]
    | cons s segments =>
      by_cases h : b = s
      · simp [segmentsAfter, h, ih]
      · simp [segmentsAfter, h, Ne.symm h]

/-- One path leads on from another exactly when it continues it. -/
theorem after?_eq_some_iff {base p rest : Path} : base.after? p = some rest ↔ p = base ++ rest := by
  constructor
  · intro h
    obtain ⟨segments, hs, rfl⟩ := Option.map_eq_some_iff.1 h
    exact Path.ext (segmentsAfter_eq_some_iff.1 hs)
  · intro h
    exact Option.map_eq_some_iff.2
      ⟨rest.segments, segmentsAfter_eq_some_iff.2 (congrArg Path.segments h), rfl⟩

end Path

end ReactiveMarkup
