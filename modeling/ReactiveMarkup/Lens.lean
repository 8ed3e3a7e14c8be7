-- SUMMARY: Lenses: nested values of a state, read and written relative to their base.
import ReactiveMarkup.Script

/-!
# Lenses

A `Lens` stands for a nested value of a state: paths below it are relative to its base, and writes
through it are recorded with the whole path. Reading a field gives a lens where the value is an
object or an array, and the value itself otherwise.
-/

namespace ReactiveMarkup

/-- A place below which a state is read and written. -/
structure Lens where
  state : StateId
  /-- The path of the place in the tree of the state. -/
  base : Path

/-- What reading one property gives. -/
inductive Field where
  | nested (lens : Lens)
  | value (v : Value)

namespace Program

variable {σ : Type}

/-- The value at a path of a state. -/
def get (state : StateId) (path : Path) : Program σ (Except PathError Value) := do
  return path.get (← readState state).data

/-- The whole tree of a state. -/
def snapshot (state : StateId) : Program σ Value := do
  return (← readState state).data

/-- The property at a path of a state, with objects and arrays as lenses. -/
def field (state : StateId) (path : Path) : Program σ (Except PathError Field) := do
  match ← get state path with
  | .error e => return .error e
  | .ok v => return .ok (if v.isNested then .nested ⟨state, path⟩ else .value v)

/-- The lens for the object or array at a path of a state. -/
def lensAt (state : StateId) (path : Path) : Program σ (Except PathError Lens) := do
  match ← field state path with
  | .error e => return .error e
  | .ok (.nested lens) => return .ok lens
  | .ok (.value _) => return .error (.notAnObject path.parent path.lastSegment)

/-- Writes at a path of a state what `f` makes of the value there. -/
def modify (state : StateId) (path : Path) (f : Value → Value) : Program σ
    (Except PathError Bool) := do
  match ← get state path with
  | .error e => return .error e
  | .ok v => set state path (f v)

end Program

namespace Lens

variable {σ : Type}

/-- The value at a path below the lens. -/
def get (l : Lens) (path : Path) : Program σ (Except PathError Value) :=
  Program.get l.state (l.base ++ path)

/-- The property at a path below the lens. -/
def field (l : Lens) (path : Path) : Program σ (Except PathError Field) :=
  Program.field l.state (l.base ++ path)

/-- The lens for the object or array at a path below the lens. -/
def lensAt (l : Lens) (path : Path) : Program σ (Except PathError Lens) :=
  Program.lensAt l.state (l.base ++ path)

/-- Writes a value at a path below the lens. -/
def set (l : Lens) (path : Path) (v : Value) : Program σ (Except PathError Bool) :=
  Program.set l.state (l.base ++ path) v

/-- Writes at a path below the lens what `f` makes of the value there. -/
def modify (l : Lens) (path : Path) (f : Value → Value) : Program σ (Except PathError Bool) :=
  Program.modify l.state (l.base ++ path) f

/-- The value that the lens stands for, or null when it is no longer there. -/
def snapshot (l : Lens) : Program σ Value := do
  match ← Program.get l.state l.base with
  | .ok v => return v
  | .error _ => return .null

end Lens

namespace Field

variable {σ : Type}

/-- The lens of a nested property. -/
def lens? : Field → Option Lens
  | nested lens => some lens
  | value _ => none

/-- The value of the property, which is read where it is nested. -/
def toValue : Field → Program σ Value
  | nested lens => lens.snapshot
  | value v => pure v

end Field

end ReactiveMarkup
