-- SUMMARY: Records of effective writes, the write of a state, and what a change means for a path.
import ReactiveMarkup.Path.Access

/-!
# Changes

A `Change` is the record of an effective write: one after which the place holds another value than
before. `Path.write` is the write as a state performs it, and `Change.valueAt?` says what a change
means for a place that is watched: a value only when the place itself or one on the way to it was
written.
-/

namespace ReactiveMarkup

/-- The record of an effective write. -/
structure Change where
  path : Path
  previous : Value
  current : Value

/-- Writes a value at a path of a tree. The result is the tree afterwards and the change, if the
write is effective. Where the place holds the same value already the tree keeps it, and a field that
was missing is then added as null. -/
def Path.write (p : Path) (root : Value) (v : Value) : Except PathError
    (Value × Option Change) := do
  let slot ← p.slot root
  if slot.content == v then
    return (slot.fill slot.content, none)
  else
    return (slot.fill v, some ⟨p, slot.content, v⟩)

/-- A state refuses the writes that a plain write refuses, for the same reason. -/
theorem Path.write_eq_error_iff {p : Path} {root v : Value} {e : PathError} :
    p.write root v = .error e ↔ p.set root v = .error e := by
  cases hs : p.slot root with
  | error e' => simp [write, set, hs, bind, Except.bind]
  | ok slot => cases hv : slot.content == v <;>
    simp [write, set, hs, hv, bind, Except.bind, pure, Except.pure]

/-- An effective write is recorded with the path and the value written, and with the value that was
at the place. -/
theorem Path.write_effective {p : Path} {root v tree : Value} {c : Change}
    (h : p.write root v = .ok (tree, some c)) :
    ∃ slot, p.slot root = .ok slot ∧ c = ⟨p, slot.content, v⟩ ∧ tree = slot.fill v ∧
      (slot.content == v) = false := by
  unfold Path.write at h
  cases hs : p.slot root with
  | error e =>
    rw [hs] at h
    cases h
  | ok slot =>
    rw [hs] at h
    refine ⟨slot, rfl, ?_⟩
    cases hv : slot.content == v with
    | true => simp [hv, bind, Except.bind, pure, Except.pure] at h
    | false =>
      simp only [bind, Except.bind, pure, Except.pure, hv, Bool.false_eq_true, if_false,
        Except.ok.injEq, Prod.mk.injEq, Option.some.injEq] at h
      exact ⟨h.2.symm, h.1.symm, rfl⟩

/-- The value at `p` after the change, if the change was made at `p` or at a path on the way to it.
It is null when `p` leads nowhere in the value written. -/
def Change.valueAt? (c : Change) (p : Path) : Option Value :=
  match c.path.after? p with
  | none => none
  | some ⟨[]⟩ => some c.current
  | some rest =>
    match rest.get c.current with
    | .ok v => some v
    | .error _ => some .null

end ReactiveMarkup
