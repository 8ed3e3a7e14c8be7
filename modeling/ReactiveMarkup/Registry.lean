-- SUMMARY: Components by selector, looked up without regard to case.
import ReactiveMarkup.Component

/-!
# Registries

A `Registry` holds components by selector. The last registration of a selector wins, and tags are
looked up without regard to the case of their letters.
-/

namespace ReactiveMarkup

/-- Components with different selectors. -/
structure Registry (σ : Type) where
  components : List (Component σ)
  distinct : (components.map (·.selector)).Nodup

namespace Registry

variable {σ : Type}

/-- The registry without components. -/
def empty : Registry σ := ⟨[], by simp⟩

/-- The component for a tag. -/
def get? (r : Registry σ) (tag : String) : Option (Component σ) :=
  r.components.find? (·.selector == Text.lower tag)

/-- Whether there is a component for the tag. -/
def contains (r : Registry σ) (tag : String) : Bool := (r.get? tag).isSome

/-- The selectors of the components. -/
def selectors (r : Registry σ) : List String := r.components.map (·.selector)

/-- The number of components. -/
def size (r : Registry σ) : Nat := r.components.length

/-- The record that a registration replaces an earlier one. -/
def replacedRecord (selector : String) : Entry :=
  .record .warn ("component <" ++ selector ++ "> registered twice, the last registration wins")

/-- The components under other selectors. -/
def others (r : Registry σ) (selector : String) : List (Component σ) :=
  r.components.filter (·.selector != selector)

/-- A component has a selector of its own among those under other selectors. -/
private theorem nodup_others_append (r : Registry σ) (c : Component σ) :
    ((r.others c.selector ++ [c]).map (·.selector)).Nodup := by
  rw [List.map_append, List.nodup_append]
  refine ⟨r.distinct.sublist (List.filter_sublist.map _), by simp, ?_⟩
  intro a ha b hb
  obtain ⟨d, hd, rfl⟩ := List.mem_map.1 ha
  have hne : d.selector ≠ c.selector := by simpa using (List.mem_filter.1 hd).2
  simpa [List.mem_singleton.1 hb] using hne

/-- Registers a component. That it replaces another is logged. -/
def register (r : Registry σ) (c : Component σ) (log : Log) : Registry σ × Log :=
  (⟨r.others c.selector ++ [c], r.nodup_others_append c⟩,
    if r.contains c.selector then log ++ [replacedRecord c.selector] else log)

/-- Registers components one after the other. -/
def registerAll (r : Registry σ) (cs : List (Component σ)) (log : Log) : Registry σ × Log :=
  cs.foldl (fun (r, log) c => r.register c log) (r, log)

theorem mem_of_get? {r : Registry σ} {tag : String} {c : Component σ} (h : r.get? tag = some c) :
    c ∈ r.components :=
  List.mem_of_find?_eq_some h

theorem selector_of_get? {r : Registry σ} {tag : String} {c : Component σ}
    (h : r.get? tag = some c) : c.selector = Text.lower tag := by
  simpa using List.find?_some h

end Registry

end ReactiveMarkup
