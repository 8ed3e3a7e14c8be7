-- SUMMARY: States: trees of values with watchers and a hook.
import ReactiveMarkup.Subject

/-!
# States

A `State` is a tree of values whose changes are published. Its `Behavior` says which scripts react:
watchers, which are tied to a path, and a hook for all changes. A state is alive while someone holds
it.
-/

namespace ReactiveMarkup

/-- A script for a state, with the value replaced and the new value. -/
abbrev Watcher (σ : Type) := StateId → Value → Value → Script σ

/-- A script for a state and a change of it. -/
abbrev ChangeHook (σ : Type) := StateId → Change → Script σ

/-- The reactions that states of one kind share. -/
structure Behavior (σ : Type) where
  /-- The watchers with their paths, in the order in which they were added. -/
  watchers : List (Path × Watcher σ) := []
  hook? : Option (ChangeHook σ) := none

namespace Behavior

variable {σ : Type}

instance : Inhabited (Behavior σ) := ⟨{}⟩

/-- Adds a watcher for a path. -/
def watch (b : Behavior σ) (path : Path) (watcher : Watcher σ) : Behavior σ :=
  { b with watchers := b.watchers ++ [(path, watcher)] }

/-- Sets the hook, which replaces an earlier one. -/
def onChanges (b : Behavior σ) (hook : ChangeHook σ) : Behavior σ := { b with hook? := some hook }

/-- The watchers of exactly this path. -/
def watchersOf (b : Behavior σ) (path : Path) : List (Watcher σ) :=
  (b.watchers.filter (·.1 == path)).map (·.2)

theorem watchersOf_eq_nil {b : Behavior σ} (h : b.watchers = []) (path : Path) :
    b.watchersOf path = [] := by
  rw [watchersOf, h]
  rfl

/-- The paths that have a watcher. -/
def watchedPaths (b : Behavior σ) : List Path := (b.watchers.map (·.1)).eraseDups

end Behavior

/-- A tree of values with its subscribers and its behavior. -/
structure State (σ : Type) where
  data : Value
  /-- Where its changes are published. -/
  changes : Subject σ := {}
  behavior : Behavior σ := {}
  /-- How many holders keep the state alive. -/
  holders : Nat := 1

end ReactiveMarkup
