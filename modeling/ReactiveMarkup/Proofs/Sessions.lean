-- SUMMARY: Sessions of several scripts and mounts, and who can be called in them.
import ReactiveMarkup.Proofs.Departed
import ReactiveMarkup.Proofs.RenderMoves

/-!
# Sessions

Between two machines lies more than a run: scripts are started, also while others are going on,
components are mounted, and states and subjects are made. `Machine.Session` lists who is called on
the way. However a session goes, callbacks that are not registered are called only if they are in
line, and only as often (`Machine.Session.sublist`).
-/

namespace ReactiveMarkup

variable {σ : Type}

/-! ## Mounts -/

section Mount

open Render

variable {may : NodeId → Prop} {r r' : Rendering σ}

theorem Render.Move.follows (h : Move may r r') : r.world.Follows r'.world := by
  cases h with
  | edit _ _ => exact .document _
  | instantiate c container => exact .newState c.initial c.behavior
  | @subscribe _ place state callback _ => exact World.Follows.register (.state state) callback
  | listen event callback _ _ _ => exact .listen _ event _ callback

theorem Render.Moves.follows (h : Moves may r r') : r.world.Follows r'.world := by
  induction h with
  | refl => exact .refl _
  | tail _ last ih => exact ih.trans last.follows

/-- Rendering into a root consists of moves, however it ends. -/
theorem moves_renderRoot (reg : Registry σ) (root : NodeId) (tag : String) (r : Rendering σ) :
    Moves (fun _ => True) r (reached (World.renderRoot reg root tag) r) := by
  obtain hget | ⟨c, hget⟩ := Option.eq_none_or_eq_some (reg.get? tag)
  · rw [renderRoot_unregistered hget]
    exact .refl
  · rw [renderRoot_registered hget]
    apply moves_bind
    · exact moves_renderComponent fun _ _ => trivial
    · exact fun ids _ _ => moves_appendAll trivial ids

/-- A mount consists of moves from the world before it. A success adds a line to the log, and a
failure releases what was made. -/
theorem moves_mount (w : World σ) (components : List (Component σ)) (root : NodeId) :
    ∃ log r', Moves (fun _ => True) ⟨{ w with log }, []⟩ r' ∧
      ((∃ e, w.mount components root = (.error e, r'.world.releaseAll r'.instances)) ∨
        ∃ md entry, w.mount components root = (.ok md, r'.world.write entry) ∧
        md.instances = r'.instances) := by
  obtain ⟨e, r', hr, hmount⟩ | ⟨r', hr, hmount⟩ := mount_cases w components root
  · exact ⟨_, r', reached_of_error hr ▸ moves_renderRoot _ _ _ _, .inl ⟨e, hmount⟩⟩
  · exact ⟨_, r', reached_of_ok hr ▸ moves_renderRoot _ _ _ _, .inr ⟨_, _, hmount, rfl⟩⟩

theorem World.Follows.mount (w : World σ) (components : List (Component σ)) (root : NodeId) :
    w.Follows (w.mount components root).2 := by
  obtain ⟨log, r', hmoves, ⟨e, hmount⟩ | ⟨md, entry, hmount, -⟩⟩ := moves_mount w components root
  · rw [hmount]
    exact ((World.Follows.log log).trans hmoves.follows).trans (.releaseAll r'.instances)
  · rw [hmount]
    exact ((World.Follows.log log).trans hmoves.follows).trans (.write entry)

end Mount

/-! ## Sessions -/

namespace Machine

/-- What may become of a machine, with the callees whose callbacks are started meanwhile. -/
inductive Session (m : Machine σ) : List Callee → Machine σ → Prop
  | refl : Session m [] m
  | step {called : List Callee} {m' : Machine σ} (h : Session m called m') :
      Session m (called ++ m'.call?.toList) m'.step
  | start {called : List Callee} {m' : Machine σ} (h : Session m called m') (script : Script σ) :
      Session m called ⟨m'.world, .run script :: m'.stack⟩
  | mount {called : List Callee} {m' : Machine σ} (h : Session m called m')
      (components : List (Component σ)) (root : NodeId) :
      Session m called ⟨(m'.world.mount components root).2, m'.stack⟩
  | newState {called : List Callee} {m' : Machine σ} (h : Session m called m') (data : Value)
      (behavior : Behavior σ) : Session m called ⟨(m'.world.newState data behavior).2, m'.stack⟩
  | newSubject {called : List Callee} {m' : Machine σ} (h : Session m called m') :
      Session m called ⟨m'.world.newSubject.2, m'.stack⟩

/-- The callees of the first `n` steps of a machine. -/
def callees : (n : Nat) → Machine σ → List Callee
  | 0, _ => []
  | n + 1, m => m.call?.toList ++ callees n m.step

namespace Session

variable {m m' : Machine σ} {called : List Callee}

/-- A session may end with a run. -/
theorem run (h : Session m called m') (n : Nat) : Session m (called ++ callees n m')
    (run n m') := by
  induction n generalizing called m' with
  | zero => rwa [callees, List.append_nil]
  | succ n ih =>
    rw [run_succ, callees, ← List.append_assoc]
    exact ih h.step

theorem follows (h : Session m called m') : m.world.Follows m'.world := by
  induction h with
  | refl => exact .refl _
  | step _ ih => exact ih.trans (step_follows _)
  | start _ _ ih => exact ih
  | mount _ components root ih => exact ih.trans (.mount _ components root)
  | newState _ data behavior ih => exact ih.trans (.newState data behavior)
  | newSubject _ ih => exact ih.trans .newSubject

variable {g : Callbacks}

/-- Of callbacks that are not registered, those are called that were in line at the beginning, at
most once for every place in it and in its order. -/
theorem sublist [DecidablePred g.Has] (h : Session m called m') (hw : m.world.Without g) :
    ((called ++ m'.line).filter (g.Has ·)).Sublist (m.line.filter (g.Has ·)) := by
  induction h with
  | refl => exact .refl _
  | @step called m' h ih =>
    rw [List.append_assoc, List.filter_append]
    rw [List.filter_append] at ih
    exact (((turn_step m').sublist (hw.follows h.follows)).append_left _).trans ih
  | start _ _ ih => exact ih
  | mount _ _ _ ih => exact ih
  | newState _ _ _ ih => exact ih
  | newSubject _ ih => exact ih

end Session

end Machine

end ReactiveMarkup
