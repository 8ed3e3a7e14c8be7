-- SUMMARY: What a path reads during a run, from the changes of the state alone.
import ReactiveMarkup.Proofs.Paths
import ReactiveMarkup.Proofs.Writes

/-!
# What a path reads during a run

The tree of a state changes by writes alone, so what a path reads is what it read at the start,
brought up to date by the changes of the state, as long as no write goes below the place that the
path names.
-/

namespace ReactiveMarkup

variable {σ : Type}

/-- What a path reads after a change, given what it read before. -/
def Change.reads (p : Path) (v : Value) (c : Change) : Value := (c.valueAt? p).getD v

/-- The paths of all successful writes, effective or not. -/
def written (t : List (StateEvent σ)) : List Path :=
  t.filterMap fun
    | .wrote path _ => some path
    | _ => none

/-- On the way to another world the tree of a state is left, or it is written once, and the events
say so. -/
def WritesAtMostOnce (state : StateId) (w : World σ) (events : List (Event σ))
    (w' : World σ) : Prop :=
  (w'.data state = w.data state ∧ effective (Machine.atState state events) = []) ∨
    ∃ path v tree change?, path.write (w.data state) v = .ok (tree, change?) ∧
      w'.data state = tree ∧ Machine.atState state events = [.wrote path change?]

namespace Machine

variable {state : StateId}

/-- An event at some state that is not a write is no effective write. -/
private theorem effective_of_unmade {other : StateId} {e : StateEvent σ}
    (he : e.effective? = none) : effective (atState state [.state other e]) = [] := by
  by_cases ho : other = state <;> simp [ho, atState, Event.atState?, effective, he]

private theorem writesAtMostOnce_set {w : World σ} (hlt : state < w.states.length)
    (stack : List (Frame σ))
    (other : StateId) (path : Path) (v : Value) (next : Except PathError Bool → Script σ) :
    WritesAtMostOnce state w (scriptEvents w (.set other path v next))
      (perform w stack (.set other path v next)).world := by
  -- The delivery that may begin with a change does not touch the tree.
  have hdata (w' : World σ) (stack' : List (Frame σ)) (n : Notice) :
      (emit w' stack' (.state other) n).world.data state = w'.data state := by
    obtain ⟨s, h | h⟩ := emit_cases w' stack' (.state other) n <;> simp [h]
  obtain ⟨e, hr⟩ | ⟨tree, hwrite, hr⟩ | ⟨tree, c, hwrite, hr⟩ := w.assign_cases other path v
  · rw [perform_set_refused hr, scriptEvents_set_refused hr]
    exact .inl ⟨rfl, rfl⟩
  · rw [perform_set_silent hr, scriptEvents_set_silent hr]
    by_cases ho : other = state
    · subst ho
      exact .inr ⟨path, v, tree, none, hwrite, World.data_modifyState_self hlt tree,
        by simp [atState, Event.atState?]⟩
    · have hkeep := World.data_assign_of_ne (w := w) (Ne.symm ho) path v
      rw [hr] at hkeep
      exact .inl ⟨hkeep, by simp [ho, atState, Event.atState?, effective]⟩
  · rw [perform_set_effective hr, scriptEvents_set_effective hr]
    by_cases ho : other = state
    · subst ho
      refine .inr ⟨path, v, tree, some c, hwrite, ?_, by simp [atState, Event.atState?]⟩
      rw [hdata, World.data_write]
      exact World.data_modifyState_self hlt tree
    · have hkeep := World.data_assign_of_ne (w := w) (Ne.symm ho) path v
      rw [hr] at hkeep
      exact .inl ⟨by rw [hdata]; exact hkeep, by simp [ho, atState, Event.atState?, effective]⟩

private theorem writesAtMostOnce_perform {w : World σ} (hlt : state < w.states.length)
    (stack : List (Frame σ)) (script : Script σ) :
    WritesAtMostOnce state w (scriptEvents w script) (perform w stack script).world := by
  cases script with
  | set other path v next => exact writesAtMostOnce_set hlt stack other path v next
  | emit number v next =>
    refine .inl ⟨?_, rfl⟩
    obtain ⟨s, h | h⟩ := emit_cases w (.run next :: stack) (.own number) (.value v) <;>
      simp [perform, h]
  | unmount md next =>
    refine .inl ⟨by simp [perform], ?_⟩
    have hnone : atState state (scriptEvents w (.unmount md next)) = [] := by
      refine List.filterMap_eq_nil_iff.2 fun e he => ?_
      obtain ⟨i, _, hi⟩ := List.mem_flatMap.1 he
      obtain ⟨id, _, rfl⟩ := List.mem_map.1 hi
      rfl
    rw [hnone]
    rfl
  | done | log _ _ | readMemory _ | writeMemory _ _ | readState _ _ | retain _ _ | release _ _
  | readSubject _ _ | runPending _ | pending _ | readDocument _ | edit _ _ | listen _ _ _ _
  | unlisten _ _ | listeners _ _ | dispatch _ _ _ | defer _ _ | subscribe _ _ _
  | unsubscribe _ _ _ => exact .inl ⟨by simp [perform], rfl⟩

/-- A step writes the tree of a state once and says so, or leaves it. -/
theorem data_step (m : Machine σ) (h : m.world.HasSource (.state state)) :
    WritesAtMostOnce state m.world m.events m.step.world := by
  obtain ⟨w, stack⟩ := m
  match stack with
  | [] | .dispatch [] _ _ :: _ | .deliver _ _ (_ :: _) :: _ => exact .inl ⟨rfl, rfl⟩
  | .mark callee :: stack =>
    obtain ⟨_, he⟩ | ⟨source, id, _, _, _, _, _, he⟩ := events_mark w callee stack <;>
      exact .inl ⟨rfl, by rw [he]; rfl⟩
  | .deliver source notice [] :: stack =>
    have hstep : step ⟨w, .deliver source notice [] :: stack⟩ =
      deliver w stack source notice [] := rfl
    obtain ⟨n, rest, s, _, _, hd, he⟩ | ⟨_, hd, he⟩ := deliver_nil_cases w stack source notice <;>
      exact .inl ⟨by rw [hstep, hd]; simp, by rw [he]; rfl⟩
  | .react other c :: stack =>
    cases hh : (w.behavior other).hook?.isSome with
    | true =>
      refine .inl ⟨by simp [step, react, hh], ?_⟩
      simp only [events, hh, if_true]
      exact effective_of_unmade rfl
    | false => exact .inl ⟨by simp [step, react, hh], by simp [events, hh, atState, effective]⟩
  | .watch other c [] :: stack | .watch other c (watcher :: waiting) :: stack =>
    exact .inl ⟨rfl, effective_of_unmade rfl⟩
  | .dispatch (l :: waiting) called next :: stack =>
    cases hc : isCalled stack l.id <;> exact .inl ⟨by simp [step, dispatch, hc], rfl⟩
  | .drain ran next :: stack =>
    have hstep : step ⟨w, .drain ran next :: stack⟩ = drain w stack ran next := rfl
    obtain ⟨_, hd, he⟩ | ⟨_, _, _, hd, he⟩ | ⟨other, c, _, _, _, _, _, hd, he⟩ |
      ⟨other, c, _, _, _, hd, he⟩ := drain_cases w stack ran next <;> rw [hstep, hd, he]
    · exact .inl ⟨rfl, rfl⟩
    · exact .inl ⟨rfl, rfl⟩
    · exact .inl ⟨rfl, effective_of_unmade rfl⟩
    · exact .inl ⟨rfl, effective_of_unmade rfl⟩
  | .run script :: stack => exact writesAtMostOnce_perform h stack script

/-- What a path reads is what it read at the start, brought up to date by the changes of the
state. -/
theorem valueOrNull_run {w : World σ} {state : StateId} (script : Script σ) {p : Path}
    (hproper : p.isProper = true) (hp : p.isPlain = true)
    (hnamed : ∀ k, (run k ⟨w, [.run script]⟩).world.HasSource (.state state)) (n : Nat)
    (hwritten : ∀ q ∈ written (atState state (trace n ⟨w, [.run script]⟩)),
      q.isPlain = true ∧ p.isAbove q = false) :
    p.valueOrNull ((run n ⟨w, [.run script]⟩).world.data state) =
      (effective (atState state (trace n ⟨w, [.run script]⟩))).foldl (Change.reads p)
        (p.valueOrNull (w.data state)) := by
  induction n with
  | zero => rfl
  | succ n ih =>
    have hsplit : atState state (trace (n + 1) ⟨w, [.run script]⟩) =
        atState state (trace n ⟨w, [.run script]⟩) ++
          atState state (run n ⟨w, [.run script]⟩).events := by
      rw [trace_succ]
      exact List.filterMap_append
    have heff : effective (atState state (trace (n + 1) ⟨w, [.run script]⟩)) =
        effective (atState state (trace n ⟨w, [.run script]⟩)) ++
          effective (atState state (run n ⟨w, [.run script]⟩).events) := by
      rw [hsplit]
      exact List.filterMap_append
    -- What was written before was written in the longer run.
    have hbefore := ih fun q hq => hwritten q (by
      rw [hsplit, written, List.filterMap_append]
      exact List.mem_append_left _ hq)
    rw [heff, List.foldl_append, ← hbefore, run_succ_step]
    obtain ⟨hdata, he⟩ | ⟨path, v, tree, change?, hw, hdata, he⟩ :=
      data_step (run n ⟨w, [.run script]⟩) (hnamed n)
    · rw [hdata, he]
      rfl
    · have hq : path.isPlain = true ∧ p.isAbove path = false := by
        refine hwritten path ?_
        rw [hsplit, he, written, List.filterMap_append]
        exact List.mem_append_right _ (by simp)
      rw [hdata, he, Path.valueOrNull_write hw hproper hp hq.1 hq.2]
      cases change? <;> simp [effective, StateEvent.effective?, Change.reads]

end Machine

end ReactiveMarkup
