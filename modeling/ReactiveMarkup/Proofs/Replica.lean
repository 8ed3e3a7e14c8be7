-- SUMMARY: Making the changes that a subscriber receives in a copy keeps the copy in step.
import ReactiveMarkup.Proofs.Alike
import ReactiveMarkup.Proofs.Hearing
import ReactiveMarkup.Proofs.Reading

/-!
# Copies that follow the changes

The changes that a subscriber receives suffice to keep a copy of the tree: making each of them in
the copy, with a plain write, gives the tree again but for fields that hold null. Such fields come
about by writes that have no change, so no subscriber hears of them: `Machine.replica_follows`.
-/

namespace ReactiveMarkup

variable {σ : Type}

/-- Writing the changes one after the other turns the first tree into the last. Each write replaces
a value like the one that its change records. -/
inductive Replays : Value → List Change → Value → Prop
  | nil (v : Value) : Replays v [] v
  | cons {v v' v'' replaced : Value} {c : Change} {changes : List Change}
      (written : c.path.set v c.current = .ok (replaced, v')) (previous : c.previous.Alike replaced)
      (rest : Replays v' changes v'') : Replays v (c :: changes) v''

namespace Replays

variable {v v' v'' tree copy : Value} {changes more : List Change} {c : Change} {p : Path}

theorem append (h : Replays v changes v') (h' : Replays v' more v'') : Replays v
    (changes ++ more) v'' := by
  induction h with
  | nil => exact h'
  | cons written previous _ ih => exact .cons written previous (ih h')

/-- The first part of the changes can be written on its own. -/
theorem of_append (h : Replays v (changes ++ more) v'') : ∃ v', Replays v changes v' := by
  induction changes generalizing v with
  | nil => exact ⟨v, .nil v⟩
  | cons c changes ih =>
    cases h with
    | cons written previous rest =>
      obtain ⟨v', h'⟩ := ih rest
      exact ⟨v', .cons written previous h'⟩

end Replays

/-! ## One write -/

namespace Path

variable {p : Path} {v tree tree' copy : Value} {c : Change}

/-- A write without a change leaves a tree alike. -/
private theorem alike_write_silent (h : p.write tree v = .ok (tree', none)) : tree.Alike tree' := by
  unfold write at h
  cases hs : p.slot tree with
  | error e =>
    rw [hs] at h
    cases h
  | ok slot =>
    rw [hs] at h
    cases hv : slot.content == v with
    | false => simp [hv, bind, Except.bind, pure, Except.pure] at h
    | true =>
      simp only [bind, Except.bind, pure, Except.pure, hv, if_true, Except.ok.injEq, Prod.mk.injEq,
        and_true] at h
      exact h ▸ alike_fill_slot hs

/-- The change of a write can be made in a copy, which is then like the tree after the write. -/
private theorem replays_write (h : tree.Alike copy) (hw : p.write tree v = .ok (tree', some c)) :
    ∃ copy', Replays copy [c] copy' ∧ tree'.Alike copy' := by
  obtain ⟨slot, hs, rfl, rfl, _⟩ := write_effective hw
  obtain ⟨slot', hs', halike⟩ := alike_slot h hs
  have hset : p.set copy v = .ok (slot'.content, slot'.fill v) := by
    rw [set, hs']
    rfl
  exact ⟨slot'.fill v, .cons hset halike.content (.nil _), halike.fill (.refl v)⟩

end Path

/-! ## Every run -/

/-- The change that a notice passes on. -/
def Notice.change? : Notice → Option Change
  | change c => some c
  | value _ => none

/-- The changes that the subscriber with the number was called with, in order. -/
def received (id : Nat) (t : List SubjectEvent) : List Change := (heard id t).filterMap (·.change?)

namespace Machine

/-- The changes of the effective writes can be made in a copy of the tree at the start, which is
then like the tree. -/
theorem replays_run {w : World σ} {state : StateId} (script : Script σ)
    (hnamed : ∀ k, (run k ⟨w, [.run script]⟩).world.HasSource (.state state)) (n : Nat) :
    ∃ copy, Replays (w.data state) (effective (atState state (trace n ⟨w, [.run script]⟩))) copy ∧
      ((run n ⟨w, [.run script]⟩).world.data state).Alike copy := by
  induction n with
  | zero => exact ⟨_, .nil _, .refl _⟩
  | succ n ih =>
    obtain ⟨copy, hreplays, halike⟩ := ih
    have heff : effective (atState state (trace (n + 1) ⟨w, [.run script]⟩)) =
        effective (atState state (trace n ⟨w, [.run script]⟩)) ++
          effective (atState state (run n ⟨w, [.run script]⟩).events) := by
      rw [trace_succ]
      simp [effective, atState]
    rw [heff, run_succ_step]
    obtain ⟨hdata, he⟩ | ⟨path, v, tree, change?, hw, hdata, he⟩ :=
      data_step (run n ⟨w, [.run script]⟩) (hnamed n)
    · rw [hdata, he, List.append_nil]
      exact ⟨copy, hreplays, halike⟩
    · rw [hdata, he]
      cases change? with
      | none => exact ⟨copy, by simpa [effective, StateEvent.effective?] using hreplays,
          (Path.alike_write_silent hw).symm.trans halike⟩
      | some c =>
        obtain ⟨copy', hone, halike'⟩ := Path.replays_write halike hw
        exact ⟨copy', by simpa [effective, StateEvent.effective?] using hreplays.append hone,
          halike'⟩

variable {k n id : Nat}

/-- A subscriber that joined before the first change can keep a copy of the tree: all changes that
it receives can be written to the copy, where they replace what they replaced in the tree, and when
no delivery is in progress and it has not left, the copy is the tree. All this holds but for fields
that hold null. -/
theorem replica_follows (w : World σ) (state : StateId) (hw : w.HasSource (.state state))
    (hi : (w.subject (.state state)).Idle) (hn : (w.subject (.state state)).Numbered)
    (hnew : (w.subject (.state state)).latest = none) (script : Script σ) (hkn : k ≤ n)
    (hjoined : (run k ⟨w, [.run script]⟩).IsRegistered (.state state) id)
    (hfirst : effective (atState state (trace k ⟨w, [.run script]⟩)) = []) :
    let m := run n ⟨w, [.run script]⟩
    let t := atSubject (.state state) (trace n ⟨w, [.run script]⟩)
    ∃ copy, Replays (w.data state) (received id t) copy ∧
      (m.IsRegistered (.state state) id → (m.world.subject (.state state)).delivering = false →
        (m.world.data state).Alike copy) := by
  intro m t
  have hnamed (j : Nat) := (serving_run hw hi hn script j).1.1
  obtain ⟨copy, hreplays, halike⟩ := replays_run script hnamed n
  have hquiet : emissions (atSubject (.state state) (trace k ⟨w, [.run script]⟩)) = [] := by
    rw [emissions_run, hfirst]
    rfl
  obtain ⟨hpart, hall⟩ := heard_run hw hi hn hnew script hkn hjoined hquiet
  have hemitted : (emissions t).filterMap (·.change?) =
      effective (atState state (trace n ⟨w, [.run script]⟩)) := by
    rw [emissions_run, List.filterMap_map]
    exact List.filterMap_some
  by_cases hmoment : m.IsRegistered (.state state) id ∧
    (m.world.subject (.state state)).delivering = false
  · -- The subscriber has received every change.
    refine ⟨copy, ?_, fun _ _ => halike⟩
    rw [received, hall hmoment.1 hmoment.2, hemitted]
    exact hreplays
  · obtain ⟨rest, hrest⟩ := hpart.filterMap (·.change?)
    rw [hemitted] at hrest
    rw [← hrest] at hreplays
    obtain ⟨copy', hcopy'⟩ := hreplays.of_append
    exact ⟨copy', hcopy', fun hstays hidle => absurd ⟨hstays, hidle⟩ hmoment⟩

/-- A state whose first subscriber answers the change of a user by a change below it. -/
def introducing : State Unit where
  data := .empty
  changes :=
    { subscribers := [⟨0, fun
        | some (.change ⟨⟨["user"]⟩, _, _⟩) => .set 0 ⟨["user", "known"]⟩
            (.bool true) fun _ => .done
        | _ => .done⟩]
      nextId := 1 }

theorem replica_follows_introducing :
    let w : World Unit := { memory := (), states := [introducing] }
    let script : Script Unit :=
      .set 0 ⟨["absent"]⟩ .null fun _ =>
        .subscribe (.state 0) (fun _ => .done) fun _ =>
          .set 0 ⟨["user"]⟩ .empty fun _ => .done
    let m := run 40 ⟨w, [.run script]⟩
    let t := atSubject (.state 0) (trace 40 ⟨w, [.run script]⟩)
    (received 1 t).map (·.path) = [⟨["user"]⟩, ⟨["user", "known"]⟩] ∧
      (m.world.data 0 == .object
        [("absent", .null), ("user", .object [("known", .bool true)])]) = true ∧
      ∃ copy, Replays (w.data 0) (received 1 t) copy ∧ (m.world.data 0).Alike copy := by
  intro w script m t
  have hjoined :
      1 ∈ ((run 2 ⟨w, [.run script]⟩).world.subject (.state 0)).subscribers.map (·.id) := by
    decide +kernel
  have hfirst : effective (atState 0 (trace 2 ⟨w, [.run script]⟩)) = [] :=
    List.isEmpty_iff.1 (by decide +kernel)
  obtain ⟨copy, hreplays, halike⟩ := replica_follows w 0 (show 0 < 1 by decide) ⟨rfl, rfl⟩
    ⟨by decide, by decide⟩ rfl script (show 2 ≤ 40 by decide) hjoined hfirst
  have hstays : 1 ∈ (m.world.subject (.state 0)).subscribers.map (·.id) := by decide +kernel
  exact ⟨by decide +kernel, by decide +kernel, copy, hreplays, halike hstays (by decide +kernel)⟩

end Machine

end ReactiveMarkup
