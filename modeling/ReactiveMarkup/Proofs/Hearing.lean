-- SUMMARY: Which of the emitted notices a subscriber has heard.
import ReactiveMarkup.Proofs.Delivery

/-!
# What a subscriber hears

A subscriber that joins a subject before anything is emitted hears the notices of the rounds from
the first on, until it leaves. So at every moment it has heard a first part of what was emitted, and
all of it when no delivery is in progress and it has not left: `Machine.heard_run`.
-/

namespace ReactiveMarkup

variable {σ : Type}

/-- The notices that the subscriber with the number was called with, in order. -/
def heard (id : Nat) (t : List SubjectEvent) : List Notice := (callsTo id t).filterMap fun n? => n?

namespace Roll

/-- The notices that the subscriber with the number is owed, in order. -/
def noticesTo (r : Roll) (id : Nat) : List Notice := (r.dueTo id).filterMap fun n? => n?

/-- The subscriber is owed the notices of all rounds, or of the first ones if it has left. -/
structure Informs (r : Roll) (id : Nat) : Prop where
  first : r.noticesTo id <+: r.rounds.map (·.notice)
  all : id ∈ r.registered → r.noticesTo id = r.rounds.map (·.notice)

private theorem rounds_foldl (t : List SubjectEvent) (r : Roll) :
    r.rounds <+: (t.foldl after r).rounds := by
  induction t generalizing r with
  | nil => exact List.prefix_refl _
  | cons e t ih =>
    refine List.IsPrefix.trans ?_ (ih (r.after e))
    cases e with
    | begun n => exact List.prefix_append _ _
    | joined _ _ | left _ | emitted _ | called _ _ | returned _ => exact List.prefix_refl _

private theorem mem_registered_foldl {id : Nat} (t : List SubjectEvent) {r : Roll}
    (h : id ∈ (t.foldl after r).registered) : id ∈ r.registered ∨ id ∈ joiners t := by
  induction t generalizing r with
  | nil => exact .inl h
  | cons e t ih =>
    rcases ih h with hbefore | hlater
    · cases e with
      | joined i _ =>
        rcases List.mem_append.1 hbefore with hmem | hnew
        · exact .inl hmem
        · exact .inr (List.mem_cons.2 (.inl (List.mem_singleton.1 hnew)))
      | left i => exact .inl (List.mem_filter.1 hbefore).1
      | begun _ | emitted _ | called _ _ | returned _ => exact .inl hbefore
    · cases e with
      | joined i _ => exact .inr (List.mem_cons_of_mem _ hlater)
      | left _ | begun _ | emitted _ | called _ _ | returned _ => exact .inr hlater

/-- Before the first round nobody is owed a notice. -/
private theorem noticesTo_of_rounds_nil {id : Nat} (t : List SubjectEvent) {r : Roll}
    (hlatest : r.latest = none)
    (h : r.noticesTo id = []) (hrounds : (t.foldl after r).rounds = []) :
    (t.foldl after r).noticesTo id = [] := by
  induction t generalizing r with
  | nil => exact h
  | cons e t ih =>
    cases e with
    | joined i latest =>
      refine ih hlatest ?_ hrounds
      by_cases hi : i = id <;> simpa [noticesTo, dueTo, after, hi, hlatest] using h
    | left _ | emitted _ | called _ _ | returned _ => exact ih hlatest h hrounds
    | begun n =>
      -- A round that was begun is not forgotten.
      have hmore := rounds_foldl t (r.after (.begun n))
      rw [show t.foldl after (r.after (.begun n)) = (.begun n :: t).foldl after r from rfl,
        hrounds] at hmore
      simp [after] at hmore

/-- A subscriber that is informed and does not join again stays informed. -/
theorem Informs.foldl {id : Nat} (t : List SubjectEvent) {r : Roll} (h : r.Informs id)
    (hnd : (r.registered ++ joiners t).Nodup) (hid : id ∉ joiners t) :
    (t.foldl after r).Informs id := by
  induction t generalizing r with
  | nil => exact h
  | cons e t ih =>
    cases e with
    | emitted _ | called _ _ | returned _ => exact ih ⟨h.first, h.all⟩ hnd hid
    | joined i latest =>
      have hi : i ≠ id := fun hi => hid (by simp [joiners, SubjectEvent.joined?, hi])
      have hsame : (r.after (.joined i latest)).noticesTo id = r.noticesTo id := by
        simp [noticesTo, dueTo, after, hi]
      refine ih ⟨hsame ▸ h.first, fun hmem => ?_⟩ ?_ fun hmem => hid (List.mem_cons_of_mem _ hmem)
      · rw [hsame]
        exact h.all (by simpa [after, Ne.symm hi] using hmem)
      · simpa [after, joiners, SubjectEvent.joined?] using hnd
    | left i =>
      refine ih ⟨h.first, fun hmem => h.all (List.mem_filter.1 hmem).1⟩ ?_ hid
      exact hnd.sublist (List.Sublist.append List.filter_sublist (List.Sublist.refl _))
    | begun n =>
      have hrounds : (r.after (.begun n)).rounds.map (·.notice) =
          r.rounds.map (·.notice) ++ [n] := by
        simp [after]
      by_cases hmem : id ∈ r.registered
      · -- The round has the subscriber in it once.
        have hone : (r.after (.begun n)).noticesTo id = r.noticesTo id ++ [n] := by
          have hnew := filterMap_of_mem (some n) (List.nodup_append.1 hnd).1 hmem
          simp only [noticesTo, dueTo, after, List.filterMap_append, List.filterMap_map,
            Function.comp_def, hnew, List.filterMap_cons, List.filterMap_nil]
        have hall : (r.after (.begun n)).noticesTo id =
            (r.after (.begun n)).rounds.map (·.notice) := by
          rw [hone, hrounds, h.all hmem]
        exact ih ⟨hall ▸ List.prefix_refl _, fun _ => hall⟩ hnd hid
      · have hsame : (r.after (.begun n)).noticesTo id = r.noticesTo id := by
          have hnone : (r.registered.filterMap fun i => if i = id then some (some n) else none) =
              [] := by
            refine List.filterMap_eq_nil_iff.2 fun i hi => if_neg ?_
            rintro rfl
            exact hmem hi
          simp only [noticesTo, dueTo, after, List.filterMap_append, List.filterMap_map,
            Function.comp_def, hnone, List.append_nil]
        refine ih ⟨?_, fun hmem' => absurd hmem' hmem⟩ hnd hid
        rw [hsame, hrounds]
        exact h.first.trans (List.prefix_append _ _)

end Roll

/-! ## Every run -/

namespace Machine

/-- Whether a subscriber with the number is registered at the source. -/
def IsRegistered (m : Machine σ) (source : SubjectId) (id : Nat) : Prop :=
  id ∈ (m.world.subject source).subscribers.map (·.id)

variable {w : World σ} {source : SubjectId} {k n id : Nat}

theorem joiners_trace_add (k n : Nat) (m : Machine σ) :
    joiners (atSubject source (trace (k + n) m)) =
      joiners (atSubject source (trace k m)) ++ joiners (atSubject source (trace n (run k m))) := by
  rw [trace_add, atSubject, List.filterMap_append]
  exact List.filterMap_append

/-- Nobody who is registered joins later. -/
theorem not_mem_joiners_of_isRegistered (hw : w.HasSource source) (hi : (w.subject source).Idle)
    (hn : (w.subject source).Numbered) (script : Script σ) (n : Nat)
    (hid : (run k ⟨w, [.run script]⟩).IsRegistered source id) :
    id ∉ joiners (atSubject source (trace n (run k ⟨w, [.run script]⟩))) := by
  intro hlater
  have hroll :
      id ∈ ((w.subject source).roll (atSubject source (trace k ⟨w, [.run script]⟩))).registered :=
    (serving_run hw hi hn script k).2.registered ▸ hid
  have hnodup := (serving_run hw hi hn script (k + n)).2.joined
  rw [joiners_trace_add, ← List.append_assoc] at hnodup
  exact (List.nodup_append.1 hnodup).2.2 id
    (List.mem_append.2 (Roll.mem_registered_foldl _ hroll)) id hlater rfl

theorem informs_run (hw : w.HasSource source) (hi : (w.subject source).Idle)
    (hn : (w.subject source).Numbered) (hnew : (w.subject source).latest = none) (script : Script σ)
    (hkn : k ≤ n) (hjoined : (run k ⟨w, [.run script]⟩).IsRegistered source id)
    (hfirst : emissions (atSubject source (trace k ⟨w, [.run script]⟩)) = []) :
    ((w.subject source).roll (atSubject source (trace n ⟨w, [.run script]⟩))).Informs id := by
  obtain ⟨j, rfl⟩ := Nat.exists_eq_add_of_le hkn
  have hk := (serving_run hw hi hn script k).2
  have hkj := (serving_run hw hi hn script (k + j)).2
  have hsplit : atSubject source (trace (k + j) ⟨w, [.run script]⟩) =
      atSubject source (trace k ⟨w, [.run script]⟩) ++
        atSubject source (trace j (run k ⟨w, [.run script]⟩)) := by
    rw [trace_add]
    exact List.filterMap_append
  have hrounds : ((w.subject source).roll (atSubject source (trace k ⟨w, [.run script]⟩))).rounds =
      [] := by
    have hline := hk.line
    rw [hfirst] at hline
    exact List.map_eq_nil_iff.1 (List.append_eq_nil_iff.1 hline).1
  have hnotices : ((w.subject source).roll
      (atSubject source (trace k ⟨w, [.run script]⟩))).noticesTo id = [] :=
    Roll.noticesTo_of_rounds_nil _ hnew rfl hrounds
  have hstart :
      ((w.subject source).roll (atSubject source (trace k ⟨w, [.run script]⟩))).Informs id := by
    refine ⟨?_, fun _ => ?_⟩ <;> rw [hnotices, hrounds]
    · exact List.prefix_refl _
    · rfl
  rw [hsplit, Subject.roll_append]
  refine hstart.foldl _ (List.nodup_append.2 ⟨?_, ?_, ?_⟩) ?_
  · rw [hk.registered]
    exact hk.numbered.nodup
  · have hnodup := (List.nodup_append.1 hkj.joined).2.1
    rw [joiners_trace_add] at hnodup
    exact (List.nodup_append.1 hnodup).2.1
  · rintro i hreg _ hlater rfl
    rw [hk.registered] at hreg
    exact not_mem_joiners_of_isRegistered hw hi hn script j hreg hlater
  · exact not_mem_joiners_of_isRegistered hw hi hn script j hjoined

/-- A subscriber that joined before anything was emitted has heard a first part of what was emitted,
and all of it if it has not left and no delivery is in progress. -/
theorem heard_run (hw : w.HasSource source) (hi : (w.subject source).Idle)
    (hn : (w.subject source).Numbered) (hnew : (w.subject source).latest = none) (script : Script σ)
    (hkn : k ≤ n) (hjoined : (run k ⟨w, [.run script]⟩).IsRegistered source id)
    (hfirst : emissions (atSubject source (trace k ⟨w, [.run script]⟩)) = []) :
    let m := run n ⟨w, [.run script]⟩
    let t := atSubject source (trace n ⟨w, [.run script]⟩)
    heard id t <+: emissions t ∧
      (m.IsRegistered source id → (m.world.subject source).delivering = false →
        heard id t = emissions t) := by
  intro m t
  obtain ⟨hserves, hserving⟩ := serving_run hw hi hn script n
  have hinforms := informs_run hw hi hn hnew script hkn hjoined hfirst
  constructor
  · have hcalls : heard id t <+: ((w.subject source).roll t).noticesTo id := by
      rw [Roll.noticesTo, ← hserving.calls id, List.filterMap_append]
      exact List.prefix_append _ _
    exact (hcalls.trans hinforms.first).trans ⟨_, hserving.line⟩
  · intro hstays hidle
    have hsettled := hserving.settled (deliveryOn_of_idle hserves hidle none)
    have hline := hserving.line
    rw [hsettled.pending, List.append_nil] at hline
    rw [heard, hsettled.calls id, ← hline]
    exact hinforms.all (hserving.registered ▸ hstays)

end Machine

end ReactiveMarkup
