-- SUMMARY: Callbacks that are neither registered nor in line are not called again.
import ReactiveMarkup.Proofs.Registration

/-!
# Callbacks that are gone

A callback is called because it is registered, or because a delivery or a dispatch that saw it
registered has it in line. New callbacks get new numbers. So listeners and subscribers that are not
registered, not in line and not about to get their numbers are gone for good, which is what
`Machine.not_called_run` says.
-/

namespace ReactiveMarkup

variable {σ : Type}

/-- A choice of listeners and of subscribers, by their numbers. -/
structure Callbacks where
  listener : ListenerId → Prop
  subscriber : SubjectId → Nat → Prop

/-- Whether the callee is among the callbacks. -/
def Callbacks.Has (g : Callbacks) : Callee → Prop
  | .listener id _ => g.listener id
  | .subscriber source id => g.subscriber source id
  | .watcher _ _ | .hook _ _ | .task => False

/-- None of the callbacks is registered or will be. -/
structure World.Without (g : Callbacks) (w : World σ) : Prop where
  listeners : ∀ l ∈ w.listeners, ¬ g.listener l.id
  later : ∀ id, w.nextListener ≤ id → ¬ g.listener id
  subscribers : ∀ source, ∀ sub ∈ (w.subject source).subscribers, ¬ g.subscriber source sub.id
  joining : ∀ source id, (w.subject source).nextId ≤ id → ¬ g.subscriber source id

/-- None of the callbacks is being called or in line. -/
def Frame.Without (g : Callbacks) : Frame σ → Prop
  | mark callee => ¬ g.Has callee
  | deliver source _ waiting => ∀ sub ∈ waiting, ¬ g.subscriber source sub.id
  | dispatch waiting _ _ => ∀ l ∈ waiting, ¬ g.listener l.id
  | run _ | react _ _ | watch _ _ _ | drain _ _ => True

/-- None of the callbacks can be called any more. -/
structure Machine.Without (g : Callbacks) (m : Machine σ) : Prop where
  world : m.world.Without g
  stack : ∀ f ∈ m.stack, f.Without g

variable {g : Callbacks} {w w' : World σ}

private theorem Callbacks.not_has_of_isRegistered {c : Callee} (h : c.isRegistered = false) :
    ¬ g.Has c := by
  cases c with
  | subscriber _ _ | listener _ _ => cases h
  | watcher _ _ | hook _ _ | task => exact id

/-! ## Worlds -/

namespace World.Without

/-- What is gone does not come back, as its number is not given out again. -/
theorem follows (h : w.Without g) (hw : w.Follows w') : w'.Without g where
  listeners l hl := by
    obtain hl | ⟨hge, -⟩ := hw.listeners l hl
    · exact h.listeners l hl
    · exact h.later l.id hge
  later id hle := h.later id (Nat.le_trans hw.nextListener_le hle)
  subscribers source sub hsub := by
    obtain hsub | hge := hw.subscribers source sub hsub
    · exact h.subscribers source sub hsub
    · exact h.joining source sub.id hge
  joining source id hle := h.joining source id (Nat.le_trans (hw.nextId_le source) hle)

private theorem not_has_of_registers (h : w.Without g) {c : Callee} (hc : w.Registers c) :
    ¬ g.Has c := by
  cases c with
  | listener id owner =>
    obtain ⟨l, hl, rfl⟩ := hc
    exact h.listeners l hl
  | subscriber source id =>
    obtain ⟨sub, hsub, rfl⟩ := hc
    exact h.subscribers source sub hsub
  | watcher _ _ | hook _ _ | task => exact id

end World.Without

/-! ## The line -/

namespace Machine

/-- Of callbacks that are not registered, only those are called that are in line, and none gets into
it. -/
theorem Turn.sublist [DecidablePred g.Has] {line line' : List Callee} {call : Option Callee}
    (h : Turn w line line' call) (hw : w.Without g) :
    ((call.toList ++ line').filter (g.Has ·)).Sublist (line.filter (g.Has ·)) := by
  have dropped {c : Callee} (hnot : ¬ g.Has c) :
      (c :: line').filter (g.Has ·) = line'.filter (g.Has ·) :=
        List.filter_cons_of_neg (by simpa using hnot)
  cases h with
  | @round fresh line registered =>
    have hfresh : fresh.filter (g.Has ·) = [] :=
      List.filter_eq_nil_iff.2 fun c hc => by simpa using hw.not_has_of_registers (registered c hc)
    have hsame : (fresh ++ line).filter (g.Has ·) = line.filter (g.Has ·) := by
      rw [List.filter_append, hfresh, List.nil_append]
    exact hsame ▸ .refl _
  | call => exact .refl _
  | skip => exact (List.sublist_cons_self _ _).filter _
  | join source =>
    have hnot : ¬ g.Has (.subscriber source (w.subject source).nextId) :=
      hw.joining source _ (Nat.le_refl _)
    exact dropped hnot ▸ .refl _
  | @other c _ h =>
    exact dropped (Callbacks.not_has_of_isRegistered h) ▸ .refl _

theorem frame_without_iff {f : Frame σ} :
    f.Without g ↔ (∀ c ∈ f.line, ¬ g.Has c) ∧ ∀ c, f = .mark c → ¬ g.Has c := by
  cases f with
  | mark callee => simp [Frame.Without, Frame.line]
  | deliver source notice waiting => simp [Frame.Without, Frame.line, Callbacks.Has]
  | dispatch waiting called next => simp [Frame.Without, Frame.line, Callbacks.Has]
  | run _ | react _ _ | watch _ _ _ | drain _ _ => simp [Frame.Without, Frame.line]

/-- No step brings back what is gone. -/
theorem Without.step {m : Machine σ} (h : m.Without g) : m.step.Without g := by
  classical
  obtain ⟨w, stack⟩ := m
  cases stack with
  | nil => exact h
  | cons f stack =>
    obtain ⟨w', pushed, hm, hw, hturn, hmark⟩ := step_advance w f stack
    obtain ⟨hf, hstack⟩ := List.forall_mem_cons.1 h.stack
    have hline : f.line.filter (g.Has ·) = [] :=
      List.filter_eq_nil_iff.2 fun c hc => by simpa using (frame_without_iff.1 hf).1 c hc
    have hnone := List.sublist_nil.1 (hline ▸ hturn.sublist h.world)
    have hnot : ∀ c, c ∈ (call? ⟨w, f :: stack⟩).toList ++ pushed.flatMap Frame.line → ¬ g.Has c :=
      fun c hc => by simpa using List.filter_eq_nil_iff.1 hnone c hc
    rw [hm]
    refine ⟨h.world.follows hw, fun x hx => ?_⟩
    rcases List.mem_append.1 hx with hx | hx
    · refine frame_without_iff.2 ⟨fun c hc => ?_, ?_⟩
      · exact hnot c (List.mem_append_right _ (List.mem_flatMap.2 ⟨x, hx, hc⟩))
      · rintro c rfl
        exact hnot c (List.mem_append_left _ (by rw [hmark c hx]; exact List.mem_singleton_self c))
    · exact hstack x hx

theorem Without.run {m : Machine σ} (h : m.Without g) (n : Nat) : (run n m).Without g := by
  induction n with
  | zero => exact h
  | succ n ih =>
    rw [run_succ_step]
    exact ih.step

/-- A callback that is gone before a script is run is not called. -/
theorem not_called_run {callee : Callee} (hw : w.Without g) (hcallee : g.Has callee)
    (script : Script σ) (n : Nat) : .mark callee ∉ (run n ⟨w, [.run script]⟩).stack := by
  have hstart : (⟨w, [.run script]⟩ : Machine σ).Without g :=
    ⟨hw, List.forall_mem_singleton.2 trivial⟩
  exact fun hmem => (hstart.run n).stack _ hmem hcallee

end Machine

end ReactiveMarkup
