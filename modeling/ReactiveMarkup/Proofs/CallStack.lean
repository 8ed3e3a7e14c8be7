-- SUMMARY: How stacks are put together: who waits for which call.
import ReactiveMarkup.Proofs.Reentry

/-!
# The call stack

A frame that has called someone waits until the call returns. The mark of the call lies right above
it, and nothing else can: `Frame.Awaits` tells who is called by which frame, and `Layered` says that
a stack is put together so, which the stack of every run is.
-/

namespace ReactiveMarkup

variable {σ : Type}

/-! ## Frames that call -/

/-- Whether the frame calls others and goes on when they return. -/
def Frame.isCaller : Frame σ → Bool
  | deliver _ _ _ | watch _ _ _ | drain _ _ | dispatch _ _ _ => true
  | run _ | mark _ | react _ _ => false

/-- Whether the frame is the end of a call. -/
def Frame.isMark : Frame σ → Bool
  | mark _ => true
  | run _ | deliver _ _ _ | react _ _ | watch _ _ _ | drain _ _ | dispatch _ _ _ => false

/-- The frame goes on when a call of the callee returns. What is left of a script goes on when a
subscriber that has joined returns. -/
def Frame.Awaits : Frame σ → Callee → Prop
  | run _, .subscriber _ _ => True
  | deliver source _ _, .subscriber other _ => other = source
  | watch state c _, callee => callee = .watcher state c.path
  | drain _ _, .task | drain _ _, .hook _ _ => True
  | dispatch _ _ _, .listener _ _ => True
  | _, _ => False

/-- Every mark lies on the frame that called, and on a frame that calls there is nothing but a
mark. -/
inductive Layered : List (Frame σ) → Prop
  | empty : Layered []
  | called {c : Callee} {f : Frame σ} {below : List (Frame σ)} (awaits : f.Awaits c)
      (rest : Layered (f :: below)) : Layered (.mark c :: f :: below)
  | other {f : Frame σ} {below : List (Frame σ)} (unmarked : f.isMark = false)
      (free : ∀ g ∈ below.head?, g.isCaller = false) (rest : Layered below) : Layered (f :: below)

namespace Layered

variable {f g : Frame σ} {above below : List (Frame σ)} {c : Callee}

theorem tail (h : Layered (f :: below)) : Layered below := by
  cases h with
  | called _ rest => exact rest
  | other _ _ rest => exact rest

theorem free (h : Layered (f :: below)) (hf : f.isMark = false) :
    ∀ g ∈ below.head?, g.isCaller = false := by
  cases h with
  | called _ _ => cases hf
  | other _ free _ => exact free

theorem awaits (h : Layered (.mark c :: below)) : ∃ f rest, below = f :: rest ∧ f.Awaits c := by
  cases h with
  | called awaits _ => exact ⟨_, _, rfl, awaits⟩
  | other unmarked _ _ => cases unmarked

theorem of_append (h : Layered (above ++ below)) : Layered below := by
  induction above with
  | nil => exact h
  | cons f above ih => exact ih h.tail

/-- On a frame that calls there is the mark of its call, if there is anything. -/
theorem mark_above (h : Layered (above ++ g :: below)) (hg : g.isCaller = true)
    (habove : above ≠ []) : ∃ outer c, above = outer ++ [.mark c] ∧ g.Awaits c := by
  obtain ⟨outer, f, rfl⟩ := (List.eq_nil_or_concat above).resolve_left habove
  rw [List.concat_eq_append, List.append_assoc] at h
  have hrest := h.of_append
  cases hrest with
  | called awaits _ => exact ⟨outer, _, List.concat_eq_append, awaits⟩
  | other _ free _ =>
    have hfree := free g rfl
    rw [hg] at hfree
    cases hfree

end Layered

namespace Machine

variable {w : World σ} {below : List (Frame σ)} {m : Machine σ}

/-! ## One step -/

private theorem layered_emit (h : Layered below) (hfree : ∀ g ∈ below.head?, g.isCaller = false)
    (w : World σ) (source : SubjectId) (n : Notice) : Layered (emit w below source n).stack := by
  obtain ⟨s, he | he⟩ := emit_cases w below source n
  · rw [he]
    exact h
  · rw [he]
    exact .other rfl hfree h

private theorem layered_perform (h : Layered below)
    (hfree : ∀ g ∈ below.head?, g.isCaller = false) (w : World σ)
    (script : Script σ) : Layered (perform w below script).stack := by
  have hrun (next : Script σ) : Layered (.run next :: below) := .other rfl hfree h
  have hplain : ∀ next : Script σ, ∀ g ∈ (Frame.run next :: below).head?, g.isCaller = false := by
    rintro next g ⟨⟩
    rfl
  cases script with
  | done => exact h
  | set state path v next =>
    rcases hr : w.assign state path v with ⟨e | _ | c, w'⟩
    · rw [perform_set_refused hr]
      exact hrun _
    · rw [perform_set_silent hr]
      exact hrun _
    · rw [perform_set_effective hr]
      refine layered_emit (.other rfl (hplain _) (hrun _)) ?_ w' _ _
      rintro g ⟨⟩
      rfl
  | emit number v next => exact layered_emit (hrun next) (hplain next) w _ _
  | subscribe source callback next =>
    refine .other rfl ?_ (.called trivial (hrun _))
    rintro g ⟨⟩
    rfl
  | runPending next => exact .other rfl hfree h
  | dispatch node event next => exact .other rfl hfree h
  | log _ _ | readMemory _ | writeMemory _ _ | readState _ _ | retain _ _ | release _ _
  | readSubject _ _ | unsubscribe _ _ _ | defer _ _ | pending _ | readDocument _ | edit _ _
  | listen _ _ _ _ | unlisten _ _
  | listeners _ _ | unmount _ _ => exact hrun _

/-- A frame that calls is left below the mark of the call. -/
private theorem layered_call {f : Frame σ} {c : Callee} (h : Layered below)
    (hfree : ∀ g ∈ below.head?, g.isCaller = false)
    (hf : f.isMark = false) (hawaits : f.Awaits c) (script : Script σ) :
    Layered (.run script :: .mark c :: f :: below) := by
  refine .other rfl ?_ (.called hawaits (.other hf hfree h))
  rintro g ⟨⟩
  rfl

theorem layered_step (h : Layered m.stack) : Layered m.step.stack := by
  obtain ⟨w, stack⟩ := m
  cases stack with
  | nil => exact h
  | cons f below =>
    have hrest : Layered below := h.tail
    cases f with
    | mark c => exact hrest
    | run script => exact layered_perform hrest (h.free rfl) w script
    | react state c => exact .other rfl (h.free rfl) hrest
    | deliver source notice waiting =>
      cases waiting with
      | cons sub waiting => exact layered_call hrest (h.free rfl) rfl (by exact rfl) _
      | nil =>
        have hstep : step ⟨w, .deliver source notice [] :: below⟩ =
          deliver w below source notice [] := rfl
        obtain ⟨_, _, _, _, _, hd, _⟩ | ⟨_, hd, _⟩ := deliver_nil_cases w below source notice
        · rw [hstep, hd]
          exact .other rfl (h.free rfl) hrest
        · rw [hstep, hd]
          exact hrest
    | watch state c waiting =>
      cases waiting with
      | cons watcher waiting => exact layered_call hrest (h.free rfl) rfl (by exact rfl) _
      | nil => exact hrest
    | drain ran next =>
      have hstep : step ⟨w, .drain ran next :: below⟩ = drain w below ran next := rfl
      obtain ⟨_, hd, _⟩ | ⟨_, _, _, hd, _⟩ | ⟨_, _, _, _, _, _, _, hd, _⟩ |
        ⟨_, _, _, _, _, hd, _⟩ :=
        drain_cases w below ran next
      · rw [hstep, hd]
        exact .other rfl (h.free rfl) hrest
      · rw [hstep, hd]
        exact layered_call hrest (h.free rfl) rfl (by exact trivial) _
      · rw [hstep, hd]
        exact layered_call hrest (h.free rfl) rfl (by exact trivial) _
      · rw [hstep, hd]
        exact .other rfl (h.free rfl) hrest
    | dispatch waiting called next =>
      cases waiting with
      | nil => exact .other rfl (h.free rfl) hrest
      | cons l waiting =>
        cases hl : isCalled below l.id with
        | true =>
          simp only [step, dispatch, hl, if_true]
          exact .other rfl (h.free rfl) hrest
        | false =>
          simp only [step, dispatch, hl, Bool.false_eq_true, if_false]
          exact layered_call hrest (h.free rfl) rfl (by exact trivial) _

theorem layered_run (h : Layered m.stack) (n : Nat) : Layered (run n m).stack := by
  induction n with
  | zero => exact h
  | succ n ih =>
    rw [run_succ_step]
    exact layered_step ih

theorem layered_script (script : Script σ) : Layered [.run script] := .other rfl nofun .empty

end Machine

end ReactiveMarkup
