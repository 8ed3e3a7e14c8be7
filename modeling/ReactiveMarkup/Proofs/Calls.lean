-- SUMMARY: Writes that return, compared to plain writes in a copy of the tree.
import ReactiveMarkup.Proofs.PlainWrites
import ReactiveMarkup.Proofs.Stages

/-!
# Writes that return

An effective write calls the subscribers of its state before it replies, and each of them may run
any script. `Machine.Passes` says of a machine that what is above a stack gets done, without a write
to the state. Calls that pass one by one make a delivery that passes, and a write that returns. Its
reply, the tree afterwards and the change are those of `Path.write`, so they can be compared to the
plain write: `Machine.set_agrees`.
-/

namespace ReactiveMarkup

variable {σ : Type}

/-! ## Stretches without writes -/

theorem effective_of_unwritten {t : List (StateEvent σ)} (h : written t = []) :
    effective t = [] := by
  refine List.filterMap_eq_nil_iff.2 fun e he => ?_
  cases e with
  | wrote path change? => exact absurd (List.filterMap_eq_nil_iff.1 h _ he) nofun
  | deferred _ | watched _ _ | settled _ | hooked _ | dropped _ => rfl

/-- An empty line stays empty as long as nothing is emitted, so that no other notice is begun. -/
private theorem Serve.idle_line {v v' : Service σ} {e : List SubjectEvent} (h : Serve v e v')
    (he : emissions e = []) (hp : v.subject.pending = []) :
    v'.subject.pending = [] ∧ v'.subject.latest = v.subject.latest := by
  cases h with
  | rest | join _ | call _ _ | return_ _ | close _ => exact ⟨hp, rfl⟩
  | open_ n _ | enqueue n _ => cases he
  | leave ids =>
    rw [Subject.foldl_remove]
    exact ⟨hp, rfl⟩
  | @begin_ s _ _ _ h =>
    have hnone : s.begin? = none := by
      rw [Subject.begin?, show s.pending = [] from hp]
    rw [hnone] at h
    cases h

namespace Machine

variable {m : Machine σ} {state : StateId} {path : Path} {v : Value} {c : Change} {w : World σ}
  {next : Except PathError Bool → Script σ} {below middle : List (Frame σ)} {k n : Nat}

/-- Nothing is written in a trace when nothing is written in either part. -/
theorem unwritten_append_iff {t u : List (Event σ)} : written (atState state (t ++ u)) = [] ↔
    written (atState state t) = [] ∧ written (atState state u) = [] := by
  rw [atState, List.filterMap_append, written, List.filterMap_append, List.append_eq_nil_iff]
  exact .rfl

/-- While nothing is written to a state its tree stays as it is. With an empty line of notices its
subject stays empty, and the notice begun last stays the latest. -/
theorem unwritten_run (hs : m.Serves (.state state))
    (h : written (atState state (trace n m)) = []) :
    (run n m).Serves (.state state) ∧ (run n m).world.data state = m.world.data state ∧
      ((m.world.subject (.state state)).pending = [] →
        ((run n m).world.subject (.state state)).pending = [] ∧
          ((run n m).world.subject (.state state)).latest =
            (m.world.subject (.state state)).latest) := by
  induction n with
  | zero => exact ⟨hs, rfl, fun hp => ⟨hp, rfl⟩⟩
  | succ n ih =>
    rw [trace_succ, unwritten_append_iff] at h
    obtain ⟨hserves, hdata, hline⟩ := ih h.1
    obtain ⟨hserve, hserves'⟩ := serve_step hserves
    have hquiet : emissions (atSubject (.state state) (run n m).events) = [] := by
      rw [(notify_step _ state).emitted, effective_of_unwritten h.2]
      rfl
    rw [run_succ_step]
    refine ⟨hserves', ?_, fun hp => ?_⟩
    case refine_2 =>
      obtain ⟨hempty, hlatest⟩ := hline hp
      obtain ⟨hempty', hlatest'⟩ := hserve.idle_line hquiet hempty
      exact ⟨hempty', hlatest'.trans hlatest⟩
    obtain ⟨hkept, -⟩ | ⟨_, _, _, _, _, _, he⟩ := data_step _ hserves.named
    · exact hkept.trans hdata
    · rw [he] at h
      exact absurd h.2 nofun

/-! ## What is above a stack gets done -/

/-- What is above `below` on the stack is done after `n` steps, and nothing is written to the state
until then. -/
structure Passes (m : Machine σ) (state : StateId) (below : List (Frame σ)) (n : Nat) : Prop where
  ends : (run n m).stack = below
  above : ∀ k < n, below.length < (run k m).stack.length
  unwritten : written (atState state (trace n m)) = []

namespace Passes

theorem done (h : m.stack = below) : m.Passes state below 0 := ⟨h, nofun, rfl⟩

theorem step (hlt : below.length < m.stack.length) (he : written (atState state m.events) = [])
    (h : m.step.Passes state below n) : m.Passes state below (n + 1) where
  ends := by
    rw [run_succ]
    exact h.ends
  above k hk := by
    cases k with
    | zero => exact hlt
    | succ k =>
      rw [run_succ]
      exact h.above k (Nat.lt_of_succ_lt_succ hk)
  unwritten := by
    rw [trace]
    exact unwritten_append_iff.2 ⟨he, h.unwritten⟩

/-- What is above a part of the stack gets done before the part itself. -/
theorem trans (h : m.Passes state middle k) (h' : (run k m).Passes state below n)
    (hle : below.length ≤ middle.length) : m.Passes state below (k + n) where
  ends := by
    rw [run_add]
    exact h'.ends
  above j hj := by
    rcases Nat.lt_or_ge j k with hlt | hge
    · exact Nat.lt_of_le_of_lt hle (h.above j hlt)
    · obtain ⟨i, rfl⟩ := Nat.exists_eq_add_of_le hge
      rw [run_add]
      exact h'.above i (Nat.lt_of_add_lt_add_left hj)
  unwritten := by
    rw [trace_add]
    exact unwritten_append_iff.2 ⟨h.unwritten, h'.unwritten⟩

end Passes

/-- As long as there is something above `below`, every call of a subscriber by a delivery right
above it returns, and nothing is written to the state until then. -/
def CallsPass (m : Machine σ) (state : StateId) (below : List (Frame σ)) : Prop :=
  ∀ k notice sub waiting, (∀ j ≤ k, below.length < (run j m).stack.length) →
    (run k m).stack = .deliver (.state state) notice (sub :: waiting) :: below →
    ∃ n, (run (k + 1) m).Passes state (.deliver (.state state) notice waiting :: below) n

/-- The calls that are still to come pass. -/
theorem CallsPass.later (h : m.CallsPass state below)
    (habove : ∀ j < k, below.length < (run j m).stack.length) :
    (run k m).CallsPass state below := by
  intro i notice sub waiting hi hstack
  rw [← run_add] at hstack ⊢
  refine h (k + i) notice sub waiting (fun j hj => ?_) hstack
  rcases Nat.lt_or_ge j k with hlt | hge
  · exact habove j hlt
  · obtain ⟨i', rfl⟩ := Nat.exists_eq_add_of_le hge
    rw [run_add]
    exact hi i' (Nat.le_of_add_le_add_left hj)

/-- A delivery with nothing left in line passes if its calls do. -/
private theorem passes_deliver {notice : Option Notice} {waiting : List (Subscriber σ)}
    (hs : m.Serves (.state state)) (hpending : (m.world.subject (.state state)).pending = [])
    (hcalls : m.CallsPass state below)
    (hstack : m.stack = .deliver (.state state) notice waiting :: below) :
    ∃ n, m.Passes state below n := by
  induction waiting generalizing m with
  | nil =>
    obtain ⟨world, stack⟩ := m
    obtain rfl : stack = .deliver (.state state) notice [] :: below := hstack
    obtain ⟨_, _, _, hp, _⟩ | ⟨_, hstep, hevents⟩ :=
      deliver_nil_cases world below (.state state) notice
    · exact absurd (hp.symm.trans hpending) (List.cons_ne_nil _ _)
    · exact ⟨1, .step (by simp) (by rw [hevents]; rfl) (.done (congrArg Machine.stack hstep))⟩
  | cons sub waiting ih =>
    obtain ⟨world, stack⟩ := m
    obtain rfl : stack = .deliver (.state state) notice (sub :: waiting) :: below := hstack
    obtain ⟨n, hcall⟩ :=
      hcalls 0 notice sub waiting (fun j hj => by simp [Nat.le_zero.1 hj, run]) rfl
    rw [run_succ] at hcall
    -- When the call has returned the delivery goes on with those who wait.
    obtain ⟨hserves, -, hline⟩ := unwritten_run (serve_step hs).2 hcall.unwritten
    have hlater := hcalls.later (k := n + 1) fun j hj => by
      cases j with
      | zero => simp [run]
      | succ j =>
        rw [run_succ]
        exact Nat.lt_of_succ_lt (hcall.above j (Nat.lt_of_succ_lt_succ hj))
    rw [run_succ] at hlater
    obtain ⟨n', hrest⟩ := ih hserves (hline hpending).1 hlater hcall.ends
    exact ⟨n + n' + 1, .step (by simp) rfl (hcall.trans hrest (by simp))⟩

/-- What is left of a write passes where nobody watches. -/
private theorem passes_react (hwatchers : (m.world.behavior state).watchers = [])
    (hstack : m.stack = .react state c :: below) : m.Passes state below 2 := by
  obtain ⟨world, stack⟩ := m
  obtain rfl : stack = .react state c :: below := hstack
  have hnobody : (world.behavior state).watchersOf c.path = [] :=
    Behavior.watchersOf_eq_nil hwatchers c.path
  have hstep : step ⟨world, .react state c :: below⟩ =
      ⟨if (world.behavior state).hook?.isSome then world.defer (.hook state c) else world,
        .watch state c [] :: below⟩ := by
    simp only [step, react, hnobody]
  refine .step (by simp) ?_ ?_
  · cases hh : (world.behavior state).hook?.isSome <;>
      simp [events, hh, atState, Event.atState?, written]
  · rw [hstep]
    exact .step (by simp) (by simp [events, atState, Event.atState?, written]) (.done rfl)

/-- A notice emitted from an idle subject is first in the line of a new delivery. -/
private theorem emit_of_idle {source : SubjectId} {notice : Notice} (hw : w.HasSource source)
    (hi : (w.subject source).Idle) : (emit w below source notice).stack = .deliver source none
    [] :: below ∧ ((emit w below source notice).world.subject source).pending = [notice] := by
  have hidle : ((w.subject source).enqueue notice).delivering = false := hi.delivering
  simp only [emit, hidle, Bool.false_eq_true, if_false, World.subject_putSubject_self hw]
  exact ⟨trivial, by simp [Subject.enqueue, hi.pending]⟩

/-- A delivery whose line holds one notice passes if its calls do, and the notice is the latest
then. -/
private theorem passes_begin {notice : Option Notice} {n : Notice} (hs : m.Serves (.state state))
    (hpending : (m.world.subject (.state state)).pending = [n]) (hcalls : m.CallsPass state below)
    (hstack : m.stack = .deliver (.state state) notice [] :: below) :
    ∃ k, m.Passes state below k ∧ ((run k m).world.subject (.state state)).pending = [] ∧
      ((run k m).world.subject (.state state)).latest = some n := by
  have hserves := (serve_step hs).2
  have hnamed := hs.named
  have hlater := hcalls.later (k := 1) fun j hj => by simp [Nat.lt_one_iff.1 hj, run, hstack]
  obtain ⟨world, stack⟩ := m
  obtain rfl : stack = .deliver (.state state) notice [] :: below := hstack
  obtain ⟨n', rest, s, hp, hsubject, hstep, hevents⟩ | ⟨hp, -⟩ :=
    deliver_nil_cases world below (.state state) notice
  · obtain ⟨rfl, rfl⟩ := List.cons.inj (hp.symm.trans hpending)
    have hbegun : (deliver world below (.state state) notice []).world.subject (.state state) =
        s := by
      rw [hstep, World.subject_putSubject_self hnamed]
    have hline : ((deliver world below (.state state) notice []).world.subject
        (.state state)).pending = [] := by
      rw [hbegun, hsubject]
    obtain ⟨k, hrest⟩ := passes_deliver hserves hline hlater (congrArg Machine.stack hstep)
    obtain ⟨-, -, hkept⟩ := unwritten_run hserves hrest.unwritten
    obtain ⟨hempty, hlatest⟩ := hkept hline
    refine ⟨k + 1, .step (by simp) (by rw [hevents]; rfl) hrest, hempty, hlatest.trans ?_⟩
    exact congrArg Subject.latest (hbegun.trans hsubject)
  · exact absurd (hpending.symm.trans hp) (List.cons_ne_nil _ _)

/-- What comes of an effective write passes: the subscribers are called, and the write returns. -/
private theorem passes_write (hs : m.Serves (.state state))
    (hi : (m.world.subject (.state state)).Idle)
    (hwatchers : (m.world.behavior state).watchers = [])
    (hcall : m.stack = .run (.set state path v next) :: below)
    (hassign : m.world.assign state path v = (.ok (some c), w))
    (hcalls : m.step.CallsPass state (.react state c :: .run (next (.ok true)) :: below)) :
    ∃ n, m.step.Passes state (.run (next (.ok true)) :: below) n ∧
      ((run n m.step).world.subject (.state state)).latest = some (.change c) := by
  have hserves := (serve_step hs).2
  have hbehavior (k : ℕ) : ((run k m.step).world.behavior state).watchers = [] := by
    rw [behavior_run, (notify_step m state).behavior, hwatchers]
  have hstep :
      m.step = emit w (.react state c :: .run (next (.ok true)) :: below) (.state state)
        (.change c) := by
    rw [step, hcall]
    exact perform_set_effective hassign below
  obtain rfl : (m.world.assign state path v).2 = w := by rw [hassign]
  have hnamed : (m.world.assign state path v).2.HasSource (.state state) := by simpa using hs.named
  have hidle : ((m.world.assign state path v).2.subject (.state state)).Idle :=
    by rwa [World.subject_assign]
  obtain ⟨hstack, hline⟩ := emit_of_idle hnamed hidle
  rw [← hstep] at hstack hline
  obtain ⟨k, hdelivered, hempty, hlatest⟩ := passes_begin hserves hline hcalls hstack
  have hreacted := passes_react (hbehavior k) hdelivered.ends
  obtain ⟨hserves', -⟩ := unwritten_run hserves hdelivered.unwritten
  obtain ⟨-, -, hkept⟩ := unwritten_run hserves' hreacted.unwritten
  refine ⟨k + 2, hdelivered.trans hreacted (by simp), ?_⟩
  rw [run_add]
  exact (hkept hempty).2.trans hlatest

/-! ## The write of a state and the plain write -/

/-- A write of a state agrees with the plain write in a copy of the tree, where no delivery of the
state is in progress, nobody watches, and the subscribers that are called do not write to the state.
It is refused exactly when the plain write is, for the same reason, and nothing changes. Otherwise
it returns, and a change is emitted exactly when the reply is that the write was effective; it is
the latest change of the state then. The tree has the text of the copy, unless the value is equal to
the one it replaces but for the signs of zeros; then the tree stays as it is and the reply is that
it does. The write is effective exactly when the text changes, unless null is written to a missing
field. -/
theorem set_agrees (hcall : m.stack = .run (.set state path v next) :: below)
    (hs : m.Serves (.state state)) (hidle : (m.world.subject (.state state)).Idle)
    (hwatchers : (m.world.behavior state).watchers = [])
    (hcalls : ∀ c, m.step.CallsPass state (.react state c :: .run (next (.ok true)) :: below)) :
    (∀ e, path.set (m.world.data state) v = .error e →
      m.step = ⟨m.world, .run (next (.error e)) :: below⟩ ∧ m.events = []) ∧
    (∀ previous copy, path.set (m.world.data state) v = .ok (previous, copy) →
      ∃ n reply, m.step.Passes state (.run (next (.ok reply)) :: below) n ∧
        emissions (atSubject (.state state) (trace (n + 1) m)) =
          (if reply then [.change ⟨path, previous, v⟩] else []) ∧
        ((run (n + 1) m).world.subject (.state state)).latest =
          (if reply then some (.change ⟨path, previous, v⟩)
            else (m.world.subject (.state state)).latest) ∧
        path.Agrees v (m.world.data state) previous
          ((run (n + 1) m).world.data state) copy reply) := by
  have hevents : m.events = scriptEvents m.world (.set state path v next) := by rw [events, hcall]
  have hstep : m.step = perform m.world below (.set state path v next) := by rw [step, hcall]
  have hlt : state < m.world.states.length := hs.named
  constructor
  · intro e hset
    have hassign : m.world.assign state path v = (.error e, m.world) := by
      simp only [World.assign, Path.write_eq_error_iff.2 hset]
    exact ⟨hstep.trans (perform_set_refused hassign below),
      hevents.trans (scriptEvents_set_refused hassign)⟩
  · intro previous copy hset
    obtain ⟨after, isEffective, hwrite, hagrees⟩ := Path.write_agrees hset
    cases isEffective with
    | false =>
      have hassign : m.world.assign state path v =
          (.ok none, m.world.modifyState state fun s => { s with data := after }) := by
        simp only [World.assign, hwrite, Bool.false_eq_true, if_false]
      rw [perform_set_silent hassign] at hstep
      rw [scriptEvents_set_silent hassign] at hevents
      refine ⟨0, false, .done (congrArg Machine.stack hstep), ?_, ?_, ?_⟩
      · rw [trace, hevents]
        rfl
      · rw [run_succ, hstep]
        exact congrArg Subject.latest (World.subject_modifyState _ fun _ => rfl)
      · rw [run_succ, hstep]
        exact (World.data_modifyState_self hlt after).symm ▸ hagrees
    | true =>
      have hassign : m.world.assign state path v = (.ok (some ⟨path, previous, v⟩),
          (m.world.modifyState state fun s => { s with data := after }).write
            (World.changeRecord ⟨path, previous, v⟩)) := by
        simp only [World.assign, hwrite, if_true]
      obtain ⟨n, hreturns, hlatest⟩ := passes_write hs hidle hwatchers hcall hassign (hcalls _)
      refine ⟨n, true, hreturns, ?_, by rw [run_succ]; exact hlatest, ?_⟩
      · rw [emissions_write hcall hassign, emissions_run, effective_of_unwritten hreturns.unwritten]
        rfl
      · -- The tree stays as the first step has left it.
        have hfirst : m.step.world.data state = after := by
          rw [hstep, perform_set_effective hassign]
          obtain ⟨s, hemit | hemit⟩ :=
            emit_cases _ (.react state _ :: .run (next (.ok true)) :: below)
            (.state state) (.change ⟨path, previous, v⟩) <;>
          · rw [hemit, World.data_putSubject, World.data_write]
            exact World.data_modifyState_self hlt after
        obtain ⟨-, hkept, -⟩ := unwritten_run (serve_step hs).2 hreturns.unwritten
        rw [run_succ, hkept, hfirst]
        exact hagrees

/-- A state whose subscriber writes to the log. -/
def recording : State Unit where
  data := .object [("a", .integer 1)]
  changes := { subscribers := [⟨0, fun _ => .log (.record .trace "called") .done⟩], nextId := 1 }

theorem set_agrees_recording :
    let m : Machine Unit := ⟨{ memory := (), states := [recording] }, [.run writeTwo]⟩
    let path : Path := ⟨["a"]⟩
    let copy := Value.object [("a", .integer 2)]
    path.set (m.world.data 0) (.integer 2) = .ok (.integer 1, copy) ∧
      ∃ n reply, m.step.Passes 0 [.run .done] n ∧
        emissions (atSubject (.state 0) (trace (n + 1) m)) =
          (if reply then [.change ⟨path, .integer 1, .integer 2⟩] else []) ∧
        ((run (n + 1) m).world.subject (.state 0)).latest =
          (if reply then some (.change ⟨path, .integer 1, .integer 2⟩)
            else (m.world.subject (.state 0)).latest) ∧
        path.Agrees (.integer 2) (m.world.data 0) (.integer 1)
          ((run (n + 1) m).world.data 0) copy reply := by
  intro m path copy
  have hset : path.set (m.world.data 0) (.integer 2) = .ok (.integer 1, copy) := rfl
  have hserves : m.Serves (.state 0) := ⟨show 0 < 1 by decide, rfl⟩
  have hcalls : ∀ c, m.step.CallsPass 0 (.react 0 c :: [.run .done]) := by
    intro c k notice sub waiting habove hstack
    -- The delivery calls the subscriber in its second step and is over after six.
    rcases k with _ | _ | _ | _ | _ | _ | k
    case succ.zero =>
      cases hstack
      exact ⟨3, rfl, by decide +kernel, rfl⟩
    case succ.succ.succ.succ.succ.succ =>
      have hover : ¬ 2 < (run 6 m.step).stack.length := by decide +kernel
      exact absurd (habove 6 (Nat.le_add_left 6 k)) hover
    all_goals cases hstack
  exact ⟨hset, (set_agrees rfl hserves ⟨rfl, rfl⟩ rfl hcalls).2 _ _ hset⟩

/-- A state without subscribers about to be written to, with a client that keeps the reply. -/
def writing (data v : Value) : Machine (Option Bool) where
  world := { memory := none, states := [{ data }] }
  stack := [.run (.set 0 ⟨["a"]⟩ v fun reply => .writeMemory reply.toOption .done)]

/-- The other zero. -/
def negativeZero : Binary64 := ⟨0x8000000000000000, by decide⟩

/-- Where null is written to a missing field the text changes, but the reply is that it does not,
and no change is emitted. Where one zero is written over the other the plain write changes the text,
and the write of the state does not. -/
theorem set_disagrees :
    let path : Path := ⟨["a"]⟩
    let m := writing .empty .null
    let z := writing (.object [("a", .float .zero)]) (.float negativeZero)
    (path.set .empty .null = .ok (.null, .object [("a", .null)]) ∧
      (run 2 m).stack = [.run .done] ∧ (run 2 m).world.memory = some false ∧
      emissions (atSubject (.state 0) (trace 2 m)) = [] ∧
      ((run 2 m).world.data 0).json = "\x7b\"a\":null\x7d" ∧ (m.world.data 0).json = "\x7b\x7d") ∧
    (path.set (z.world.data 0) (.float negativeZero) =
        .ok (.float .zero, .object [("a", .float negativeZero)]) ∧
      (run 2 z).stack = [.run .done] ∧ (run 2 z).world.memory = some false ∧
      ((run 2 z).world.data 0).json = "\x7b\"a\":0.0\x7d" ∧
      (Value.object [("a", .float negativeZero)]).json = "\x7b\"a\":-0.0\x7d") := by
  refine ⟨⟨rfl, rfl, rfl, rfl, ?_, ?_⟩, rfl, rfl, rfl, ?_, ?_⟩ <;> decide +kernel

end Machine

end ReactiveMarkup
