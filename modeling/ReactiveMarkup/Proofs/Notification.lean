-- SUMMARY: Every effective write is made known to subscribers, hook and watchers, once each.
import Mathlib.Data.List.Basic
import ReactiveMarkup.Proofs.Reading

/-!
# Every write is notified once

An effective write to a state is made known on three channels: its subscribers are called, the hook
is deferred, and the watchers of the path are called. Scripts on each of them may write again.

What is still owed to hooks and watchers can be read off the open writes of a state and its hooks in
the queue. A move settles what it does against what is owed before and after, which is `Balance`. So
at the end of a run, when nothing is owed, every write has been notified. That writes are told as
they are done, and that whoever is told to be called is called with the change, is `ReactionsMade`.
-/

namespace ReactiveMarkup

variable {σ : Type}

/-! ## Reading the events at a state -/

namespace StateEvent

/-- The change for which the hook starts. -/
def hooked? : StateEvent σ → Option Change
  | hooked c => some c
  | _ => none

/-- The change whose hook leaves the queue. -/
def handled? : StateEvent σ → Option Change
  | hooked c | dropped c => some c
  | _ => none

/-- The watcher that is called, with the change. -/
def watched? : StateEvent σ → Option (Change × Watcher σ)
  | watched c watcher => some (c, watcher)
  | _ => none

end StateEvent

/-- The changes for which the hook was started. -/
def hooked (t : List (StateEvent σ)) : List Change := t.filterMap (·.hooked?)

/-- The changes whose hook has left the queue. -/
def handled (t : List (StateEvent σ)) : List Change := t.filterMap (·.handled?)

/-- The calls of watchers. -/
def watched (t : List (StateEvent σ)) : List (Change × Watcher σ) := t.filterMap (·.watched?)

private theorem hooked_eq_handled {t : List (StateEvent σ)} (h : ∀ c, StateEvent.dropped c ∉ t) :
    hooked t = handled t := by
  refine List.filterMap_congr fun e he => ?_
  cases e with
  | dropped c => exact absurd he (h c)
  | wrote _ _ | deferred _ | watched _ _ | settled _ | hooked _ => rfl

private theorem handled_of_mem_hooked {t : List (StateEvent σ)} {c : Change} (h : c ∈ hooked t) :
    c ∈ handled t := by
  obtain ⟨e, he, hc⟩ := List.mem_filterMap.1 h
  refine List.mem_filterMap.2 ⟨e, he, ?_⟩
  cases e with
  | hooked c' => exact hc
  | wrote _ _ | deferred _ | watched _ _ | settled _ | dropped _ => cases hc

namespace Behavior

/-- The calls of the hook that a change asks for. -/
def hookCalls (b : Behavior σ) (c : Change) : List Change := if b.hook?.isSome then [c] else []

/-- The calls of watchers that a change asks for: those of the watchers of its path. -/
def watcherCalls (b : Behavior σ) (c : Change) : List (Change × Watcher σ) :=
  (b.watchers.filter fun p => p.1 = c.path).map fun p => (c, p.2)

theorem map_watchersOf (b : Behavior σ) (c : Change) :
    (b.watchersOf c.path).map (c, ·) = b.watcherCalls c := by
  rw [watchersOf, watcherCalls, List.map_map]
  refine congrArg (List.map _) (List.filter_congr fun p _ => ?_)
  exact Bool.eq_iff_iff.2 (by simp)

end Behavior

/-- All three channels of a state have carried every effective write once, and nothing else. Its
subscribers received the changes in the order of the writes. -/
structure NotifiedOnce (subject : Subject σ) (b : Behavior σ) (calls : List SubjectEvent)
    (t : List (StateEvent σ)) : Prop where
  subscribers : ∀ sub ∈ subject.subscribers, SubjectEvent.left sub.id ∉ calls →
    callsTo sub.id calls = (effective t).map fun c => some (.change c)
  hook : (hooked t).Perm ((effective t).flatMap b.hookCalls)
  watchers : (watched t).Perm ((effective t).flatMap b.watcherCalls)

/-! ## What is owed -/

/-- The hooks that an open write has yet to defer. -/
def OpenWrite.hooksOwed (b : Behavior σ) : OpenWrite σ → List Change
  | reacting c => b.hookCalls c
  | watching _ _ => []

/-- The watchers that an open write has yet to call. -/
def OpenWrite.watchersOwed (b : Behavior σ) : OpenWrite σ → List (Change × Watcher σ)
  | reacting c => b.watcherCalls c
  | watching c waiting => waiting.map (c, ·)

namespace Writes

/-- The hooks of a state that are in the queue or yet to be deferred. -/
def hooksOwed (b : Behavior σ) (v : Writes σ) : List Change :=
  v.queued ++ v.opened.flatMap (·.hooksOwed b)

/-- The watchers of a state that are yet to be called. -/
def watchersOwed (b : Behavior σ) (v : Writes σ) : List (Change × Watcher σ) :=
  v.opened.flatMap (·.watchersOwed b)

end Writes

/-- What was done between two moments, with what is owed at the second, makes up for what was owed
at the first and the effective writes. -/
structure Balance (b : Behavior σ) (v : Writes σ) (t : List (StateEvent σ))
    (v' : Writes σ) : Prop where
  hooks : (handled t ++ v'.hooksOwed b).Perm (v.hooksOwed b ++ (effective t).flatMap b.hookCalls)
  watchers : (watched t ++ v'.watchersOwed b).Perm
    (v.watchersOwed b ++ (effective t).flatMap b.watcherCalls)

/-- Every move is in balance. -/
theorem Notify.balance {b : Behavior σ} {v v' : Writes σ} {e : List (StateEvent σ)}
    (h : Notify b v e v') : Balance b v e v' := by
  cases h with
  | rest => exact ⟨by simp [handled, effective], by simp [watched, effective]⟩
  | silent path =>
    exact ⟨by simp [handled, effective, StateEvent.handled?, StateEvent.effective?],
      by simp [watched, effective, StateEvent.watched?, StateEvent.effective?]⟩
  | @write o q c =>
    constructor
    · -- What the new write owes stands in front of what the older ones owe.
      simp only [handled, effective, StateEvent.handled?, StateEvent.effective?, Writes.hooksOwed,
        List.filterMap_cons, List.filterMap_nil, List.flatMap_cons, List.flatMap_nil,
        List.nil_append, List.append_nil, List.append_assoc, OpenWrite.hooksOwed]
      exact List.perm_append_comm.append_left _
    · simp only [watched, effective, StateEvent.watched?, StateEvent.effective?,
        Writes.watchersOwed,
        List.filterMap_cons, List.filterMap_nil, List.flatMap_cons, List.flatMap_nil,
        List.nil_append, List.append_nil, OpenWrite.watchersOwed]
      exact List.perm_append_comm
  | react c =>
    cases hh : b.hook?.isSome <;>
      exact ⟨by simp [hh, handled, effective, StateEvent.handled?, StateEvent.effective?,
          Writes.hooksOwed, OpenWrite.hooksOwed, Behavior.hookCalls],
        by simp [watched, effective, StateEvent.watched?, StateEvent.effective?,
          Writes.watchersOwed, OpenWrite.watchersOwed, Behavior.map_watchersOf]⟩
  | watch c watcher waiting =>
    exact ⟨by simp [handled, effective, StateEvent.handled?, StateEvent.effective?,
      Writes.hooksOwed, OpenWrite.hooksOwed],
      by simp [watched, effective, StateEvent.watched?, StateEvent.effective?, Writes.watchersOwed,
        OpenWrite.watchersOwed]⟩
  | settle c =>
    exact ⟨by simp [handled, effective, StateEvent.handled?, StateEvent.effective?,
      Writes.hooksOwed, OpenWrite.hooksOwed],
      by simp [watched, effective, StateEvent.watched?, StateEvent.effective?, Writes.watchersOwed,
        OpenWrite.watchersOwed]⟩
  | hook c | drop c =>
    exact ⟨by simp [handled, effective, StateEvent.handled?, StateEvent.effective?,
      Writes.hooksOwed],
      by simp [watched, effective, StateEvent.watched?, StateEvent.effective?, Writes.watchersOwed]⟩

/-- What is done and owed adds up. -/
theorem perm_of_balances {α : Type} {done done' owed owed' due due' : List α}
    (h : (done ++ owed).Perm due) (h' : (done' ++ owed').Perm (owed ++ due')) :
    (done ++ done' ++ owed').Perm (due ++ due') := by
  -- What was owed is replaced by what was done since and is owed now.
  have hdone : (done ++ done' ++ owed').Perm (done ++ owed ++ due') := by
    rw [List.append_assoc, List.append_assoc]
    exact h'.append_left done
  exact hdone.trans (h.append_right due')

/-- Balance adds up over moves. -/
theorem Balance.append {b : Behavior σ} {v v' v'' : Writes σ} {t e : List (StateEvent σ)}
    (h : Balance b v t v') (h' : Balance b v' e v'') : Balance b v (t ++ e) v'' := by
  have heff : effective (t ++ e) = effective t ++ effective e := List.filterMap_append
  constructor
  case hooks =>
    rw [heff, List.flatMap_append, ← List.append_assoc, handled, List.filterMap_append]
    exact perm_of_balances h.hooks h'.hooks
  case watchers =>
    rw [heff, List.flatMap_append, ← List.append_assoc, watched, List.filterMap_append]
    exact perm_of_balances h.watchers h'.watchers

namespace Machine

/-! ## Every run -/

/-- Every run is in balance. -/
theorem balance_run {w : World σ} {state : StateId} (hq : ∀ c, Task.hook state c ∉ w.queue)
    (script : Script σ) (n : Nat) :
    Balance (w.behavior state) ⟨[], []⟩ (atState state (trace n ⟨w, [.run script]⟩))
      ((run n ⟨w, [.run script]⟩).writes state) := by
  induction n with
  | zero =>
    rw [show run 0 ⟨w, [.run script]⟩ = ⟨w, [.run script]⟩ from rfl, writes_start hq]
    exact (Notify.rest _).balance
  | succ n ih =>
    have hmove := (notify_step (run n ⟨w, [.run script]⟩) state).move
    rw [behavior_run] at hmove
    rw [trace_succ, run_succ_step, atState, List.filterMap_append]
    exact ih.append hmove.balance

/-! ### What the trace tells is done -/

/-- How a write to a state is answered: what becomes of the tree, what the trace tells of it, and
what its script goes on with. -/
inductive Answered (state : StateId) (path : Path) (v : Value)
    (next : Except PathError Bool → Script σ) (below : List (Frame σ)) (m : Machine σ) : Prop
  /-- A write that is refused does nothing, and nothing is told of it. -/
  | refused (e : PathError) (plain : path.set (m.world.data state) v = .error e)
      (told : m.events = []) (reply : m.step = ⟨m.world, .run (next (.error e)) :: below⟩)
  | silent (tree : Value) (unchanged : path.write (m.world.data state) v = .ok (tree, none))
      (stored : m.step.world.data state = tree)
      (told : m.events = [.state state (.wrote path none)])
      (reply : m.step.stack = .run (next (.ok false)) :: below)
  /-- The change has the path, the value replaced and the value written. A delivery is begun unless
  one is in progress. -/
  | effective (previous tree : Value) (above : List (Frame σ))
      (delivery : above = if (m.world.subject (.state state)).delivering then []
        else [.deliver (.state state) none []])
      (plain : path.set (m.world.data state) v = .ok (previous, tree))
      (stored : m.step.world.data state = tree)
      (told : m.events = [.state state (.wrote path (some ⟨path, previous, v⟩)),
        .subject (.state state) (.emitted (.change ⟨path, previous, v⟩))])
      (reply : m.step.stack =
        above ++ .react state ⟨path, previous, v⟩ :: .run (next (.ok true)) :: below)

private theorem answered_set {m : Machine σ} {state : StateId} {path : Path} {v : Value}
    {next : Except PathError Bool → Script σ} {below : List (Frame σ)}
    (hs : state < m.world.states.length)
    (h : m.stack = .run (.set state path v next) :: below) :
    Answered state path v next below m := by
  obtain ⟨w, stack⟩ := m
  obtain rfl : stack = .run (.set state path v next) :: below := h
  have hstep : step ⟨w, .run (.set state path v next) :: below⟩ =
      perform w below (.set state path v next) := rfl
  have hevents : events ⟨w, .run (.set state path v next) :: below⟩ =
      scriptEvents w (.set state path v next) := rfl
  obtain ⟨e, hr⟩ | ⟨tree, hwrite, hr⟩ | ⟨tree, c, hwrite, hr⟩ := w.assign_cases state path v
  · have hplain : path.write (w.data state) v = .error e := by
      unfold World.assign at hr
      split at hr
      · next e' he =>
        cases hr
        exact he
      · next change? _ => cases change? <;> cases hr
    exact .refused e (Path.write_eq_error_iff.1 hplain)
      (hevents.trans (scriptEvents_set_refused hr)) (hstep.trans (perform_set_refused hr below))
  · refine .silent tree hwrite ?_ (hevents.trans (scriptEvents_set_silent hr)) ?_
    · rw [hstep, perform_set_silent hr]
      exact World.data_modifyState_self hs tree
    · rw [hstep, perform_set_silent hr]
  · obtain ⟨slot, hslot, rfl, rfl, -⟩ := Path.write_effective hwrite
    have hplain : path.set (w.data state) v = .ok (slot.content, slot.fill v) := by
      simp [Path.set, hslot, bind, Except.bind, pure, Except.pure]
    refine .effective _ _ _ rfl hplain ?_ (hevents.trans (scriptEvents_set_effective hr)) ?_
    · -- Whether a delivery is begun or not, the tree is the one written.
      rw [hstep, perform_set_effective hr]
      obtain ⟨s, he | he⟩ := emit_cases _ (.react state _ :: .run (next (.ok true)) :: below)
        (.state state) (.change ⟨path, slot.content, v⟩) <;>
      · rw [he, World.data_putSubject, World.data_write]
        exact World.data_modifyState_self hs _
    · have hsubject := World.subject_assign (w := w) state path v (.state state)
      rw [hr] at hsubject
      rw [hstep, perform_set_effective hr, stack_emit, hsubject]

/-- In the first `n` steps writes to a state are answered, and its subscribers, its watchers and its
hook are called, as the trace tells and not otherwise. -/
structure ReactionsMade (state : StateId) (start : Machine σ) (n : Nat) : Prop where
  subscribers : CallsMade (.state state) start n
  answered : ∀ k < n, ∀ path v next below,
    (run k start).stack = .run (.set state path v next) :: below →
      Answered state path v next below (run k start)
  /-- Only writes are told as writes. -/
  wrote : ∀ k < n, ∀ path change?, .state state (.wrote path change?) ∈ (run k start).events →
    ∃ v next below, (run k start).stack = .run (.set state path v next) :: below
  /-- Only writes change the tree. -/
  kept : ∀ k < n, (∀ path v next below,
      (run k start).stack ≠ .run (.set state path v next) :: below) →
    (run (k + 1) start).world.data state = (run k start).world.data state
  /-- A watcher is called with the value replaced and the new value. -/
  watched : ∀ k < n, ∀ c watcher, .state state (.watched c watcher) ∈ (run k start).events →
    ∃ waiting below, (run (k + 1) start).stack =
      .run (watcher state c.previous c.current) :: .mark (.watcher state c.path)
        :: .watch state c waiting :: below
  /-- The hook is called with the change. -/
  hooked : ∀ k < n, ∀ c, .state state (.hooked c) ∈ (run k start).events →
    ∃ hook ran next below, (start.world.behavior state).hook? = some hook ∧
      (run (k + 1) start).stack =
        .run (hook state c) :: .mark (.hook state c) :: .drain ran next :: below
  /-- Every call of a watcher that has not come to its end is one that the trace tells of. -/
  watchers : ∀ path rest, .mark (.watcher state path) :: rest <:+ (run n start).stack →
    ∃ k < n, (∃ c watcher, c.path = path ∧ .state state (.watched c watcher) ∈
      (run k start).events) ∧ (run (k + 1) start).stack.tail = .mark (.watcher state path) :: rest
  /-- So is every call of a hook. -/
  hooks : ∀ c rest, .mark (.hook state c) :: rest <:+ (run n start).stack →
    ∃ k < n, .state state (.hooked c) ∈ (run k start).events ∧
      (run (k + 1) start).stack.tail = .mark (.hook state c) :: rest

/-- What is told as a write to a state is one. -/
private theorem set_of_wrote {m : Machine σ} {state : StateId} {path : Path}
    {change? : Option Change} (h : .state state (.wrote path change?) ∈ m.events) :
    ∃ v next below, m.stack = .run (.set state path v next) :: below := by
  have harises := arises_of_mem_events h
  obtain ⟨w, stack⟩ := m
  cases harises with
  | silent _ => exact ⟨_, _, _, rfl⟩
  | write _ => exact ⟨_, _, _, rfl⟩

theorem reactionsMade_run (w : World σ) (script : Script σ) (state : StateId)
    (hnamed : ∀ k, (run k ⟨w, [.run script]⟩).world.HasSource (.state state)) (n : Nat) :
    ReactionsMade state ⟨w, [.run script]⟩ n where
  subscribers := callsMade_run w script (.state state) n
  answered k _ path v next below h := answered_set (hnamed k) h
  wrote k _ path change? h := set_of_wrote h
  kept k _ hnot := by
    rw [run_succ_step]
    obtain ⟨hkept, -⟩ | ⟨path, v, tree, change?, -, -, he⟩ := data_step _ (hnamed k)
    · exact hkept
    · have hwrote : .wrote path change? ∈ atState state (run k ⟨w, [.run script]⟩).events :=
        he ▸ List.mem_singleton_self _
      obtain ⟨v', next, below, hstack⟩ := set_of_wrote (mem_of_mem_atState hwrote)
      exact absurd hstack (hnot _ _ _ _)
  watched k _ c watcher h := by
    obtain ⟨waiting, below, -, hstep⟩ := step_of_watched h
    exact ⟨waiting, below, by rw [run_succ_step, hstep]⟩
  hooked k _ c h := by
    obtain ⟨hook, queue, ran, next, below, -, -, hset, hstep⟩ := step_of_hooked h
    rw [behavior_run] at hset
    exact ⟨hook, ran + 1, next, below, hset, by rw [run_succ_step, hstep]⟩
  watchers path rest h := by
    obtain ⟨k, hk, hcall, _, _, _, _, _, _, hstep, _⟩ := exists_call_of_mark h
    exact ⟨k, hk, event_of_call_watcher hcall, by rw [hstep]; rfl⟩
  hooks c rest h := by
    obtain ⟨k, hk, hcall, _, _, _, _, _, _, hstep, _⟩ := exists_call_of_mark h
    exact ⟨k, hk, event_of_call_hook hcall, by rw [hstep]; rfl⟩

/-- When all calls have returned and the queue is empty, every effective write to a state that was
alive all the time has been notified once on every channel, whatever the scripts did that were
called. The calls are made as they are told, by the callbacks that were registered and with the
changes written. -/
theorem notified_once (w : World σ) (state : StateId) (hw : w.HasSource (.state state))
    (hi : (w.subject (.state state)).Idle) (hn : (w.subject (.state state)).Numbered)
    (hq : ∀ c, Task.hook state c ∉ w.queue) (script : Script σ) (n : Nat)
    (hdone : (run n ⟨w, [.run script]⟩).stack = [])
    (hdrained : (run n ⟨w, [.run script]⟩).world.queue = [])
    (halive : ∀ k < n,
      isAlive (run k ⟨w, [.run script]⟩).world (run k ⟨w, [.run script]⟩).stack state) :
    NotifiedOnce (w.subject (.state state)) (w.behavior state)
        (atSubject (.state state) (trace n ⟨w, [.run script]⟩))
        (atState state (trace n ⟨w, [.run script]⟩)) ∧
      ReactionsMade state ⟨w, [.run script]⟩ n := by
  have hrun := balance_run hq script n
  have hserv := (serving_run hw hi hn script n).2
  have hnamed k := (serving_run hw hi hn script k).1.named
  refine ⟨?_, reactionsMade_run w script state hnamed n⟩
  constructor
  case subscribers =>
    intro sub hsub hleft
    rw [hserv.callsTo_eq (by simp [service, hdone, deliveryOn]) hsub hleft,
      emissions_run, List.map_map]
    rfl
  case hook =>
    have hperm := hrun.hooks
    simp only [Writes.hooksOwed, writes, hdone, hdrained, List.filterMap_nil, List.flatMap_nil,
      List.append_nil, List.nil_append] at hperm
    cases hh : (w.behavior state).hook? with
    | none =>
      -- Without a hook nothing is asked for, so nothing was run.
      have hno : (effective (atState state (trace n ⟨w, [.run script]⟩))).flatMap
          (w.behavior state).hookCalls = [] := by
        simp [Behavior.hookCalls, hh]
      rw [hno] at hperm ⊢
      have hnil : hooked (atState state (trace n ⟨w, [.run script]⟩)) = [] :=
        List.eq_nil_iff_forall_not_mem.2 fun c hc => by
          have hmem := handled_of_mem_hooked hc
          rw [hperm.eq_nil] at hmem
          cases hmem
      rw [hnil]
    | some hook =>
      -- With a hook, all that left the queue was run and not dropped.
      have hnot : ∀ c, StateEvent.dropped c ∉ atState state (trace n ⟨w, [.run script]⟩) := by
        intro c hc
        obtain ⟨k, hk, hek⟩ := mem_trace (mem_of_mem_atState hc)
        -- The hook is set all along, and the state is alive when the hook leaves the queue.
        rcases dropped_of_mem_events hek with hnone | hdead
        · rw [behavior_run, hh] at hnone
          cases hnone
        · rw [halive k hk] at hdead
          cases hdead
      rw [hooked_eq_handled hnot]
      exact hperm
  case watchers =>
    have hperm := hrun.watchers
    simpa only [Writes.watchersOwed, writes, hdone, List.filterMap_nil, List.flatMap_nil,
      List.append_nil, List.nil_append] using hperm

/-- A state whose subscriber, watcher and hook write what they are called with to it again. -/
def chatty : State Unit where
  data := .empty
  changes :=
    { subscribers := [⟨0, fun
        | some (.change c) => .set 0 ⟨["answer"]⟩ c.current fun _ => .done
        | _ => .done⟩]
      nextId := 1 }
  behavior :=
    { watchers := [(⟨["answer"]⟩, fun s previous current =>
        .set s ⟨["seen"]⟩ (if previous == .null then current else previous) fun _ => .done)]
      hook? := some fun s c => .set s ⟨["logged"]⟩ c.current fun _ => .done }

theorem notified_once_chatty :
    let w : World Unit := { memory := (), states := [chatty] }
    let script : Script Unit :=
      .set 0 ⟨["question"]⟩ (.integer 7) fun _ => .runPending fun _ => .done
    let m := run 60 ⟨w, [.run script]⟩
    (effective (atState 0 (trace 60 ⟨w, [.run script]⟩))).length = 4 ∧
      (m.world.data 0 == .object [("answer", .integer 7), ("logged", .integer 7),
        ("question", .integer 7), ("seen", .integer 7)]) = true ∧
      NotifiedOnce (w.subject (.state 0)) (w.behavior 0)
        (atSubject (.state 0) (trace 60 ⟨w, [.run script]⟩))
        (atState 0 (trace 60 ⟨w, [.run script]⟩)) ∧
      ReactionsMade 0 ⟨w, [.run script]⟩ 60 := by
  intro w script m
  have hdone : (run 60 ⟨w, [.run script]⟩).stack = [] := List.isEmpty_iff.1 (by decide +kernel)
  have hdrained : (run 60 ⟨w, [.run script]⟩).world.queue = [] :=
    List.isEmpty_iff.1 (by decide +kernel)
  exact ⟨by decide +kernel, by decide +kernel, notified_once w 0 (show 0 < 1 by decide) ⟨rfl, rfl⟩
    ⟨by decide, by decide⟩ (fun c h => by cases h) script 60 hdone hdrained (by decide +kernel)⟩

end Machine

end ReactiveMarkup
