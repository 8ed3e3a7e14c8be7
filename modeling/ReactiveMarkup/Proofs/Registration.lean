-- SUMMARY: Numbers of callbacks are given out once, and who is called was in line or registered.
import ReactiveMarkup.Proofs.Trace
import ReactiveMarkup.Proofs.World

/-!
# Registered callbacks

Listeners and subscribers get numbers when they are registered, and no number is given out twice.
`World.Follows` says so of two worlds of which one came out of the other. A callback is called
because its turn has come in a dispatch or a delivery, which has those in line that were registered
when it began. `Machine.step_advance` is the analysis of one step to this effect, and what runs do
to callbacks is read off it.
-/

namespace ReactiveMarkup

variable {σ : Type}

/-! ## Worlds that come out of others -/

namespace World

/-- The callbacks of the later world were registered in the earlier one, or have got numbers
since. -/
structure Follows (w w' : World σ) : Prop where
  nextListener_le : w.nextListener ≤ w'.nextListener
  listeners : ∀ l ∈ w'.listeners, l ∈ w.listeners ∨ w.nextListener ≤ l.id ∧ l.id < w'.nextListener
  nextId_le : ∀ source, (w.subject source).nextId ≤ (w'.subject source).nextId
  subscribers : ∀ source, ∀ sub ∈ (w'.subject source).subscribers,
    sub ∈ (w.subject source).subscribers ∨ (w.subject source).nextId ≤ sub.id

namespace Follows

variable {w w' w'' : World σ}

theorem of_eq (hl : w'.listeners = w.listeners) (hn : w'.nextListener = w.nextListener)
    (hs : ∀ source, w'.subject source = w.subject source) : w.Follows w' where
  nextListener_le := Nat.le_of_eq hn.symm
  listeners _ hmem := .inl (hl ▸ hmem)
  nextId_le source := Nat.le_of_eq (hs source ▸ rfl)
  subscribers source _ hsub := .inl (hs source ▸ hsub)

theorem refl (w : World σ) : w.Follows w := of_eq rfl rfl fun _ => rfl

theorem trans (h : w.Follows w') (h' : w'.Follows w'') : w.Follows w'' where
  nextListener_le := Nat.le_trans h.nextListener_le h'.nextListener_le
  listeners l hmem := by
    obtain hmem | ⟨hge, hlt⟩ := h'.listeners l hmem
    · exact (h.listeners l hmem).imp_right fun ⟨hge, hlt⟩ =>
        ⟨hge, Nat.lt_of_lt_of_le hlt h'.nextListener_le⟩
    · exact .inr ⟨Nat.le_trans h.nextListener_le hge, hlt⟩
  nextId_le source := Nat.le_trans (h.nextId_le source) (h'.nextId_le source)
  subscribers source sub hsub := by
    obtain hsub | hge := h'.subscribers source sub hsub
    · exact h.subscribers source sub hsub
    · exact .inr (Nat.le_trans (h.nextId_le source) hge)

/-- A subject may lose subscribers and get others, as long as it goes on counting. -/
theorem putSubject {source : SubjectId} {s : Subject σ} (hid : (w.subject source).nextId ≤ s.nextId)
    (hsub : ∀ sub ∈ s.subscribers,
      sub ∈ (w.subject source).subscribers ∨ (w.subject source).nextId ≤ sub.id) :
    w.Follows (w.putSubject source s) := by
  have hworld : (w.putSubject source s).listeners = w.listeners ∧
      (w.putSubject source s).nextListener = w.nextListener := by
    cases source <;> exact ⟨rfl, rfl⟩
  -- A source that names no subject reads back as before.
  have hsubject : ∀ other, (w.putSubject source s).subject other = w.subject other ∨
      other = source ∧ (w.putSubject source s).subject other = s := by
    intro other
    by_cases ho : other = source
    · subst ho
      by_cases hs : w.HasSource other
      · exact .inr ⟨rfl, subject_putSubject_self hs s⟩
      · exact .inl (subject_putSubject_of_not hs s)
    · exact .inl (subject_putSubject_of_ne ho s)
  refine ⟨Nat.le_of_eq hworld.2.symm, fun l hl => .inl (hworld.1 ▸ hl), fun other => ?_,
    fun other => ?_⟩
  · obtain he | ⟨rfl, he⟩ := hsubject other
    · exact Nat.le_of_eq (by rw [he])
    · rwa [he]
  · obtain he | ⟨rfl, he⟩ := hsubject other
    · rw [he]
      exact fun sub => .inl
    · rwa [he]

theorem register (source : SubjectId) (callback : Option Notice → Script σ) :
    w.Follows (w.register source callback).2 := by
  refine putSubject (Nat.le_succ _) fun sub hsub => ?_
  rcases List.mem_append.1 hsub with hold | hnew
  · exact .inl hold
  · obtain rfl := List.mem_singleton.1 hnew
    exact .inr (Nat.le_refl _)

theorem unsubscribe (source : SubjectId) (id : Nat) : w.Follows (w.unsubscribe source id) :=
  putSubject (Nat.le_refl _) fun _ hsub => .inl (List.mem_filter.1 hsub).1

theorem listen (node : NodeId) (event : String) (owner : Option StateId) (callback : Script σ) :
    w.Follows (w.listen node event owner callback).2 where
  nextListener_le := Nat.le_succ _
  listeners l hl := by
    rcases List.mem_append.1 hl with hold | hnew
    · exact .inl hold
    · obtain rfl := List.mem_singleton.1 hnew
      exact .inr ⟨Nat.le_refl _, Nat.lt_succ_self _⟩
  nextId_le source := Nat.le_of_eq (by rw [subject_listen])
  subscribers source sub hsub := .inl (by rwa [subject_listen] at hsub)

theorem unlisten (id : ListenerId) : w.Follows (w.unlisten id) where
  nextListener_le := Nat.le_refl _
  listeners l hl := .inl (List.mem_filter.1 hl).1
  nextId_le source := Nat.le_of_eq (by rw [subject_unlisten])
  subscribers source sub hsub := .inl (by rwa [subject_unlisten] at hsub)

theorem retain (state : StateId) : w.Follows (w.retain state) :=
  of_eq rfl rfl (subject_retain state)

theorem release (state : StateId) : w.Follows (w.release state) :=
  of_eq rfl rfl (subject_release state)

theorem memory (memory : σ) : w.Follows { w with memory } :=
  of_eq rfl rfl fun source => by cases source <;> rfl

theorem queue (queue : List (Task σ)) : w.Follows { w with queue } :=
  of_eq rfl rfl fun source => by cases source <;> rfl

theorem log (log : Log) : w.Follows { w with log } :=
  of_eq rfl rfl fun source => by cases source <;> rfl

theorem document (document : Document) : w.Follows { w with document } :=
  of_eq rfl rfl fun source => by cases source <;> rfl

theorem write (entry : Entry) : w.Follows (w.write entry) := of_eq rfl rfl (subject_write entry)

theorem defer (task : Task σ) : w.Follows (w.defer task) := of_eq rfl rfl (subject_defer task)

theorem edit (e : Edit) : w.Follows (w.edit e).2 := by
  unfold World.edit
  split
  · exact refl w
  · exact document _

theorem assign (state : StateId) (path : Path) (v : Value) : w.Follows
    (w.assign state path v).2 := by
  have hlisteners : (w.assign state path v).2.listeners = w.listeners ∧
      (w.assign state path v).2.nextListener = w.nextListener := by
    unfold World.assign
    split
    · exact ⟨rfl, rfl⟩
    · next tree change? _ => cases change? <;> exact ⟨rfl, rfl⟩
  exact of_eq hlisteners.1 hlisteners.2 (subject_assign state path v)

theorem releaseAll (instances : List Instance) : w.Follows (w.releaseAll instances) :=
  releaseAll_preserves (P := w.Follows)
    (fun _ state id h => h.trans (unsubscribe (.state state) id))
    (fun _ id h => h.trans (unlisten id)) (fun _ state h => h.trans (release state)) instances
      (refl w)

theorem unmount (md : Module) : w.Follows (w.unmount md) :=
  (write _).trans (releaseAll md.instances)

/-- A new state has nobody subscribed to it, which is how it read before. -/
theorem newState (data : Value) (behavior : Behavior σ) : w.Follows
    (w.newState data behavior).2 := by
  refine of_eq rfl rfl fun source => ?_
  cases source with
  | own number => rfl
  | state s =>
    rcases Nat.lt_or_ge s w.states.length with hlt | hge
    · simp [World.newState, subject, List.getElem?_append_left hlt]
    · simp only [World.newState, subject, List.getElem?_append_right hge, List.getElem?_eq_none hge]
      cases s - w.states.length <;> rfl

theorem newSubject : w.Follows w.newSubject.2 := by
  refine of_eq rfl rfl fun source => ?_
  cases source with
  | own number =>
    rcases Nat.lt_or_ge number w.subjects.length with hlt | hge
    · simp [World.newSubject, subject, List.getElem?_append_left hlt]
    · simp only [World.newSubject, subject, List.getD_eq_getElem?_getD,
        List.getElem?_append_right hge, List.getElem?_eq_none hge]
      cases number - w.subjects.length <;> rfl
  | state s => rfl

end Follows

/-- The callback is registered. -/
def Registers (w : World σ) : Callee → Prop
  | .listener id _ => ∃ l ∈ w.listeners, l.id = id
  | .subscriber source id => ∃ sub ∈ (w.subject source).subscribers, sub.id = id
  | .watcher _ _ | .hook _ _ | .task => False

end World

/-! ## What is in line -/

/-- Whether the callee is called because it was registered. -/
def Callee.isRegistered : Callee → Bool
  | subscriber _ _ | listener _ _ => true
  | watcher _ _ | hook _ _ | task => false

/-- The callbacks that wait for their turn in a dispatch or a delivery. -/
def Frame.line : Frame σ → List Callee
  | deliver source _ waiting => waiting.map fun sub => .subscriber source sub.id
  | dispatch waiting _ _ => waiting.map fun l => .listener l.id l.owner
  | run _ | mark _ | react _ _ | watch _ _ _ | drain _ _ => []

namespace Machine

/-- The callbacks that wait for their turn, those of the innermost dispatch or delivery first. -/
def line (m : Machine σ) : List Callee := m.stack.flatMap Frame.line

/-- The callee whose callback the next step starts. -/
def call? (m : Machine σ) : Option Callee :=
  match m.stack with
  | .run (.subscribe source _ _) :: _ => some (.subscriber source (m.world.subject source).nextId)
  | .deliver source _ (s :: _) :: _ => some (.subscriber source s.id)
  | .watch state c (_ :: _) :: _ => some (.watcher state c.path)
  | .drain _ _ :: _ =>
    match m.world.queue with
    | .script _ :: _ => some .task
    | .hook state c :: _ =>
      if (m.world.behavior state).hook?.isSome && isAlive m.world m.stack state then some
        (.hook state c)
      else none
    | [] => none
  | .dispatch (l :: _) _ _ :: stack =>
    if isCalled stack l.id then none else some (.listener l.id l.owner)
  | _ => none

/-- What becomes of the line in a step, and who is called. -/
inductive Turn (w : World σ) : (line line' : List Callee) → Option Callee → Prop
  /-- A dispatch or a delivery begins. -/
  | round {fresh line : List Callee} (registered : ∀ c ∈ fresh, w.Registers c) : Turn w line
      (fresh ++ line) none
  | call {c : Callee} {line : List Callee} : Turn w (c :: line) line (some c)
  /-- A listener is passed over. -/
  | skip {c : Callee} {line : List Callee} : Turn w (c :: line) line none
  /-- A subscriber is called as it joins. -/
  | join (source : SubjectId) {line : List Callee} :
      Turn w line line (some (.subscriber source (w.subject source).nextId))
  | other {c : Callee} {line : List Callee} (h : c.isRegistered = false) : Turn w line line (some c)

theorem Turn.idle {w : World σ} {line : List Callee} : Turn w line line none :=
  @Turn.round _ w [] line nofun

theorem Turn.begin {w : World σ} {fresh : List Callee} (registered : ∀ c ∈ fresh, w.Registers c) :
    Turn w [] fresh none := by
  simpa using @Turn.round _ w fresh [] registered

theorem Turn.append {w : World σ} {line line' : List Callee} {call : Option Callee}
    (h : Turn w line line' call) (rest : List Callee) : Turn w (line ++ rest)
    (line' ++ rest) call := by
  cases h with
  | round registered =>
    rw [List.append_assoc]
    exact .round registered
  | call => exact .call
  | skip => exact .skip
  | join source => exact .join source
  | other h => exact .other h

/-! ## One step -/

/-- A step takes the innermost frame off the stack and puts others there. Those that a call begins
with are marked. -/
def Advance (w : World σ) (f : Frame σ) (stack : List (Frame σ)) (call : Option Callee)
    (m : Machine σ) : Prop :=
  ∃ w' pushed, m = ⟨w', pushed ++ stack⟩ ∧ w.Follows w' ∧
  Turn w f.line (pushed.flatMap Frame.line) call ∧ ∀ c, .mark c ∈ pushed → call = some c

variable {w : World σ} {stack : List (Frame σ)}

/-- Emitting takes nobody in line. The delivery that it may begin has to begin a notice first. -/
private theorem emit_advance (w : World σ) (stack : List (Frame σ)) (source : SubjectId)
    (n : Notice) : ∃ w' pushed, emit w stack source n = ⟨w', pushed ++ stack⟩ ∧ w.Follows w' ∧
      (pushed = [] ∨ pushed = [.deliver source none []]) := by
  unfold emit
  cases hd : ((w.subject source).enqueue n).delivering with
  | true =>
    simp only [hd, if_true]
    exact ⟨_, [], rfl, .putSubject (Nat.le_refl _) fun _ => .inl, .inl rfl⟩
  | false =>
    simp only [hd, Bool.false_eq_true, if_false]
    refine ⟨_, [.deliver source none []], rfl, .putSubject ?_ ?_, .inr rfl⟩
    · exact Nat.le_refl _
    · exact fun _ => .inl

private theorem perform_advance (w : World σ) (stack : List (Frame σ)) (script : Script σ) :
    Advance w (.run script) stack (call? ⟨w, .run script :: stack⟩) (perform w stack script) := by
  have hrun {w' : World σ} (hw : w.Follows w') (next : Script σ) :
      Advance w (.run script) stack none ⟨w', .run next :: stack⟩ :=
    ⟨w', [.run next], rfl, hw, .idle, fun c hc => by simp at hc⟩
  have hemit {w' : World σ} (hw : w.Follows w') (below : List (Frame σ))
    (hline : below.flatMap Frame.line = [])
      (hmark : ∀ c, .mark c ∉ below) (source : SubjectId) (n : Notice) :
      Advance w (.run script) stack none (emit w' (below ++ stack) source n) := by
    obtain ⟨w'', pushed, he, hw', hpushed⟩ := emit_advance w' (below ++ stack) source n
    refine ⟨w'', pushed ++ below, by rw [he, List.append_assoc], hw.trans hw', ?_, fun c hc => ?_⟩
    · rcases hpushed with rfl | rfl <;> simpa [hline, Frame.line] using Turn.idle
    · rcases hpushed with rfl | rfl <;> simp [hmark] at hc
  cases script with
  | done => exact ⟨w, [], rfl, .refl w, .idle, nofun⟩
  | log entry next => exact hrun (.write entry) next
  | readMemory next => exact hrun (.refl w) _
  | writeMemory memory next => exact hrun (.memory memory) next
  | readState state next => exact hrun (.refl w) _
  | set state path v next =>
    rcases hr : w.assign state path v with ⟨result, w'⟩
    have hassign : w.Follows w' := by
      have hw := World.Follows.assign (w := w) state path v
      rwa [hr] at hw
    rcases result with e | _ | c
    · rw [perform_set_refused hr]
      exact hrun hassign _
    · rw [perform_set_silent hr]
      exact hrun hassign _
    · rw [perform_set_effective hr]
      exact hemit hassign [.react state c, .run (next (.ok true))] rfl (by simp) _ _
  | retain state next => exact hrun (.retain state) next
  | release state next => exact hrun (.release state) next
  | readSubject source next => exact hrun (.refl w) _
  | subscribe source callback next =>
    refine ⟨_, [.run (callback _), .mark (.subscriber source (w.subject source).nextId),
      .run (next (w.subject source).nextId)], rfl, .register source callback, .join source,
        fun c hc => ?_⟩
    simp only [List.mem_cons, Frame.mark.injEq, reduceCtorEq, List.not_mem_nil, or_false,
      false_or] at hc
    rw [hc]
    rfl
  | unsubscribe source id next => exact hrun (.unsubscribe source id) next
  | emit number v next => exact hemit (.refl w) [.run next] rfl (by simp) _ _
  | defer task next => exact hrun (.defer _) next
  | runPending next => exact ⟨w, [.drain 0 next], rfl, .refl w, .idle, fun c hc => by simp at hc⟩
  | pending next => exact hrun (.refl w) _
  | readDocument next => exact hrun (.refl w) _
  | edit e next => exact hrun (.edit e) _
  | listen node event callback next => exact hrun (.listen node event none callback) _
  | unlisten id next => exact hrun (.unlisten id) next
  | listeners node next => exact hrun (.refl w) _
  | dispatch node event next =>
    refine ⟨w, [.dispatch (w.listenersFor node event) 0 next], rfl, .refl w, ?_,
      fun c hc => by simp at hc⟩
    rw [List.flatMap_singleton]
    refine .begin fun c hc => ?_
    obtain ⟨l, hl, rfl⟩ := List.mem_map.1 hc
    exact ⟨l, (List.mem_filter.1 (List.mem_filter.1 hl).1).1, rfl⟩
  | unmount md next => exact hrun (.unmount md) next

private theorem deliver_advance (w : World σ) (stack : List (Frame σ)) (source : SubjectId)
    (notice : Option Notice) (waiting : List (Subscriber σ)) :
    Advance w (.deliver source notice waiting) stack
      (call? ⟨w, .deliver source notice waiting :: stack⟩)
      (deliver w stack source notice waiting) := by
  match waiting with
  | s :: waiting =>
    refine ⟨w, [.run (s.callback notice), .mark (.subscriber source s.id),
      .deliver source notice waiting], rfl, .refl w, ?_, fun c hc => ?_⟩
    · simpa [Frame.line, call?] using Turn.call
    · simp only [List.mem_cons, Frame.mark.injEq, reduceCtorEq, List.not_mem_nil, or_false,
        false_or] at hc
      rw [hc]
      rfl
  | [] =>
    obtain ⟨n, _, s, _, rfl, hd, _⟩ | ⟨_, hd, _⟩ := deliver_nil_cases w stack source notice
    · rw [hd]
      refine ⟨_, [.deliver source (some n) _], rfl, .putSubject (Nat.le_refl _) fun _ => .inl, ?_,
        fun c hc => by simp at hc⟩
      rw [List.flatMap_singleton, call?]
      refine .begin fun c hc => ?_
      obtain ⟨sub, hsub, rfl⟩ := List.mem_map.1 hc
      exact ⟨sub, hsub, rfl⟩
    · rw [hd]
      exact ⟨_, [], rfl, .putSubject (Nat.le_refl _) fun _ => .inl, .idle, nofun⟩

private theorem drain_advance (w : World σ) (stack : List (Frame σ)) (ran : Nat)
    (next : Nat → Script σ) :
    Advance w (.drain ran next) stack (call? ⟨w, .drain ran next :: stack⟩)
      (drain w stack ran next) := by
  obtain ⟨hq, hd, _⟩ | ⟨script, queue, hq, hd, _⟩ | ⟨state, c, hook, queue, hq, hb, ha, hd, _⟩ |
    ⟨state, c, queue, hq, hnot, hd, _⟩ := drain_cases w stack ran next
  · rw [hd]
    refine ⟨w, [.run (next ran)], rfl, .refl w, ?_, fun c hc => by simp at hc⟩
    simpa [call?, hq, Frame.line] using Turn.idle
  · rw [hd]
    refine ⟨_, [.run script, .mark .task, .drain (ran + 1) next], rfl, .queue queue, ?_,
      fun c hc => ?_⟩
    · simpa [call?, hq, Frame.line] using Turn.other rfl
    · simp_all [call?]
  · rw [hd]
    refine ⟨_, [.run (hook state c), .mark (.hook state c), .drain (ran + 1) next], rfl,
      (World.Follows.queue queue).trans (.write _), ?_, fun c hc => ?_⟩
    · simpa [call?, hq, hb, ha, Frame.line] using Turn.other rfl
    · simp_all [call?]
  · rw [hd]
    have hcall : call? ⟨w, .drain ran next :: stack⟩ = none := by
      rcases hnot with hnot | hnot <;> simp [call?, hq, hnot]
    refine ⟨_, [.drain (ran + 1) next], rfl, .queue queue, ?_, fun c hc => by simp at hc⟩
    rw [hcall]
    exact .idle

private theorem dispatch_advance (w : World σ) (stack : List (Frame σ)) (called : Nat)
    (next : Nat → Script σ) (waiting : List (Listener σ)) :
    Advance w (.dispatch waiting called next) stack
      (call? ⟨w, .dispatch waiting called next :: stack⟩)
      (dispatch w stack called next waiting) := by
  match waiting with
  | [] => exact ⟨w, [.run (next called)], rfl, .refl w, .idle, fun c hc => by simp at hc⟩
  | l :: waiting =>
    rw [dispatch]
    cases hl : isCalled stack l.id with
    | true =>
      refine ⟨w, [.dispatch waiting called next], rfl, .refl w, ?_, fun c hc => by simp at hc⟩
      simpa [call?, hl, Frame.line] using Turn.skip
    | false =>
      refine ⟨w,
        [.run l.callback, .mark (.listener l.id l.owner), .dispatch waiting (called + 1) next], rfl,
        .refl w, ?_, fun c hc => ?_⟩
      · simpa [call?, hl, Frame.line] using Turn.call
      · simp_all [call?]

/-- What a step does to the world, to the line and to the marks. -/
theorem step_advance (w : World σ) (f : Frame σ) (stack : List (Frame σ)) :
    Advance w f stack (call? ⟨w, f :: stack⟩) (step ⟨w, f :: stack⟩) := by
  cases f with
  | run script => exact perform_advance w stack script
  | mark callee => exact ⟨w, [], rfl, .refl w, .idle, nofun⟩
  | deliver source notice waiting => exact deliver_advance w stack source notice waiting
  | react state c =>
    refine ⟨_, [.watch state c _], rfl, ?_, .idle, fun c hc => by simp at hc⟩
    split
    · exact .defer _
    · exact .refl w
  | watch state c waiting =>
    cases waiting with
    | nil => exact ⟨w, [], rfl, .refl w, .idle, nofun⟩
    | cons watcher waiting =>
      refine ⟨w, [.run (watcher state c.previous c.current), .mark (.watcher state c.path),
        .watch state c waiting], rfl, .refl w, .other rfl, fun c hc => ?_⟩
      simp_all [call?]
  | drain ran next => exact drain_advance w stack ran next
  | dispatch waiting called next => exact dispatch_advance w stack called next waiting

theorem step_follows (m : Machine σ) : m.world.Follows m.step.world := by
  obtain ⟨w, stack⟩ := m
  cases stack with
  | nil => exact .refl w
  | cons f stack =>
    obtain ⟨w', pushed, hm, hw, -, -⟩ := step_advance w f stack
    rwa [hm]

/-- What a step does to the line of a machine. -/
theorem turn_step (m : Machine σ) : Turn m.world m.line m.step.line m.call? := by
  obtain ⟨w, stack⟩ := m
  cases stack with
  | nil => exact .idle
  | cons f stack =>
    obtain ⟨w', pushed, hm, -, hturn, -⟩ := step_advance w f stack
    rw [hm, line, line, List.flatMap_cons, List.flatMap_append]
    exact hturn.append _

end Machine

end ReactiveMarkup
