-- SUMMARY: What is confined to one state leaves the other states and foreign nodes alone.
import ReactiveMarkup.Proofs.Freshness
import ReactiveMarkup.Proofs.Unmounting

/-!
# Instances are isolated

A script is confined to a state and to nodes if it writes to that state only, joins no other source,
and edits those nodes only, whatever it is told in reply. Where everything that reacts to a state is
confined to it as well, so is all that a confined script brings about (`Machine.confined_run`):
other states, with their subscribers, watchers and hooks, take no part in it. The bindings of an
instance are confined to its state and to the elements of its template, which gives
`World.instances_isolated`.
-/

namespace ReactiveMarkup

variable {σ : Type}

/-! ## Confined scripts -/

/-- The script writes to the state only and edits the nodes only, and so does whatever it has called
or deferred. It runs the queue only if it `drains`. -/
inductive Script.Confined (state : StateId) (own : NodeId → Prop) (drains : Prop) : Script σ → Prop
  | done : Confined state own drains .done
  | log (entry : Entry) {next : Script σ} (rest : Confined state own drains next) :
      Confined state own drains (.log entry next)
  | readMemory {next : σ → Script σ} (rest : ∀ memory, Confined state own drains (next memory)) :
      Confined state own drains (.readMemory next)
  | writeMemory (memory : σ) {next : Script σ} (rest : Confined state own drains next) :
      Confined state own drains (.writeMemory memory next)
  | readState (other : StateId) {next : StateView → Script σ}
      (rest : ∀ view, Confined state own drains (next view)) :
      Confined state own drains (.readState other next)
  | set (path : Path) (v : Value) {next : Except PathError Bool → Script σ}
      (rest : ∀ reply, Confined state own drains (next reply)) :
      Confined state own drains (.set state path v next)
  | retain {next : Script σ} (rest : Confined state own drains next) :
      Confined state own drains (.retain state next)
  | release {next : Script σ} (rest : Confined state own drains next) :
      Confined state own drains (.release state next)
  | readSubject (source : SubjectId) {next : SubjectView → Script σ}
      (rest : ∀ view, Confined state own drains (next view)) :
      Confined state own drains (.readSubject source next)
  | subscribe {callback : Option Notice → Script σ} {next : Nat → Script σ}
      (called : ∀ notice, Confined state own drains (callback notice))
      (rest : ∀ id, Confined state own drains (next id)) :
      Confined state own drains (.subscribe (.state state) callback next)
  | unsubscribe (id : Nat) {next : Script σ} (rest : Confined state own drains next) :
      Confined state own drains (.unsubscribe (.state state) id next)
  | defer {task next : Script σ} (deferred : Confined state own drains task)
      (rest : Confined state own drains next) : Confined state own drains (.defer task next)
  | runPending {next : Nat → Script σ} (allowed : drains)
      (rest : ∀ ran, Confined state own drains (next ran)) : Confined state own drains
      (.runPending next)
  | pending {next : Nat → Script σ} (rest : ∀ count, Confined state own drains (next count)) :
      Confined state own drains (.pending next)
  | readDocument {next : Document → Script σ} (rest : ∀ d, Confined state own drains (next d)) :
      Confined state own drains (.readDocument next)
  | edit {e : Edit} {next : Except HostError NodeId → Script σ} (target : ∀ x ∈ e.target?, own x)
      (rest : ∀ reply, Confined state own drains (next reply)) :
      Confined state own drains (.edit e next)
  | listeners (node : NodeId) {next : Nat → Script σ}
      (rest : ∀ count, Confined state own drains (next count)) :
      Confined state own drains (.listeners node next)

section Confined

variable (state : StateId) (own : NodeId → Prop) (drains : Prop)

/-- What waits in the queue is confined. -/
def Task.Confined : Task σ → Prop
  | script s => s.Confined state own drains
  | hook other _ => other = state

/-- Whatever reacts to a change of the state is confined. -/
structure State.Confined (s : State σ) : Prop where
  subscribers : ∀ sub ∈ s.changes.subscribers, ∀ notice,
    (sub.callback notice).Confined state own drains
  watchers : ∀ p ∈ s.behavior.watchers, ∀ previous current,
    (p.2 state previous current).Confined state own drains
  hook : ∀ hook ∈ s.behavior.hook?, ∀ c, (hook state c).Confined state own drains

/-- Whatever reacts to a change of the state is confined, and so is what waits in the queue if the
queue is run. -/
structure World.Confined (w : World σ) : Prop where
  reactions : ∀ s ∈ w.states[state]?, s.Confined state own drains
  queue : drains → ∀ task ∈ w.queue, task.Confined state own drains

/-- Whether the callee is called for the state or from the queue. -/
def Callee.Confined : Callee → Prop
  | subscriber source _ => source = .state state
  | watcher other _ | hook other _ => other = state
  | task => True
  | listener _ _ => False

/-- What is being done is confined. -/
def Frame.Confined : Frame σ → Prop
  | run script => script.Confined state own drains
  | mark callee => callee.Confined state
  | deliver source _ waiting => source = .state state ∧
      ∀ sub ∈ waiting, ∀ notice, (sub.callback notice).Confined state own drains
  | react other _ => other = state
  | watch other _ waiting => other = state ∧
      ∀ watcher ∈ waiting, ∀ previous current,
      (watcher state previous current).Confined state own drains
  | drain _ next => drains ∧ ∀ ran, (next ran).Confined state own drains
  | dispatch _ _ _ => False

/-- Whether the event is about the state. -/
def Event.IsAt : Event σ → Prop
  | subject source _ => source = .state state
  | Event.state other _ => other = state

/-- The later world has the other states, the listeners and the nodes that are not own as they
were. -/
structure World.Spares (w w' : World σ) : Prop where
  states : ∀ other, other ≠ state → w'.states[other]? = w.states[other]?
  subjects : w'.subjects = w.subjects
  listeners : w'.listeners = w.listeners
  length_le : w.document.nodes.length ≤ w'.document.nodes.length
  nodes : ∀ y < w.document.nodes.length, ¬ own y → w'.document.node y = w.document.node y

end Confined

variable {state : StateId} {own : NodeId → Prop} {drains : Prop} {w w' w'' : World σ}

namespace World

/-! ## What operations spare -/

namespace Spares

theorem trans (h : w.Spares state own w') (h' : w'.Spares state own w'') :
    w.Spares state own w'' where
  states other hne := (h'.states other hne).trans (h.states other hne)
  subjects := h'.subjects.trans h.subjects
  listeners := h'.listeners.trans h.listeners
  length_le := Nat.le_trans h.length_le h'.length_le
  nodes y hy hown := (h'.nodes y (Nat.lt_of_lt_of_le hy h.length_le) hown).trans (h.nodes y hy hown)

/-- What changes neither states, subjects, listeners nor nodes spares all of them. -/
theorem of_eq (hstates : w'.states = w.states) (hsubjects : w'.subjects = w.subjects)
    (hlisteners : w'.listeners = w.listeners) (hdocument : w'.document = w.document) :
    w.Spares state own w' where
  states _ _ := by rw [hstates]
  subjects := hsubjects
  listeners := hlisteners
  length_le := Nat.le_of_eq (by rw [hdocument])
  nodes _ _ _ := by rw [hdocument]

theorem refl (w : World σ) : w.Spares state own w := of_eq rfl rfl rfl rfl

theorem modifyState (w : World σ) (f : State σ → State σ) : w.Spares state own
    (w.modifyState state f) where
  states other hne := by simp [World.modifyState, Ne.symm hne]
  subjects := rfl
  listeners := rfl
  length_le := Nat.le_refl _
  nodes _ _ _ := rfl

theorem document {d : Document} {e : Edit} {z : NodeId} (he : w.document.edit e = .ok (z, d))
    (htarget : ∀ x ∈ e.target?, own x) : w.Spares state own { w with document := d } where
  states _ _ := rfl
  subjects := rfl
  listeners := rfl
  length_le := Document.length_le_of_edit he
  nodes y hy hown := Document.node_of_edit he hy fun ht => hown (htarget y ht)

end Spares

/-! ## What stays confined -/

namespace Confined

theorem of_eq (h : w.Confined state own drains) (hstates : w'.states = w.states)
    (hqueue : w'.queue = w.queue) : w'.Confined state own drains :=
  ⟨hstates ▸ h.reactions, hqueue ▸ h.queue⟩

theorem write (h : w.Confined state own drains) (entry : Entry) :
    (w.write entry).Confined state own drains :=
  h.of_eq rfl rfl

/-- A state may change its tree, and what it keeps of its subscribers, as long as they are
confined. -/
theorem modifyState (h : w.Confined state own drains) {f : State σ → State σ}
    (hf : ∀ s : State σ, s.Confined state own drains → (f s).Confined state own drains) :
    (w.modifyState state f).Confined state own drains := by
  refine ⟨fun s hs => ?_, h.queue⟩
  simp only [World.modifyState, List.getElem?_modify_eq, Option.map_eq_map, Option.mem_def,
    Option.map_eq_some_iff] at hs
  obtain ⟨old, hold, rfl⟩ := hs
  exact hf old (h.reactions old hold)

theorem putSubject (h : w.Confined state own drains) {s : Subject σ}
    (hs : ∀ sub ∈ s.subscribers, ∀ notice, (sub.callback notice).Confined state own drains) :
    (w.putSubject (.state state) s).Confined state own drains :=
  h.modifyState fun _ hst => ⟨hs, hst.watchers, hst.hook⟩

theorem defer (h : w.Confined state own drains) {task : Task σ}
    (ht : drains → task.Confined state own drains) : (w.defer task).Confined state own drains := by
  refine ⟨h.reactions, fun hdrains other hother => ?_⟩
  rcases List.mem_append.1 hother with hold | hnew
  · exact h.queue hdrains other hold
  · exact List.mem_singleton.1 hnew ▸ ht hdrains

theorem subscribers (h : w.Confined state own drains) :
    ∀ sub ∈ (w.subject (.state state)).subscribers, ∀ notice,
    (sub.callback notice).Confined state own drains := by
  intro sub hsub
  cases hs : w.states[state]? with
  | none => simp [subject, hs] at hsub
  | some s => exact (h.reactions s hs).subscribers sub (by simpa [subject, hs] using hsub)

theorem watchersOf (h : w.Confined state own drains) (path : Path) :
    ∀ watcher ∈ (w.behavior state).watchersOf path, ∀ previous current,
      (watcher state previous current).Confined state own drains := by
  intro watcher hwatcher
  obtain ⟨p, hp, rfl⟩ := List.mem_map.1 hwatcher
  have hmem := (List.mem_filter.1 hp).1
  cases hs : w.states[state]? with
  | none => simp [behavior, hs] at hmem
  | some s => exact (h.reactions s hs).watchers p (by simpa [behavior, hs] using hmem)

theorem hook (h : w.Confined state own drains) {hook : ChangeHook σ}
    (hhook : (w.behavior state).hook? = some hook)
    (c : Change) : (hook state c).Confined state own drains := by
  cases hs : w.states[state]? with
  | none => simp [behavior, hs] at hhook
  | some s => exact (h.reactions s hs).hook hook (by simpa [behavior, hs] using hhook) c

end Confined

end World

namespace Machine

/-! ## Steps -/

/-- Of a machine that has come from a world, what is being done above a stack is confined, and the
rest of the world is spared. -/
structure Contained (state : StateId) (own : NodeId → Prop) (drains : Prop) (w : World σ)
    (below : List (Frame σ)) (m : Machine σ) : Prop where
  stack : ∃ above, m.stack = above ++ below ∧ ∀ f ∈ above, f.Confined state own drains
  world : m.world.Confined state own drains
  spares : w.Spares state own m.world

section Steps

variable {stack : List (Frame σ)}

/-- A step that puts frames in the place of the first. -/
theorem Contained.of_frames (above : List (Frame σ))
    (habove : ∀ f ∈ above, f.Confined state own drains)
    (hworld : w'.Confined state own drains) (hspares : w.Spares state own w') :
    Contained state own drains w stack ⟨w', above ++ stack⟩ :=
  ⟨⟨above, rfl, habove⟩, hworld, hspares⟩

/-- A step that goes on with a script. -/
theorem Contained.of_script {script : Script σ} (hscript : script.Confined state own drains)
    (hworld : w'.Confined state own drains) (hspares : w.Spares state own w') :
    Contained state own drains w stack ⟨w', .run script :: stack⟩ :=
  of_frames [.run script] (List.forall_mem_singleton.2 hscript) hworld hspares

/-- Emitting a change of the state keeps to the state. -/
private theorem contained_emit (hworld : w'.Confined state own drains)
    (hspares : w.Spares state own w') (n : Notice)
    {above : List (Frame σ)} (habove : ∀ f ∈ above, f.Confined state own drains) :
    Contained state own drains w stack (emit w' (above ++ stack) (.state state) n) := by
  unfold emit
  cases hd : ((w'.subject (.state state)).enqueue n).delivering with
  | true =>
    simp only [hd, if_true]
    exact .of_frames above habove (hworld.putSubject hworld.subscribers)
      (hspares.trans (.modifyState _ _))
  | false =>
    simp only [hd, Bool.false_eq_true, if_false]
    refine .of_frames (.deliver (.state state) none [] :: above) ?_
      (hworld.putSubject hworld.subscribers) (hspares.trans (.modifyState _ _))
    exact List.forall_mem_cons.2 ⟨⟨rfl, List.forall_mem_nil _⟩, habove⟩

private theorem contained_set {path : Path} {v : Value} {next : Except PathError Bool → Script σ}
    (hw : w.Confined state own drains) (hnext : ∀ reply, (next reply).Confined state own drains) :
    Contained state own drains w stack (perform w stack (.set state path v next)) := by
  have hwritten (tree : Value) :
      (w.modifyState state fun s => { s with data := tree }).Confined state own drains :=
    hw.modifyState fun _ hs => ⟨hs.subscribers, hs.watchers, hs.hook⟩
  obtain ⟨e, hr⟩ | ⟨tree, -, hr⟩ | ⟨tree, c, -, hr⟩ := World.assign_cases w state path v
  · rw [perform_set_refused hr]
    exact .of_script (hnext _) hw (.refl w)
  · rw [perform_set_silent hr]
    exact .of_script (hnext _) (hwritten tree) (.modifyState w _)
  · rw [perform_set_effective hr]
    have hspares : w.Spares state own
        ((w.modifyState state fun s => { s with data := tree }).write (World.changeRecord c)) :=
      (World.Spares.modifyState w _).trans (.of_eq rfl rfl rfl rfl)
    have hframes : ∀ f ∈ ([.react state c, .run (next (.ok true))] : List (Frame σ)),
        f.Confined state own drains :=
      List.forall_mem_cons.2 ⟨rfl, List.forall_mem_singleton.2 (hnext _)⟩
    exact contained_emit ((hwritten tree).write _) hspares _ hframes

private theorem contained_perform {script : Script σ} (hw : w.Confined state own drains)
    (hscript : script.Confined state own drains) :
    Contained state own drains w stack (perform w stack script) := by
  have hrefl : w.Spares state own w := .refl w
  have hholders (f : Nat → Nat) :
      (w.modifyState state fun s => { s with holders := f s.holders }).Confined state own drains :=
    hw.modifyState fun _ hs => ⟨hs.subscribers, hs.watchers, hs.hook⟩
  cases hscript with
  | done => exact .of_frames [] (List.forall_mem_nil _) hw hrefl
  | log entry rest => exact .of_script rest (hw.of_eq rfl rfl) (.of_eq rfl rfl rfl rfl)
  | readMemory rest => exact .of_script (rest _) hw hrefl
  | writeMemory memory rest => exact .of_script rest (hw.of_eq rfl rfl) (.of_eq rfl rfl rfl rfl)
  | readState other rest => exact .of_script (rest _) hw hrefl
  | set path v rest => exact contained_set hw rest
  | retain rest => exact .of_script rest (hholders (· + 1)) (.modifyState w _)
  | release rest => exact .of_script rest (hholders (· - 1)) (.modifyState w _)
  | readSubject source rest => exact .of_script (rest _) hw hrefl
  | @subscribe callback next called rest =>
    have hregistered : (w.register (.state state) callback).2.Confined state own drains := by
      refine hw.putSubject fun sub hsub => ?_
      rcases List.mem_append.1 hsub with hold | hnew
      · exact hw.subscribers sub hold
      · exact List.mem_singleton.1 hnew ▸ called
    refine .of_frames [.run (callback _), .mark (.subscriber (.state state) _),
      .run (next _)] ?_ hregistered (.modifyState w _)
    exact List.forall_mem_cons.2 ⟨called _,
      List.forall_mem_cons.2 ⟨rfl, List.forall_mem_singleton.2 (rest _)⟩⟩
  | unsubscribe id rest =>
    refine .of_script rest (hw.putSubject fun sub hsub => ?_) (.modifyState w _)
    exact hw.subscribers sub (List.mem_filter.1 hsub).1
  | defer deferred rest =>
    exact .of_script rest (hw.defer fun _ => deferred) (.of_eq rfl rfl rfl rfl)
  | @runPending next allowed rest =>
    exact .of_frames [.drain 0 next] (List.forall_mem_singleton.2 ⟨allowed, rest⟩) hw hrefl
  | pending rest => exact .of_script (rest _) hw hrefl
  | readDocument rest => exact .of_script (rest _) hw hrefl
  | @edit e next target rest =>
    cases he : w.document.edit e with
    | error err =>
      have hstep : perform w stack (.edit e next) = ⟨w, .run (next (.error err)) :: stack⟩ := by
        simp [perform, World.edit, he]
      rw [hstep]
      exact .of_script (rest _) hw hrefl
    | ok reply =>
      have hstep : perform w stack (.edit e next) =
          ⟨{ w with document := reply.2 }, .run (next (.ok reply.1)) :: stack⟩ := by
        simp [perform, World.edit, he]
      rw [hstep]
      exact .of_script (rest _) (hw.of_eq rfl rfl) (.document he target)
  | listeners node rest => exact .of_script (rest _) hw hrefl

private theorem contained_deliver {notice : Option Notice} {waiting : List (Subscriber σ)}
    (hw : w.Confined state own drains)
    (hwaiting : ∀ sub ∈ waiting, ∀ n, (sub.callback n).Confined state own drains) :
    Contained state own drains w stack (deliver w stack (.state state) notice waiting) := by
  cases waiting with
  | cons sub waiting =>
    obtain ⟨hsub, hrest⟩ := List.forall_mem_cons.1 hwaiting
    refine .of_frames [.run (sub.callback notice), .mark (.subscriber (.state state) sub.id),
      .deliver (.state state) notice waiting] ?_ hw (.refl w)
    exact List.forall_mem_cons.2
      ⟨hsub notice, List.forall_mem_cons.2 ⟨rfl, List.forall_mem_singleton.2 ⟨rfl, hrest⟩⟩⟩
  | nil =>
    obtain ⟨n, rest, s, -, rfl, hd, -⟩ | ⟨-, hd, -⟩ :=
      deliver_nil_cases w stack (.state state) notice
    · rw [hd]
      exact .of_frames [.deliver (.state state) (some n) _]
        (List.forall_mem_singleton.2 ⟨rfl, hw.subscribers⟩) (hw.putSubject hw.subscribers)
          (.modifyState w _)
    · rw [hd]
      exact .of_frames [] (List.forall_mem_nil _) (hw.putSubject hw.subscribers) (.modifyState w _)

private theorem contained_react (c : Change) (hw : w.Confined state own drains) :
    Contained state own drains w stack (react w stack state c) := by
  have hframes : ∀ f ∈ ([.watch state c ((w.behavior state).watchersOf c.path)] : List (Frame σ)),
      f.Confined state own drains :=
    List.forall_mem_singleton.2 ⟨rfl, hw.watchersOf c.path⟩
  cases hh : (w.behavior state).hook?.isSome with
  | true =>
    have hstep : react w stack state c =
        ⟨w.defer (.hook state c),
          .watch state c ((w.behavior state).watchersOf c.path) :: stack⟩ := by
      simp [react, hh]
    rw [hstep]
    exact .of_frames _ hframes (hw.defer fun _ => rfl) (.of_eq rfl rfl rfl rfl)
  | false =>
    have hstep : react w stack state c =
        ⟨w, .watch state c ((w.behavior state).watchersOf c.path) :: stack⟩ := by
      simp [react, hh]
    rw [hstep]
    exact .of_frames _ hframes hw (.refl w)

private theorem contained_watch (c : Change) {waiting : List (Watcher σ)}
    (hw : w.Confined state own drains) (hwaiting : ∀ watcher ∈ waiting, ∀ previous current,
      (watcher state previous current).Confined state own drains) :
    Contained state own drains w stack (watch w stack state c waiting) := by
  cases waiting with
  | nil => exact .of_frames [] (List.forall_mem_nil _) hw (.refl w)
  | cons watcher waiting =>
    obtain ⟨hwatcher, hrest⟩ := List.forall_mem_cons.1 hwaiting
    refine .of_frames [.run (watcher state c.previous c.current), .mark (.watcher state c.path),
      .watch state c waiting] ?_ hw (.refl w)
    exact List.forall_mem_cons.2
      ⟨hwatcher _ _, List.forall_mem_cons.2 ⟨rfl, List.forall_mem_singleton.2 ⟨rfl, hrest⟩⟩⟩

private theorem contained_drain {ran : Nat} {next : Nat → Script σ}
    (hw : w.Confined state own drains)
    (hdrains : drains) (hnext : ∀ ran, (next ran).Confined state own drains) :
    Contained state own drains w stack (drain w stack ran next) := by
  have hdrain : (.drain (ran + 1) next : Frame σ).Confined state own drains := ⟨hdrains, hnext⟩
  have htaken {task : Task σ} {queue : List (Task σ)} (hq : w.queue = task :: queue) :
      task.Confined state own drains ∧ World.Confined state own drains { w with queue } := by
    obtain ⟨htask, hrest⟩ := List.forall_mem_cons.1 (hq ▸ hw.queue hdrains)
    exact ⟨htask, hw.reactions, fun _ => hrest⟩
  obtain ⟨-, hd, -⟩ | ⟨script, queue, hq, hd, -⟩ | ⟨other, c, hook, queue, hq, hhook, -, hd, -⟩ |
    ⟨other, c, queue, hq, -, hd, -⟩ := drain_cases w stack ran next
  · rw [hd]
    exact .of_script (hnext ran) hw (.refl w)
  · rw [hd]
    obtain ⟨hscript, hworld⟩ := htaken hq
    refine .of_frames [.run script, .mark .task, .drain (ran + 1) next] ?_ hworld
      (.of_eq rfl rfl rfl rfl)
    exact List.forall_mem_cons.2 ⟨hscript,
      List.forall_mem_cons.2 ⟨trivial, List.forall_mem_singleton.2 hdrain⟩⟩
  · rw [hd]
    obtain ⟨rfl, hworld⟩ := htaken hq
    refine .of_frames [.run (hook other c), .mark (.hook other c), .drain (ran + 1) next] ?_
      (hworld.of_eq rfl rfl) (.of_eq rfl rfl rfl rfl)
    exact List.forall_mem_cons.2
      ⟨hw.hook hhook c, List.forall_mem_cons.2 ⟨rfl, List.forall_mem_singleton.2 hdrain⟩⟩
  · rw [hd]
    exact .of_frames [.drain (ran + 1) next] (List.forall_mem_singleton.2 hdrain) (htaken hq).2
      (.of_eq rfl rfl rfl rfl)

/-- A confined step leaves confined things to do. -/
theorem contained_step {f : Frame σ} (hw : w.Confined state own drains)
    (hf : f.Confined state own drains) :
    Contained state own drains w stack (step ⟨w, f :: stack⟩) := by
  cases f with
  | run script => exact contained_perform hw hf
  | mark callee => exact .of_frames [] (List.forall_mem_nil _) hw (.refl w)
  | deliver source notice waiting =>
    obtain ⟨rfl, hwaiting⟩ := hf
    exact contained_deliver hw hwaiting
  | react other c =>
    obtain rfl : other = state := hf
    exact contained_react c hw
  | watch other c waiting =>
    obtain ⟨rfl, hwaiting⟩ := hf
    exact contained_watch c hw hwaiting
  | drain ran next => exact contained_drain hw hf.1 hf.2
  | dispatch waiting called next => exact hf.elim

/-! ## Events -/

private theorem isAt_scriptEvents {script : Script σ} (hscript : script.Confined state own drains) :
    ∀ e ∈ scriptEvents w script, e.IsAt state := by
  cases hscript with
  | set path v rest =>
    obtain ⟨e, hr⟩ | ⟨tree, -, hr⟩ | ⟨tree, c, -, hr⟩ := World.assign_cases w state path v
    · rw [scriptEvents_set_refused hr]
      exact List.forall_mem_nil _
    · rw [scriptEvents_set_silent hr]
      exact List.forall_mem_singleton.2 rfl
    · rw [scriptEvents_set_effective hr]
      exact List.forall_mem_cons.2 ⟨rfl, List.forall_mem_singleton.2 rfl⟩
  | subscribe | unsubscribe => exact List.forall_mem_singleton.2 rfl
  | done | log | readMemory | writeMemory | readState | retain | release | readSubject |
    defer | runPending
  | pending | readDocument | edit | listeners => exact List.forall_mem_nil _

/-- What a confined step does is about the state. -/
private theorem isAt_events {f : Frame σ} (hw : w.Confined state own drains)
    (hf : f.Confined state own drains) : ∀ e ∈ events ⟨w, f :: stack⟩, e.IsAt state := by
  cases f with
  | run script => exact isAt_scriptEvents hf
  | mark callee =>
    obtain ⟨-, he⟩ | ⟨source, id, _, _, _, rfl, -, he⟩ := events_mark w callee stack
    · rw [he]
      exact List.forall_mem_nil _
    · rw [he]
      exact List.forall_mem_singleton.2 hf
  | deliver source notice waiting =>
    obtain ⟨rfl, -⟩ := hf
    cases waiting with
    | cons sub waiting => exact List.forall_mem_singleton.2 rfl
    | nil =>
      obtain ⟨n, rest, s, -, -, -, he⟩ | ⟨-, -, he⟩ :=
        deliver_nil_cases w stack (.state state) notice
      · rw [he]
        exact List.forall_mem_singleton.2 rfl
      · rw [he]
        exact List.forall_mem_nil _
  | react other c =>
    obtain rfl : other = state := hf
    cases hh : (w.behavior other).hook?.isSome with
    | true =>
      simp only [events, hh, if_true]
      exact List.forall_mem_singleton.2 rfl
    | false =>
      simp only [events, hh, Bool.false_eq_true, if_false]
      exact List.forall_mem_nil _
  | watch other c waiting =>
    obtain ⟨rfl, -⟩ := hf
    cases waiting <;> exact List.forall_mem_singleton.2 rfl
  | drain ran next =>
    obtain ⟨-, -, he⟩ | ⟨_, _, -, -, he⟩ | ⟨other, c, _, queue, hq, -, -, -, he⟩ |
      ⟨other, c, queue, hq, -, -, he⟩ :=
      drain_cases w stack ran next
    · rw [he]
      exact List.forall_mem_nil _
    · rw [he]
      exact List.forall_mem_nil _
    · rw [he]
      have htask : (Task.hook other c : Task σ).Confined state own drains :=
        hw.queue hf.1 _ (hq ▸ List.mem_cons_self)
      exact List.forall_mem_singleton.2 htask
    · rw [he]
      have htask : (Task.hook other c : Task σ).Confined state own drains :=
        hw.queue hf.1 _ (hq ▸ List.mem_cons_self)
      exact List.forall_mem_singleton.2 htask
  | dispatch waiting called next => exact hf.elim

end Steps

/-! ## Runs -/

/-- While a confined script is in progress, so is nothing but what it may do, and everything that
happens is about its state. -/
theorem confined_run {below : List (Frame σ)} {script : Script σ} (hw : w.Confined state own drains)
    (hscript : script.Confined state own drains) {n : Nat}
    (hprogress : ∀ k < n, below.length < (run k ⟨w, .run script :: below⟩).stack.length) :
    Contained state own drains w below (run n ⟨w, .run script :: below⟩) ∧
      ∀ e ∈ trace n ⟨w, .run script :: below⟩, e.IsAt state := by
  induction n with
  | zero => exact ⟨.of_script hscript hw (.refl w), List.forall_mem_nil _⟩
  | succ n ih =>
    obtain ⟨⟨⟨above, hstack, habove⟩, hworld, hspares⟩, hevents⟩ :=
      ih fun k hk => hprogress k (Nat.lt_succ_of_lt hk)
    have hlt := hprogress n (Nat.lt_succ_self n)
    rw [run_succ_step, trace_succ]
    generalize run n ⟨w, .run script :: below⟩ = m at hstack hworld hspares hlt ⊢
    obtain ⟨w₁, stack⟩ := m
    obtain rfl : stack = above ++ below := hstack
    cases above with
    | nil => exact absurd hlt (Nat.lt_irrefl _)
    | cons f above =>
      obtain ⟨hf, hrest⟩ := List.forall_mem_cons.1 habove
      have hstep :
          Contained state own drains w₁ (above ++ below) (step ⟨w₁, f :: (above ++ below)⟩) :=
        contained_step hworld hf
      obtain ⟨⟨new, hnew, hconfined⟩, hworld', hspares'⟩ := hstep
      refine ⟨⟨⟨new ++ above, ?_, List.forall_mem_append.2 ⟨hconfined, hrest⟩⟩, hworld',
        hspares.trans hspares'⟩, List.forall_mem_append.2 ⟨hevents, isAt_events hworld hf⟩⟩
      rw [List.append_assoc]
      exact hnew

/-- What is about one state is not about another. -/
private theorem atState_eq_nil {t : List (Event σ)} (h : ∀ e ∈ t, e.IsAt state) {other : StateId}
    (hne : other ≠ state) : atState other t = [] := by
  refine List.filterMap_eq_nil_iff.2 fun e he => ?_
  cases e with
  | subject _ _ => rfl
  | state s e => exact if_neg fun hs => hne (hs.symm.trans (h _ he))

private theorem atSubject_eq_nil {t : List (Event σ)} (h : ∀ e ∈ t, e.IsAt state)
    {source : SubjectId} (hne : source ≠ .state state) : atSubject source t = [] := by
  refine List.filterMap_eq_nil_iff.2 fun e he => ?_
  cases e with
  | subject s e => exact if_neg fun hs => hne (hs.symm.trans (h _ he))
  | state _ _ => rfl

end Machine

/-! ## The nodes of an instance -/

/-- The nodes made for a template: its texts, its elements, and the containers of nested components,
without what is inside the containers. -/
inductive MadeFor (reg : Registry σ) (d : Document) : List Markup.Node → List NodeId → NodeId → Prop
  | here (n : Markup.Node) (ns : List Markup.Node) (x : NodeId) (xs : List NodeId) :
      MadeFor reg d (n :: ns) (x :: xs) x
  | later (n : Markup.Node) {ns : List Markup.Node} (x : NodeId) {xs : List NodeId} {y : NodeId}
      (rest : MadeFor reg d ns xs y) : MadeFor reg d (n :: ns) (x :: xs) y
  | inside {tag : String} {attributes : List Markup.Attribute} {children : List Markup.Node}
      (ns : List Markup.Node) {x : NodeId} {texts ys : List NodeId} (xs : List NodeId) {y : NodeId}
      (unregistered : reg.contains tag = false)
      (content : texts.length = if setsContent attributes then 1 else 0)
      (below : d.children x = texts ++ ys) (made : MadeFor reg d children ys y) :
      MadeFor reg d (.element tag attributes children :: ns) (x :: xs) y

section Made

variable {reg : Registry σ} {d : Document} {ns : List Markup.Node} {xs : List NodeId}
  {sites : List Site}

/-- Sites are elements whose tags name no component. -/
private theorem Rendered.kind_of_site (h : Rendered reg d ns xs sites) :
    ∀ s ∈ sites, ∃ tag, (d.node s.node).kind = .element tag ∧ reg.contains tag = false := by
  induction h with
  | nil => exact List.forall_mem_nil _
  | text _ _ ih | nested _ _ _ ih => exact ih
  | element unregistered kind _ _ _ _ ihInside ihRest =>
    exact List.forall_mem_cons.2 ⟨⟨_, kind, unregistered⟩,
      List.forall_mem_append.2 ⟨ihInside, ihRest⟩⟩

/-- What is made for a template is its sites, texts, and containers. -/
private theorem Rendered.cases_of_madeFor (h : Rendered reg d ns xs sites) {y : NodeId}
    (hy : MadeFor reg d ns xs y) :
    (∃ s ∈ sites, s.node = y) ∨ (∃ content, (d.node y).kind = .text content) ∨
      ∃ tag, (d.node y).kind = .element tag ∧ reg.contains tag = true := by
  induction h with
  | nil => cases hy
  | text kind _ ih =>
    cases hy with
    | here => exact .inr (.inl ⟨_, kind⟩)
    | later _ _ rest => exact ih rest
  | nested registered kind _ ih =>
    cases hy with
    | here => exact .inr (.inr ⟨_, kind, registered⟩)
    | later _ _ rest => exact ih rest
    | inside _ _ unregistered =>
      rw [registered] at unregistered
      cases unregistered
  | element _ _ content below _ _ ihInside ihRest =>
    cases hy with
    | here => exact .inl ⟨_, List.mem_cons_self, rfl⟩
    | later _ _ rest =>
      refine (ihRest rest).imp_left fun ⟨s, hs, hy⟩ => ⟨s, ?_, hy⟩
      exact List.mem_cons_of_mem _ (List.mem_append_right _ hs)
    | inside _ _ _ content' below' made =>
      obtain ⟨-, rfl⟩ := List.append_inj (below.symm.trans below') (content.trans content'.symm)
      refine (ihInside made).imp_left fun ⟨s, hs, hy⟩ => ⟨s, ?_, hy⟩
      exact List.mem_cons_of_mem _ (List.mem_append_left _ hs)

end Made

/-! ## The bindings of an instance -/

theorem Sync.confined {b : Sync} (hown : own b.element) (n : Option Notice) :
    (b.script n : Script σ).Confined state own drains := by
  obtain ⟨hdone, -⟩ | ⟨x, hedit, -⟩ := b.script_cases (σ := σ) n
  · rw [hdone]
    exact .done
  · rw [hedit]
    refine .edit ?_ fun _ => .done
    rintro _ ⟨⟩
    exact hown

/-- Whatever reacts to the state of an instance, but for its bindings, is confined to the state and
to nodes, and so is what waits in the queue if the queue is run. -/
structure World.ReactsWithin (w : World σ) (i : Instance) (own : NodeId → Prop)
    (drains : Prop) : Prop where
  subscribers : ∀ sub ∈ (w.subject (.state i.state)).subscribers, sub.id ∉ i.subscriptions →
    ∀ notice, (sub.callback notice).Confined i.state own drains
  watchers : ∀ p ∈ (w.behavior i.state).watchers, ∀ previous current,
    (p.2 i.state previous current).Confined i.state own drains
  hook : ∀ hook ∈ (w.behavior i.state).hook?, ∀ c, (hook i.state c).Confined i.state own drains
  queue : drains → ∀ task ∈ w.queue, task.Confined i.state own drains

section Mounted

variable {base k : Nat} {md : Module} {placed : List Placed} {i : Instance}

/-- The bindings of an instance are confined to its sites, and with them whatever reacts to its
state. -/
theorem Assembled.confined (h : Assembled base ⟨w, md.instances⟩ placed)
    (hk : md.instances[k]? = some i)
    (hfollows : w.Follows w') (hown : ∀ s ∈ sitesAt placed k, own s.node)
    (hreacts : w'.ReactsWithin i own drains) : w'.Confined i.state own drains := by
  obtain ⟨hstate, hids⟩ := h.joined.instances k i hk
  have hsubject : w.subject (.state i.state) = Sync.subject (syncsAt placed k) :=
    hstate ▸ h.joined.subject k (List.getElem?_eq_some_iff.1 hk).1
  have hbinding : ∀ sub ∈ (w'.subject (.state i.state)).subscribers, sub.id ∈ i.subscriptions →
      ∀ notice, (sub.callback notice).Confined i.state own drains := by
    intro sub hsub hid notice
    rw [hids, List.mem_range] at hid
    obtain hold | hnew := hfollows.subscribers _ sub hsub
    · rw [hsubject] at hold
      obtain ⟨b, hb, hcallback⟩ := Sync.mem_numbered.1 hold
      obtain ⟨s, hs, hsync⟩ := List.mem_flatMap.1 (List.mem_of_getElem? hb)
      obtain ⟨_, _, _, helement⟩ := Site.mem_syncs.1 hsync
      rw [hcallback]
      exact Sync.confined (helement ▸ hown s hs) notice
    · -- A number that was given out later is not one of a binding.
      rw [hsubject] at hnew
      exact absurd hid (Nat.not_lt.2 hnew)
  refine ⟨fun s (hs : w'.states[i.state]? = some s) => ?_, hreacts.queue⟩
  have hchanges : w'.subject (.state i.state) = s.changes := by simp [World.subject, hs]
  have hbehavior : w'.behavior i.state = s.behavior := by simp [World.behavior, hs]
  refine ⟨fun sub hsub => ?_, hbehavior ▸ hreacts.watchers, hbehavior ▸ hreacts.hook⟩
  rw [← hchanges] at hsub
  by_cases hid : sub.id ∈ i.subscriptions
  · exact hbinding sub hsub hid
  · exact hreacts.subscribers sub hsub hid

/-- Two instances have no site in common. -/
private theorem Displayed.node_ne {l : Nat} (h : Displayed base w placed) (hne : k ≠ l) :
    ∀ s ∈ sitesAt placed k, ∀ s' ∈ sitesAt placed l, s.node ≠ s'.node := by
  intro s hs s' hs' he
  have hsame : (⟨k, s⟩ : Placed) = ⟨l, s'⟩ :=
    List.inj_on_of_nodup_map h.nodup (mem_sitesAt.1 hs) (mem_sitesAt.1 hs') he
  exact hne (congrArg Placed.place hsame)

end Mounted

/-- The nodes that the reactions of an instance may edit: its sites and nodes that are yet to be
made. -/
def OwnNode (sites : List Site) (d : Document) (x : NodeId) : Prop :=
  (∃ s ∈ sites, s.node = x) ∨ d.nodes.length ≤ x

open Machine in
/-- After a mount, and whatever has happened since, a script that is confined to the state of an
instance leaves all other instances alone, as long as what reacts to the state is confined as well:
other states keep their trees, latest changes and subscribers, and no watcher, hook or subscriber of
theirs is called; listeners stay; and no node changes but the elements of the instance's own
template. So no node that was made for another instance changes, whether it is nested or not. -/
theorem World.instances_isolated {w w' : World σ} {components : List (Component σ)}
    {root : NodeId} {md : Module}
    (hroot : root < w.document.nodes.length) (hmount : w.mount components root = (.ok md, w'))
    {i : Instance} (hi : i ∈ md.instances) :
    let reg := (Registry.empty.registerAll components w.log).1
    let made (j : Instance) :=
      (w'.document.children j.container).drop (w.document.children j.container).length
    ∃ c sites, reg.get? i.selector = some c ∧ Rendered reg w'.document c.template (made i) sites ∧
      ∀ called m, Session ⟨w', []⟩ called m →
      ∀ (drains : Prop) (script : Script σ) (n : Nat),
        script.Confined i.state (OwnNode sites m.world.document) drains →
        m.world.ReactsWithin i (OwnNode sites m.world.document) drains →
        let start : Machine σ := ⟨m.world, .run script :: m.stack⟩
        (∀ k < n, m.stack.length < (run k start).stack.length) →
        (∀ other ≠ i.state, (run n start).world.states[other]? = m.world.states[other]? ∧
          atState other (trace n start) = [] ∧ atSubject (.state other) (trace n start) = []) ∧
        (run n start).world.listeners = m.world.listeners ∧
        (∀ y < m.world.document.nodes.length, (∀ s ∈ sites, s.node ≠ y) →
          (run n start).world.document.node y = m.world.document.node y) ∧
        ∀ j ∈ md.instances, j ≠ i → j.state ≠ i.state ∧ ∃ d, reg.get? j.selector = some d ∧
          ∀ y < m.world.document.nodes.length, MadeFor reg w'.document d.template (made j) y →
            (run n start).world.document.node y = m.world.document.node y := by
  intro reg made
  obtain ⟨placed, hassembled, hfilled⟩ := assembled_mount hroot hmount
  obtain ⟨k, hk⟩ := List.mem_iff_getElem?.1 hi
  obtain ⟨c, hget, hrendered⟩ := hfilled k i hk
  refine ⟨c, sitesAt placed k, hget, hrendered, ?_⟩
  intro called m hsession drains script n hscript hreacts start hprogress
  have hworld : m.world.Confined i.state (OwnNode (sitesAt placed k) m.world.document) drains :=
    hassembled.confined hk hsession.follows (fun s hs => .inl ⟨s, hs, rfl⟩) hreacts
  obtain ⟨⟨-, -, hspares⟩, hevents⟩ := confined_run hworld hscript hprogress
  have hnodes : ∀ y < m.world.document.nodes.length, (∀ s ∈ sitesAt placed k, s.node ≠ y) →
      (run n start).world.document.node y = m.world.document.node y := by
    intro y hy hsites
    refine hspares.nodes y hy fun hy' => ?_
    rcases hy' with ⟨s, hs, he⟩ | hnew
    · exact hsites s hs he
    · exact Nat.not_le_of_lt hy hnew
  refine ⟨fun other hne => ⟨hspares.states other hne, atState_eq_nil hevents hne, ?_⟩,
    hspares.listeners, hnodes, ?_⟩
  · exact atSubject_eq_nil hevents fun he => hne (SubjectId.state.inj he)
  · intro j hj hne
    obtain ⟨l, hl⟩ := List.mem_iff_getElem?.1 hj
    have hplace : k ≠ l := by
      rintro rfl
      exact hne (Option.some.inj (hl.symm.trans hk))
    obtain ⟨d, hget', hrendered'⟩ := hfilled l j hl
    refine ⟨?_, d, hget', fun y hy hmade => hnodes y hy fun s hs he => ?_⟩
    · rw [(hassembled.joined.instances k i hk).1, (hassembled.joined.instances l j hl).1]
      exact fun he => hplace (Nat.add_left_cancel he).symm
    · obtain ⟨tag, hkind, hunregistered⟩ := hrendered.kind_of_site s hs
      rw [he] at hkind
      rcases hrendered'.cases_of_madeFor hmade with ⟨s', hs', he'⟩ | ⟨content, htext⟩ |
        ⟨tag', hkind', hregistered⟩
      · exact hassembled.displayed.node_ne hplace s hs s' hs' (he.trans he'.symm)
      · rw [hkind] at htext
        cases htext
      · obtain rfl := NodeKind.element.inj (hkind.symm.trans hkind')
        rw [hunregistered] at hregistered
        cases hregistered

/-! ## Two rows of a table -/

section Rows

open Machine Render

/-- A component with one property tied to a path. -/
def row : Component Unit where
  selector := "row"
  template := [.element "p" [⟨"bind-title", "count"⟩] []]
  initial := .object [("count", .integer 0)]
  selector_lower := by decide +kernel

/-- A component with two rows. -/
def table : Component Unit where
  selector := "app"
  template := [.element "row" [] [], .element "row" [] []]
  initial := .empty
  selector_lower := World.counter.selector_lower

/-- The instances of the two rows in the table. -/
def rowsModule : Module :=
  ⟨0, ["row", "app"], [⟨"app", 0, 0, [], []⟩, ⟨"row", 1, 1, [0], []⟩, ⟨"row", 2, 3, [0], []⟩]⟩

/-- What mounting the table leaves behind. -/
def rowsPage : World Unit where
  memory := ()
  log := [World.mountedRecord "app" 3]
  states := [{ data := .empty },
    { data := row.initial, changes := Sync.subject [⟨2, "title", ⟨["count"]⟩⟩] },
    { data := row.initial, changes := Sync.subject [⟨4, "title", ⟨["count"]⟩⟩] }]
  document :=
    { nodes := [{ kind := .element "app", children := [1, 3] },
      { kind := .element "row", children := [2] },
        { kind := .element "p", properties := [("title", .integer 0)] },
        { kind := .element "row", children := [4] },
        { kind := .element "p", properties := [("title", .integer 0)] }]
      mutations := 10 }

/-- The rendering of the table when some of its rows have been made. -/
def rowsRendered (count : Nat) : Rendering Unit where
  world :=
    { memory := ()
      states := rowsPage.states.take (count + 1)
      document :=
        { nodes := { kind := .element "app" } :: rowsPage.document.nodes.tail.take (2 * count)
          mutations := 4 * count } }
  instances := rowsModule.instances.take (count + 1)

section Table

variable {reg : Registry Unit}

/-- A row is a container with a new instance of the component, and an element in it that is kept in
step. -/
private theorem renderNode_row {r r₁ r₂ r₃ r₄ : Rendering Unit} {container p : NodeId}
    (hrow : reg.get? "row" = some row)
    (hp : reg.get? "p" = none) (hcontainer : edit (.createElement "row") r = .ok container r₁)
    (helement : edit (.createElement "p") (instantiated row container r₁) = .ok p r₂)
    (hsync : sync r₁.instances.length r₁.world.states.length p "title" ⟨["count"]⟩ r₂ = .ok () r₃)
    (happend : appendAll container [p] r₃ = .ok () r₄) :
    reg.renderNode ["app"] table 0 0 (.element "row" [] []) r = .ok container r₄ := by
  have hbinding : Binding.ofAttribute ⟨"bind-title", "count"⟩ = .property "title" ⟨["count"]⟩ := by
    decide +kernel
  have htemplate : row.template = [.element "p" [⟨"bind-title", "count"⟩] []] := rfl
  have hfresh : ¬ ["app"].contains row.selector = true := by decide +kernel
  have hnodes : reg.renderComponent ["app"] row (Registry.mem_of_get? hrow) container r₁ =
      .ok [p] r₃ := by
    rw [renderComponent_fresh hfresh]
    simp only [htemplate, Registry.renderNodes, renderNode_element hp, Registry.renderChildren,
      bindAll, hbinding, bindAttribute, bind_assoc, pure_bind]
    rw [bind_of_ok helement, bind_of_ok hsync]
    rfl
  rw [renderNode_nested hrow, bind_of_ok hcontainer, bind_of_ok hnodes, bind_of_ok happend]
  rfl

private theorem renderNodes_table (hrow : reg.get? "row" = some row) (hp : reg.get? "p" = none) :
    reg.renderNodes ["app"] table 0 0 table.template (rowsRendered 0) =
      .ok [1, 3] (rowsRendered 2) := by
  have hfirst : reg.renderNode ["app"] table 0 0 (.element "row" [] []) (rowsRendered 0) =
      .ok 1 (rowsRendered 1) := renderNode_row hrow hp rfl rfl rfl rfl
  have hsecond : reg.renderNode ["app"] table 0 0 (.element "row" [] []) (rowsRendered 1) =
      .ok 3 (rowsRendered 2) := renderNode_row hrow hp rfl rfl rfl rfl
  have htemplate : table.template = [.element "row" [] [], .element "row" [] []] := rfl
  simp only [htemplate, Registry.renderNodes, bind_assoc, pure_bind]
  rw [bind_of_ok hfirst, bind_of_ok hsecond]
  rfl

end Table

private theorem mount_table : World.blankPage.mount
    [row, table] 0 = (.ok rowsModule, rowsPage) := by
  have happ : (Registry.empty.registerAll [row, table] []).1.get? "app" = some table := rfl
  have htag : Text.lower (World.blankPage.document.tag 0) = "app" := by decide +kernel
  have hcomponent : (Registry.empty.registerAll [row, table] []).1.renderComponent [] table
      (Registry.mem_of_get? happ) 0 ⟨World.blankPage, []⟩ = .ok [1, 3] (rowsRendered 2) :=
    (renderComponent_fresh (by decide +kernel)).trans (renderNodes_table rfl rfl)
  have hrender :
      World.renderRoot (Registry.empty.registerAll [row, table] []).1 0 "app"
        ⟨World.blankPage, []⟩ =
      .ok () ⟨{ rowsPage with log := [] }, rowsModule.instances⟩ := by
    rw [renderRoot_registered happ, bind_of_ok hcomponent]
    rfl
  exact mount_of_renderRoot htag hrender

/-- Writes to the count of the first row. -/
def countFirst : Script Unit := .set 1 ⟨["count"]⟩ (.integer 1) fun _ => .done

/-- Writing to one of two rows changes its own element only. -/
theorem World.instances_isolated_rows :
    let start : Machine Unit := ⟨rowsPage, [.run countFirst]⟩
    blankPage.mount [row, table] 0 = (.ok rowsModule, rowsPage) ∧
      (run 8 start).world.document.html 0 =
        "<app><row><p title=\"1\"></p></row><row><p title=\"0\"></p></row></app>" ∧
      (run 8 start).world.states[2]? = rowsPage.states[2]? ∧
      (run 8 start).world.document.node 4 = rowsPage.document.node 4 := by
  intro start
  obtain ⟨c, sites, hget, hrendered, hisolated⟩ :=
    instances_isolated (show 0 < 1 by decide) mount_table
    (i := ⟨"row", 1, 1, [0], []⟩) (by simp [rowsModule])
  have hscript : Script.Confined 1 (OwnNode sites rowsPage.document) False countFirst :=
    .set _ _ fun _ => .done
  have hreacts :
      rowsPage.ReactsWithin ⟨"row", 1, 1, [0], []⟩ (OwnNode sites rowsPage.document) False := by
    refine ⟨?_, List.forall_mem_nil _, nofun, False.elim⟩
    intro sub hsub hid
    obtain rfl := List.mem_singleton.1 hsub
    exact absurd List.mem_cons_self hid
  have hprogress : ∀ k < 8, 0 < (run k start).stack.length := by decide +kernel
  obtain ⟨hstates, -, -, hothers⟩ :=
    hisolated [] ⟨rowsPage, []⟩ .refl False countFirst 8 hscript hreacts hprogress
  obtain ⟨-, d, hget', hnodes⟩ := hothers ⟨"row", 2, 3, [0], []⟩ (by simp [rowsModule]) (by decide)
  obtain rfl : row = d := Option.some.inj hget'
  refine ⟨mount_table, by decide +kernel, (hstates 2 (by decide)).1, hnodes 4 (by decide) ?_⟩
  exact .here _ _ _ _

end Rows

end ReactiveMarkup
