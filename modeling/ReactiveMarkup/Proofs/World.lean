-- SUMMARY: What each operation on a world leaves alone.
import ReactiveMarkup.World

/-!
# What operations on a world leave alone

Every operation on a world changes one part of it. The lemmas here say what becomes of the other
parts: the subjects that sources name, and the tree and the behavior of a state.
-/

namespace ReactiveMarkup.World

variable {σ : Type} {w : World σ}

/-- Whether the source names a subject of the world. -/
def HasSource (w : World σ) : SubjectId → Prop
  | .own number => number < w.subjects.length
  | .state state => state < w.states.length

/-! ## Changing a state -/

theorem subject_modifyState {state : StateId} {f : State σ → State σ} (source : SubjectId)
    (hf : ∀ s, (f s).changes = s.changes) :
    (w.modifyState state f).subject source = w.subject source := by
  cases source with
  | own number => rfl
  | state other =>
    simp only [subject, modifyState, List.getElem?_modify]
    by_cases h : state = other
    · cases w.states[other]? <;> simp [h, hf]
    · simp [h]

theorem behavior_modifyState {state : StateId} {f : State σ → State σ} (other : StateId)
    (hf : ∀ s, (f s).behavior = s.behavior) :
    (w.modifyState state f).behavior other = w.behavior other := by
  simp only [behavior, modifyState, List.getElem?_modify]
  by_cases h : state = other
  · cases w.states[other]? <;> simp [h, hf]
  · simp [h]

theorem data_modifyState {state : StateId} {f : State σ → State σ} (other : StateId)
    (hf : ∀ s, (f s).data = s.data) :
    (w.modifyState state f).data other = w.data other := by
  simp only [data, modifyState, List.getElem?_modify]
  by_cases h : state = other
  · cases w.states[other]? <;> simp [h, hf]
  · simp [h]

@[simp] theorem hasSource_modifyState (state : StateId) (f : State σ → State σ)
    (source : SubjectId) : (w.modifyState state f).HasSource source ↔ w.HasSource source := by
  cases source <;> simp [HasSource, modifyState]

/-! ## Putting a subject -/

/-- A subject reads back as it was put, where its source names one. -/
theorem subject_putSubject_self {source : SubjectId} (h : w.HasSource source) (s : Subject σ) :
    (w.putSubject source s).subject source = s := by
  cases source with
  | own number =>
    have hlt : number < w.subjects.length := h
    simp [subject, putSubject, hlt]
  | state state =>
    have hlt : state < w.states.length := h
    simp [subject, putSubject, modifyState, hlt]

/-- A source that names no subject takes none. -/
theorem subject_putSubject_of_not {source : SubjectId} (h : ¬ w.HasSource source) (s : Subject σ) :
    (w.putSubject source s).subject source = w.subject source := by
  cases source with
  | own number =>
    have hge : w.subjects.length ≤ number := Nat.le_of_not_lt h
    simp [subject, putSubject, List.getD_eq_getElem?_getD, List.set_eq_of_length_le hge]
  | state state =>
    have hge : w.states.length ≤ state := Nat.le_of_not_lt h
    simp [subject, putSubject, modifyState, List.getElem?_eq_none hge]

/-- Putting one subject leaves the others alone. -/
theorem subject_putSubject_of_ne {source other : SubjectId} (h : other ≠ source) (s : Subject σ) :
    (w.putSubject source s).subject other = w.subject other := by
  cases source with
  | own number =>
    cases other with
    | own k =>
      have hk : number ≠ k := fun e => h (by rw [e])
      simp [subject, putSubject, List.getD_eq_getElem?_getD, List.getElem?_set_ne hk]
    | state k => rfl
  | state state =>
    cases other with
    | own k => rfl
    | state k =>
      have hk : state ≠ k := fun e => h (by rw [e])
      simp [subject, putSubject, modifyState, hk]

@[simp] theorem behavior_putSubject (source : SubjectId) (s : Subject σ) (state : StateId) :
    (w.putSubject source s).behavior state = w.behavior state := by
  cases source with
  | own number => rfl
  | state other => exact behavior_modifyState state (by intro; rfl)

@[simp] theorem data_putSubject (source : SubjectId) (s : Subject σ) (state : StateId) :
    (w.putSubject source s).data state = w.data state := by
  cases source with
  | own number => rfl
  | state other => exact data_modifyState state (by intro; rfl)

@[simp] theorem hasSource_putSubject (source other : SubjectId) (s : Subject σ) :
    (w.putSubject source s).HasSource other ↔ w.HasSource other := by
  cases source with
  | own number => cases other <;> simp [HasSource, putSubject]
  | state state => exact hasSource_modifyState state _ other

@[simp] theorem queue_putSubject (source : SubjectId) (s : Subject σ) :
    (w.putSubject source s).queue = w.queue := by
  cases source <;> rfl

@[simp] theorem document_putSubject (source : SubjectId) (s : Subject σ) :
    (w.putSubject source s).document = w.document := by
  cases source <;> rfl

/-! ## Operations that touch no subject -/

@[simp] theorem subject_write (e : Entry) (source : SubjectId) :
    (w.write e).subject source = w.subject source := by cases source <;> rfl

@[simp] theorem subject_defer (t : Task σ) (source : SubjectId) :
    (w.defer t).subject source = w.subject source := by cases source <;> rfl

@[simp] theorem subject_retain (state : StateId) (source : SubjectId) :
    (w.retain state).subject source = w.subject source :=
  subject_modifyState source (by intro; rfl)

@[simp] theorem subject_release (state : StateId) (source : SubjectId) :
    (w.release state).subject source = w.subject source :=
  subject_modifyState source (by intro; rfl)

@[simp] theorem subject_unlisten (id : ListenerId) (source : SubjectId) :
    (w.unlisten id).subject source = w.subject source := by cases source <;> rfl

@[simp] theorem subject_listen (node : NodeId) (event : String) (owner : Option StateId)
    (callback : Script σ) (source : SubjectId) :
    (w.listen node event owner callback).2.subject source = w.subject source := by
  cases source <;> rfl

@[simp] theorem subject_edit (e : Edit) (source : SubjectId) :
    (w.edit e).2.subject source = w.subject source := by
  unfold edit
  split <;> cases source <;> rfl

/-- A write to the tree of a state leaves all subjects alone. -/
@[simp] theorem subject_assign (state : StateId) (path : Path) (v : Value) (source : SubjectId) :
    (w.assign state path v).2.subject source = w.subject source := by
  unfold assign
  split
  · rfl
  · next tree change? _ =>
    cases change? with
    | none => exact subject_modifyState source (by intro; rfl)
    | some c =>
      simp only [subject_write]
      exact subject_modifyState source (by intro; rfl)

@[simp] theorem hasSource_assign (state : StateId) (path : Path) (v : Value) (source : SubjectId) :
    (w.assign state path v).2.HasSource source ↔ w.HasSource source := by
  unfold assign
  split
  · rfl
  · next tree change? _ =>
    cases change? with
    | none => exact hasSource_modifyState state _ source
    | some c =>
      have h := hasSource_modifyState (w := w) state (fun s => { s with data := tree }) source
      cases source <;> exact h

@[simp] theorem hasSource_edit (e : Edit) (source : SubjectId) :
    (w.edit e).2.HasSource source ↔ w.HasSource source := by
  unfold edit
  split <;> cases source <;> rfl

@[simp] theorem hasSource_write (e : Entry) (source : SubjectId) :
    (w.write e).HasSource source ↔ w.HasSource source := by cases source <;> rfl

@[simp] theorem hasSource_defer (t : Task σ) (source : SubjectId) :
    (w.defer t).HasSource source ↔ w.HasSource source := by cases source <;> rfl

@[simp] theorem hasSource_retain (state : StateId) (source : SubjectId) :
    (w.retain state).HasSource source ↔ w.HasSource source := hasSource_modifyState state _ source

@[simp] theorem hasSource_release (state : StateId) (source : SubjectId) :
    (w.release state).HasSource source ↔ w.HasSource source := hasSource_modifyState state _ source

@[simp] theorem hasSource_unlisten (id : ListenerId) (source : SubjectId) :
    (w.unlisten id).HasSource source ↔ w.HasSource source := by cases source <;> rfl

@[simp] theorem hasSource_listen (node : NodeId) (event : String) (owner : Option StateId)
    (callback : Script σ) (source : SubjectId) :
    (w.listen node event owner callback).2.HasSource source ↔ w.HasSource source := by
  cases source <;> rfl

/-! ## Joining and leaving -/

@[simp] theorem hasSource_register (source other : SubjectId)
    (callback : Option Notice → Script σ) :
    (w.register source callback).2.HasSource other ↔ w.HasSource other :=
  hasSource_putSubject source other _

@[simp] theorem hasSource_unsubscribe (source other : SubjectId) (id : Nat) :
    (w.unsubscribe source id).HasSource other ↔ w.HasSource other :=
  hasSource_putSubject source other _

theorem subject_register_self {source : SubjectId} (h : w.HasSource source)
    (callback : Option Notice → Script σ) :
    (w.register source callback).2.subject source = ((w.subject source).register callback).2 :=
  subject_putSubject_self h _

theorem subject_register_of_ne {source other : SubjectId} (h : other ≠ source)
    (callback : Option Notice → Script σ) :
    (w.register source callback).2.subject other = w.subject other :=
  subject_putSubject_of_ne h _

theorem subject_unsubscribe_self {source : SubjectId} (h : w.HasSource source) (id : Nat) :
    (w.unsubscribe source id).subject source = (w.subject source).remove id :=
  subject_putSubject_self h _

theorem subject_unsubscribe_of_ne {source other : SubjectId} (h : other ≠ source) (id : Nat) :
    (w.unsubscribe source id).subject other = w.subject other :=
  subject_putSubject_of_ne h _

/-! ## Releasing instances -/

/-- What giving up a subscription, a listener or a holder preserves, releasing instances
preserves. -/
theorem releaseAll_preserves {P : World σ → Prop}
    (hu : ∀ w state id, P w → P (World.unsubscribe w (.state state) id))
    (hl : ∀ w id, P w → P (World.unlisten w id)) (hr : ∀ w state, P w → P (World.release w state))
    (instances : List Instance) (h : P w) : P (w.releaseAll instances) := by
  -- An instance is released by two folds and one release, so each fold is treated first.
  have hus : ∀ (state : StateId) (ids : List Nat) (w : World σ), P w →
      P (ids.foldl (fun w id => World.unsubscribe w (.state state) id) w) := by
    intro state ids
    induction ids with
    | nil => exact fun w hw => hw
    | cons id ids ih => exact fun w hw => ih _ (hu w state id hw)
  have hls : ∀ (ids : List ListenerId) (w : World σ), P w → P (ids.foldl unlisten w) := by
    intro ids
    induction ids with
    | nil => exact fun w hw => hw
    | cons id ids ih => exact fun w hw => ih _ (hl w id hw)
  unfold releaseAll
  induction instances generalizing w with
  | nil => exact h
  | cons i rest ih => exact ih (hr _ _ (hls _ _ (hus _ _ _ h)))

@[simp] theorem hasSource_releaseAll (instances : List Instance) (source : SubjectId) :
    (w.releaseAll instances).HasSource source ↔ w.HasSource source :=
  releaseAll_preserves (P := fun w' => w'.HasSource source ↔ w.HasSource source)
    (fun _ state id h => (hasSource_unsubscribe (.state state) source id).trans h)
    (fun _ id h => (hasSource_unlisten id source).trans h)
    (fun _ state h => (hasSource_release state source).trans h) instances .rfl

@[simp] theorem hasSource_unmount (m : Module) (source : SubjectId) :
    (w.unmount m).HasSource source ↔ w.HasSource source := by
  simp only [unmount, hasSource_releaseAll, hasSource_write]

theorem subject_unsubscribeAll_self {source : SubjectId} (h : w.HasSource source) (ids : List Nat) :
    (ids.foldl (fun w id => World.unsubscribe w source id) w).subject source =
      ids.foldl Subject.remove (w.subject source) := by
  induction ids generalizing w with
  | nil => rfl
  | cons id ids ih =>
    rw [List.foldl_cons, ih ((hasSource_unsubscribe source source id).2 h),
      subject_unsubscribe_self h, List.foldl_cons]

theorem subject_unsubscribeAll_of_ne {source other : SubjectId} (h : other ≠ source)
    (ids : List Nat) :
    (ids.foldl (fun w id => World.unsubscribe w source id) w).subject other = w.subject other := by
  induction ids generalizing w with
  | nil => rfl
  | cons id ids ih => rw [List.foldl_cons, ih, subject_unsubscribe_of_ne h]

theorem subject_unlistenAll (ids : List ListenerId) (source : SubjectId) :
    (ids.foldl unlisten w).subject source = w.subject source := by
  induction ids generalizing w with
  | nil => rfl
  | cons id ids ih => rw [List.foldl_cons, ih, subject_unlisten]

/-- The subscriptions of instances at one source. -/
def subscriptionsAt (source : SubjectId) (instances : List Instance) : List Nat :=
  instances.flatMap fun i => if SubjectId.state i.state = source then i.subscriptions else []

/-- Releasing instances gives up their subscriptions, one after the other. -/
theorem subject_releaseAll {source : SubjectId} (h : w.HasSource source)
    (instances : List Instance) :
    (w.releaseAll instances).subject source =
      (subscriptionsAt source instances).foldl Subject.remove (w.subject source) := by
  unfold releaseAll
  induction instances generalizing w with
  | nil => rfl
  | cons i rest ih =>
    -- Only an instance whose own state is the source has subscriptions there.
    have hi : (w.releaseInstance i).subject source =
        (if SubjectId.state i.state = source then i.subscriptions else []).foldl Subject.remove
          (w.subject source) := by
      simp only [releaseInstance, subject_release, subject_unlistenAll]
      split
      · next e => rw [← e, subject_unsubscribeAll_self (e ▸ h)]
      · next e => exact subject_unsubscribeAll_of_ne (Ne.symm e) _
    have hn : (w.releaseInstance i).HasSource source :=
      (hasSource_releaseAll [i] source).2 h
    rw [List.foldl_cons, ih hn, hi]
    simp only [subscriptionsAt, List.flatMap_cons, List.foldl_append]

/-- Releasing instances touches neither the memory nor the subjects that belong to no state. -/
theorem memory_subjects_releaseAll (instances : List Instance) :
    (w.releaseAll instances).memory = w.memory ∧ (w.releaseAll instances).subjects = w.subjects :=
  releaseAll_preserves (P := fun w' => w'.memory = w.memory ∧
    w'.subjects = w.subjects) (fun _ _ _ h => h)
    (fun _ _ h => h) (fun _ _ h => h) instances ⟨rfl, rfl⟩

theorem listeners_unsubscribeAll (source : SubjectId) (ids : List Nat) :
    (ids.foldl (fun w id => World.unsubscribe w source id) w).listeners = w.listeners := by
  induction ids generalizing w with
  | nil => rfl
  | cons id ids ih =>
    rw [List.foldl_cons, ih]
    cases source <;> rfl

theorem states_unlistenAll (ids : List ListenerId) : (ids.foldl unlisten w).states = w.states := by
  induction ids generalizing w with
  | nil => rfl
  | cons id ids ih => exact ih

theorem listeners_unlistenAll (ids : List ListenerId) :
    (ids.foldl unlisten w).listeners = w.listeners.filter fun l => !ids.contains l.id := by
  induction ids generalizing w with
  | nil =>
    have hall : w.listeners.filter (fun l => !List.contains [] l.id) = w.listeners :=
      List.filter_eq_self.2 (by simp)
    exact hall.symm
  | cons id ids ih =>
    rw [List.foldl_cons, ih, unlisten, List.filter_filter]
    congr 1
    funext l
    by_cases hl : l.id = id <;> simp [hl]

/-- Releasing instances takes their listeners away. -/
theorem listeners_releaseAll (instances : List Instance) :
    (w.releaseAll instances).listeners =
      w.listeners.filter fun l => !instances.any fun i => i.listeners.contains l.id := by
  unfold releaseAll
  induction instances generalizing w with
  | nil =>
    have hall :
        w.listeners.filter (fun l => !List.any [] fun i : Instance => i.listeners.contains l.id) =
        w.listeners := List.filter_eq_self.2 (by simp)
    exact hall.symm
  | cons i rest ih =>
    have hi : (w.releaseInstance i).listeners = w.listeners.filter fun l =>
        !i.listeners.contains l.id := by
      have hunlisten : (w.releaseInstance i).listeners = _ := listeners_unlistenAll i.listeners
      rw [hunlisten, listeners_unsubscribeAll]
    rw [List.foldl_cons, ih, hi, List.filter_filter]
    congr 1
    funext l
    simp [Bool.and_comm]

/-- Releasing instances leaves the states of others alone. -/
theorem getElem?_states_releaseAll {state : StateId} {instances : List Instance}
    (h : ∀ i ∈ instances, i.state ≠ state) : (w.releaseAll instances).states[state]? =
      w.states[state]? := by
  unfold releaseAll
  induction instances generalizing w with
  | nil => rfl
  | cons i rest ih =>
    obtain ⟨hi, hrest⟩ := List.forall_mem_cons.1 h
    have hmodify : ∀ (w : World σ) (f : State σ → State σ),
        (w.modifyState i.state f).states[state]? = w.states[state]? := fun w f => by
      simp [modifyState, hi]
    have hsubscriptions : ∀ (ids : List Nat) (w : World σ),
        (ids.foldl (fun w id => World.unsubscribe w (.state i.state) id) w).states[state]? =
          w.states[state]? := by
      intro ids
      induction ids with
      | nil => exact fun _ => rfl
      | cons id ids ih => exact fun w => (ih _).trans (hmodify w _)
    rw [List.foldl_cons, ih hrest, releaseInstance, release, hmodify, states_unlistenAll,
      hsubscriptions]

theorem subject_unmount {source : SubjectId} (h : w.HasSource source) (m : Module) :
    (w.unmount m).subject source =
      (subscriptionsAt source m.instances).foldl Subject.remove (w.subject source) := by
  rw [unmount, subject_releaseAll ((hasSource_write _ source).2 h), subject_write]

/-! ## Operations that touch neither behaviors nor the queue -/

@[simp] theorem behavior_write (e : Entry) (state : StateId) :
    (w.write e).behavior state = w.behavior state := rfl

@[simp] theorem behavior_memory (memory : σ) (state : StateId) :
    World.behavior { w with memory } state = w.behavior state := rfl

@[simp] theorem behavior_defer (t : Task σ) (state : StateId) :
    (w.defer t).behavior state = w.behavior state := rfl

@[simp] theorem behavior_retain (state other : StateId) :
    (w.retain state).behavior other = w.behavior other :=
  behavior_modifyState other (by intro; rfl)

@[simp] theorem behavior_release (state other : StateId) :
    (w.release state).behavior other = w.behavior other :=
  behavior_modifyState other (by intro; rfl)

@[simp] theorem behavior_unlisten (id : ListenerId) (state : StateId) :
    (w.unlisten id).behavior state = w.behavior state := rfl

@[simp] theorem behavior_listen (node : NodeId) (event : String) (owner : Option StateId)
    (callback : Script σ) (state : StateId) :
    (w.listen node event owner callback).2.behavior state = w.behavior state := rfl

@[simp] theorem behavior_edit (e : Edit) (state : StateId) :
    (w.edit e).2.behavior state = w.behavior state := by
  unfold edit
  split <;> rfl

@[simp] theorem behavior_assign (state : StateId) (path : Path) (v : Value) (other : StateId) :
    (w.assign state path v).2.behavior other = w.behavior other := by
  unfold assign
  split
  · rfl
  · next tree change? _ =>
    cases change? with
    | none => exact behavior_modifyState other (by intro; rfl)
    | some c => exact behavior_modifyState (w := w) other (by intro; rfl)

@[simp] theorem behavior_register (source : SubjectId) (callback : Option Notice → Script σ)
    (state : StateId) : (w.register source callback).2.behavior state = w.behavior state :=
  behavior_putSubject source _ state

@[simp] theorem behavior_unsubscribe (source : SubjectId) (id : Nat) (state : StateId) :
    (w.unsubscribe source id).behavior state = w.behavior state :=
  behavior_putSubject source _ state

@[simp] theorem behavior_unmount (m : Module) (state : StateId) :
    (w.unmount m).behavior state = w.behavior state :=
  releaseAll_preserves (P := fun w' => w'.behavior state = w.behavior state)
    (fun _ other id h => (behavior_unsubscribe (.state other) id state).trans h)
    (fun _ id h => (behavior_unlisten id state).trans h)
    (fun _ other h => (behavior_release other state).trans h) m.instances rfl

@[simp] theorem queue_write (e : Entry) : (w.write e).queue = w.queue := rfl

@[simp] theorem queue_retain (state : StateId) : (w.retain state).queue = w.queue := rfl

@[simp] theorem queue_release (state : StateId) : (w.release state).queue = w.queue := rfl

@[simp] theorem queue_unlisten (id : ListenerId) : (w.unlisten id).queue = w.queue := rfl

@[simp] theorem queue_listen (node : NodeId) (event : String) (owner : Option StateId)
    (callback : Script σ) : (w.listen node event owner callback).2.queue = w.queue := rfl

@[simp] theorem queue_edit (e : Edit) : (w.edit e).2.queue = w.queue := by
  unfold edit
  split <;> rfl

@[simp] theorem queue_assign (state : StateId) (path : Path) (v : Value) :
    (w.assign state path v).2.queue = w.queue := by
  unfold assign
  split
  · rfl
  · next tree change? _ => cases change? <;> rfl

@[simp] theorem queue_register (source : SubjectId) (callback : Option Notice → Script σ) :
    (w.register source callback).2.queue = w.queue := queue_putSubject source _

@[simp] theorem queue_unsubscribe (source : SubjectId) (id : Nat) :
    (w.unsubscribe source id).queue = w.queue := queue_putSubject source _

@[simp] theorem queue_releaseAll (instances : List Instance) :
    (w.releaseAll instances).queue = w.queue :=
  releaseAll_preserves (P := fun w' => w'.queue = w.queue) (fun _ _ _ h => h) (fun _ _ h => h)
    (fun _ _ h => h) instances rfl

@[simp] theorem queue_unmount (m : Module) : (w.unmount m).queue = w.queue :=
  queue_releaseAll m.instances

/-! ## Operations that touch no tree -/

@[simp] theorem data_write (e : Entry) (state : StateId) : (w.write e).data state =
    w.data state := rfl

@[simp] theorem data_memory (memory : σ) (state : StateId) :
    World.data { w with memory } state = w.data state := rfl

@[simp] theorem data_defer (t : Task σ) (state : StateId) : (w.defer t).data state =
    w.data state := rfl

@[simp] theorem data_retain (state other : StateId) : (w.retain state).data other = w.data other :=
  data_modifyState other (by intro; rfl)

@[simp] theorem data_release (state other : StateId) : (w.release state).data other =
    w.data other :=
  data_modifyState other (by intro; rfl)

@[simp] theorem data_unlisten (id : ListenerId) (state : StateId) :
    (w.unlisten id).data state = w.data state := rfl

@[simp] theorem data_listen (node : NodeId) (event : String) (owner : Option StateId)
    (callback : Script σ) (state : StateId) :
    (w.listen node event owner callback).2.data state = w.data state := rfl

@[simp] theorem data_edit (e : Edit) (state : StateId) : (w.edit e).2.data state =
    w.data state := by
  unfold edit
  split <;> rfl

@[simp] theorem data_register (source : SubjectId) (callback : Option Notice → Script σ)
    (state : StateId) : (w.register source callback).2.data state = w.data state :=
  data_putSubject source _ state

@[simp] theorem data_unsubscribe (source : SubjectId) (id : Nat) (state : StateId) :
    (w.unsubscribe source id).data state = w.data state :=
  data_putSubject source _ state

@[simp] theorem data_unmount (m : Module) (state : StateId) : (w.unmount m).data state =
    w.data state :=
  releaseAll_preserves (P := fun w' => w'.data state = w.data state)
    (fun _ other id h => (data_unsubscribe (.state other) id state).trans h)
    (fun _ id h => (data_unlisten id state).trans h)
    (fun _ other h => (data_release other state).trans h) m.instances rfl

theorem data_assign_of_ne {state other : StateId} (h : other ≠ state) (path : Path) (v : Value) :
    (w.assign state path v).2.data other = w.data other := by
  have hset : ∀ tree, (w.modifyState state fun s => { s with data := tree }).data other =
      w.data other := by
    intro tree
    simp [data, modifyState, Ne.symm h]
  unfold assign
  split
  · rfl
  · next tree change? _ => cases change? <;> exact hset tree

theorem data_modifyState_self {state : StateId} (h : state < w.states.length) (tree : Value) :
    (w.modifyState state fun s => { s with data := tree }).data state = tree := by
  simp [data, modifyState, h]

/-- The outcomes of a write: it is refused, or the tree is written, with a change or without. -/
theorem assign_cases (w : World σ) (state : StateId) (path : Path) (v : Value) :
    (∃ e, w.assign state path v = (.error e, w)) ∨
    (∃ tree, path.write (w.data state) v = .ok (tree, none) ∧
      w.assign state path v = (.ok none, w.modifyState state fun s => { s with data := tree })) ∨
    (∃ tree c, path.write (w.data state) v = .ok (tree, some c) ∧
      w.assign state path v =
        (.ok (some c),
          (w.modifyState state fun s => { s with data := tree }).write (changeRecord c))) := by
  cases hw : path.write (w.data state) v with
  | error e => exact .inl ⟨e, by simp only [assign, hw]⟩
  | ok p =>
    obtain ⟨tree, _ | c⟩ := p
    · exact .inr (.inl ⟨tree, rfl, by simp only [assign, hw]⟩)
    · exact .inr (.inr ⟨tree, c, rfl, by simp only [assign, hw]⟩)

/-! ## Operations that touch no document -/

@[simp] theorem document_write (e : Entry) : (w.write e).document = w.document := rfl

@[simp] theorem document_defer (t : Task σ) : (w.defer t).document = w.document := rfl

@[simp] theorem document_retain (state : StateId) : (w.retain state).document = w.document := rfl

@[simp] theorem document_release (state : StateId) : (w.release state).document = w.document := rfl

@[simp] theorem document_unlisten (id : ListenerId) : (w.unlisten id).document = w.document := rfl

@[simp] theorem document_listen (node : NodeId) (event : String) (owner : Option StateId)
    (callback : Script σ) : (w.listen node event owner callback).2.document = w.document := rfl

@[simp] theorem document_register (source : SubjectId) (callback : Option Notice → Script σ) :
    (w.register source callback).2.document = w.document := document_putSubject source _

@[simp] theorem document_unsubscribe (source : SubjectId) (id : Nat) :
    (w.unsubscribe source id).document = w.document := document_putSubject source _

@[simp] theorem document_releaseAll (instances : List Instance) :
    (w.releaseAll instances).document = w.document :=
  releaseAll_preserves (P := fun w' => w'.document = w.document) (fun _ _ _ h => h) (fun _ _ h => h)
    (fun _ _ h => h) instances rfl

@[simp] theorem document_unmount (m : Module) : (w.unmount m).document = w.document :=
  document_releaseAll m.instances

@[simp] theorem document_assign (state : StateId) (path : Path) (v : Value) :
    (w.assign state path v).2.document = w.document := by
  unfold assign
  split
  · rfl
  · next tree change? _ => cases change? <;> rfl

end ReactiveMarkup.World
