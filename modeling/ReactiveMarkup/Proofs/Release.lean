-- SUMMARY: A mount that fails releases all that it has registered.
import ReactiveMarkup.Proofs.Delivery
import ReactiveMarkup.Proofs.Departed
import ReactiveMarkup.Proofs.WellFormed

/-!
# Failed mounts

A mount that fails leaves no trace but lines in the log. While it goes on its instances account for
all listeners and subscriptions that it makes (`Render.Accounts`, which every move preserves), so
that releasing them takes all of these away. `World.mount_error_restores` says what is left then.
-/

namespace ReactiveMarkup

variable {σ : Type}

/-- Listeners have different numbers from those that will be given out. -/
def World.ListenersNumbered (w : World σ) : Prop := ∀ l ∈ w.listeners, l.id < w.nextListener

/-- What was there before is as it was, and what was made since is not registered. -/
structure World.Restored (w w' : World σ) : Prop where
  length_le : w.document.nodes.length ≤ w'.document.nodes.length
  node : ∀ y < w.document.nodes.length, w'.document.node y = w.document.node y
  listeners : w'.listeners = w.listeners
  states : ∀ s < w.states.length, w'.states[s]? = w.states[s]?
  subscribers : ∀ s, w.states.length ≤ s → (w'.subject (.state s)).subscribers = []
  memory : w'.memory = w.memory
  subjects : w'.subjects = w.subjects
  queue : w'.queue = w.queue

/-- The listeners and subscribers that were registered on the way from one world to another with
more states. -/
def Callbacks.madeBetween (w w' : World σ) : Callbacks where
  listener id := w.nextListener ≤ id ∧ id < w'.nextListener
  subscriber
    | .state s, id => w.states.length ≤ s ∧ id < (w'.subject (.state s)).nextId
    | .own _, _ => False

namespace Render

/-! ## What the instances hold -/

/-- The instances of a rendering that began in the world hold all that it has registered, and
nothing that was there before. -/
structure Accounts (w : World σ) (r : Rendering σ) : Prop where
  listeners : ∃ made, r.world.listeners = w.listeners ++ made ∧
    ∀ l ∈ made, ∃ i ∈ r.instances, l.id ∈ i.listeners
  numbers_le : w.nextListener ≤ r.world.nextListener
  numbers : ∀ i ∈ r.instances, ∀ id ∈ i.listeners, w.nextListener ≤ id
  states_le : w.states.length ≤ r.world.states.length
  states : ∀ s < w.states.length, r.world.states[s]? = w.states[s]?
  places : ∀ i ∈ r.instances, w.states.length ≤ i.state ∧ i.state < r.world.states.length
  subscribers : ∀ s, w.states.length ≤ s → ∀ sub ∈ (r.world.subject (.state s)).subscribers,
    ∃ i ∈ r.instances, i.state = s ∧ sub.id ∈ i.subscriptions
  memory : r.world.memory = w.memory
  subjects : r.world.subjects = w.subjects
  queue : r.world.queue = w.queue

section Accounts

variable {w : World σ} {log : Log} {r r' : Rendering σ} {may : NodeId → Prop} {place : Nat}
  {state : StateId}

/-- At the beginning there is nothing to account for. -/
theorem accounts_start (log : Log) : Accounts w ⟨{ w with log }, []⟩ where
  listeners := ⟨[], (List.append_nil _).symm, nofun⟩
  numbers_le := Nat.le_refl _
  numbers := nofun
  states_le := Nat.le_refl _
  states _ _ := rfl
  places := nofun
  subscribers s hs sub hsub := by
    have hnone : w.states[s]? = none := List.getElem?_eq_none hs
    simp [World.subject, hnone] at hsub
  memory := rfl
  subjects := rfl
  queue := rfl

theorem mem_modify {l : List Instance} {i : Instance} {f : Instance → Instance}
    (h : i ∈ l.modify place f) : i ∈ l ∨ ∃ j ∈ l, i = f j := by
  obtain ⟨k, hk⟩ := List.mem_iff_getElem?.1 h
  rw [List.getElem?_modify] at hk
  cases hl : l[k]? with
  | none => simp [hl] at hk
  | some j =>
    have hj := List.mem_of_getElem? hl
    by_cases hp : place = k
    · exact .inr ⟨j, hj, by simpa [hl, hp] using hk.symm⟩
    · obtain rfl : j = i := by simpa [hl, hp] using hk
      exact .inl hj

theorem exists_mem_modify {l : List Instance} {i : Instance} {f : Instance → Instance} (h : i ∈ l) :
    ∃ j ∈ l.modify place f, j = i ∨ j = f i := by
  obtain ⟨k, hk⟩ := List.mem_iff_getElem?.1 h
  by_cases hp : place = k
  · exact ⟨f i, List.mem_of_getElem? (i := k) (by simp [hp, hk]), .inr rfl⟩
  · exact ⟨i, List.mem_of_getElem? (i := k) (by simp [hp, hk]), .inl rfl⟩

theorem mem_modify_self {l : List Instance} {i : Instance} {f : Instance → Instance}
    (h : l[place]? = some i) : f i ∈ l.modify place f :=
  List.mem_of_getElem? (i := place) (by simp [h])

/-- An instance may be given more to hold. -/
theorem Accounts.modify (h : Accounts w r) {f : Instance → Instance}
    (hstate : ∀ i, (f i).state = i.state) (hlisteners : ∀ i, i.listeners ⊆ (f i).listeners)
    (hsubscriptions : ∀ i, i.subscriptions ⊆ (f i).subscriptions)
    (hnumbers : ∀ i ∈ r.instances, ∀ id ∈ (f i).listeners, w.nextListener ≤ id) :
    Accounts w { r with instances := r.instances.modify place f } where
  listeners := by
    obtain ⟨made, hmade, hheld⟩ := h.listeners
    refine ⟨made, hmade, fun l hl => ?_⟩
    obtain ⟨i, hi, hid⟩ := hheld l hl
    obtain ⟨j, hj, rfl | rfl⟩ := exists_mem_modify hi
    · exact ⟨_, hj, hid⟩
    · exact ⟨_, hj, hlisteners i hid⟩
  numbers_le := h.numbers_le
  numbers i hi := by
    obtain hi | ⟨j, hj, rfl⟩ := mem_modify hi
    · exact h.numbers i hi
    · exact hnumbers j hj
  states_le := h.states_le
  states := h.states
  places i hi := by
    obtain hi | ⟨j, hj, rfl⟩ := mem_modify hi
    · exact h.places i hi
    · exact hstate j ▸ h.places j hj
  subscribers s hs sub hsub := by
    obtain ⟨i, hi, hs, hid⟩ := h.subscribers s hs sub hsub
    obtain ⟨j, hj, rfl | rfl⟩ := exists_mem_modify hi
    · exact ⟨_, hj, hs, hid⟩
    · exact ⟨_, hj, (hstate i).trans hs, hsubscriptions i hid⟩
  memory := h.memory
  subjects := h.subjects
  queue := h.queue

/-- A subscriber may join where an instance holds its number. -/
theorem Accounts.register (h : Accounts w r) (callback : Option Notice → Script σ) {i : Instance}
    (hi : i ∈ r.instances) (hstate : i.state = state)
    (hid : (r.world.subject (.state state)).nextId ∈ i.subscriptions) :
    Accounts w { r with world := (r.world.register (.state state) callback).2 } := by
  subst hstate
  obtain ⟨hnew, hlt⟩ := h.places i hi
  have hlength : (r.world.register (.state i.state) callback).2.states.length =
      r.world.states.length := by
    simp [World.register, World.putSubject, World.modifyState]
  constructor
  case listeners => exact h.listeners
  case numbers_le => exact h.numbers_le
  case numbers => exact h.numbers
  case states_le => exact hlength ▸ h.states_le
  case states =>
    intro s hs
    have hne : i.state ≠ s := Nat.ne_of_gt (Nat.lt_of_lt_of_le hs hnew)
    rw [← h.states s hs]
    simp [World.register, World.putSubject, World.modifyState, hne]
  case places => exact fun j hj => hlength ▸ h.places j hj
  case subscribers =>
    intro s hs sub hsub
    by_cases he : s = i.state
    · subst he
      have hsource : r.world.HasSource (.state i.state) := hlt
      rw [World.subject_register_self hsource callback] at hsub
      rcases List.mem_append.1 hsub with hold | hjoined
      · exact h.subscribers _ hs sub hold
      · obtain rfl := List.mem_singleton.1 hjoined
        exact ⟨i, hi, rfl, hid⟩
    · have hother : (SubjectId.state s) ≠ .state i.state := fun h => he (SubjectId.state.inj h)
      rw [World.subject_register_of_ne hother] at hsub
      exact h.subscribers s hs sub hsub
  case memory => exact h.memory
  case subjects => exact h.subjects
  case queue => exact (World.queue_register _ callback).trans h.queue

/-- A listener may be registered where an instance holds its number. -/
theorem Accounts.listen (h : Accounts w r) (node : NodeId) (event : String) (owner : Option StateId)
    (callback : Script σ) {i : Instance} (hi : i ∈ r.instances)
    (hid : r.world.nextListener ∈ i.listeners) :
    Accounts w { r with world := (r.world.listen node event owner callback).2 } :=
  { h with
    listeners := by
      obtain ⟨made, hmade, hheld⟩ := h.listeners
      refine ⟨made ++ [⟨r.world.nextListener, node, event, owner, callback⟩], ?_, fun l hl => ?_⟩
      · rw [← List.append_assoc, ← hmade]
        rfl
      · rcases List.mem_append.1 hl with hl | hl
        · exact hheld l hl
        · obtain rfl := List.mem_singleton.1 hl
          exact ⟨i, hi, hid⟩
    numbers_le := Nat.le_succ_of_le h.numbers_le }

/-- A new instance holds nothing, and nobody has subscribed to its state. -/
theorem Accounts.instantiate (h : Accounts w r) (c : Component σ) (container : NodeId) :
    Accounts w (instantiated c container r) := by
  have hlength : (instantiated c container r).world.states.length = r.world.states.length + 1 := by
    simp [instantiated, Component.instantiate, World.newState]
  have hinstances : (instantiated c container r).instances =
      r.instances ++ [⟨c.selector, r.world.states.length, container, [], []⟩] := rfl
  constructor
  case listeners =>
    obtain ⟨made, hmade, hheld⟩ := h.listeners
    refine ⟨made, hmade, fun l hl => ?_⟩
    obtain ⟨i, hi, hid⟩ := hheld l hl
    exact ⟨i, List.mem_append_left _ hi, hid⟩
  case numbers_le => exact h.numbers_le
  case numbers =>
    intro i hi
    rcases List.mem_append.1 (hinstances ▸ hi) with hi | hi
    · exact h.numbers i hi
    · obtain rfl := List.mem_singleton.1 hi
      intro id hid
      cases hid
  case states_le => exact hlength ▸ Nat.le_succ_of_le h.states_le
  case states =>
    intro s hs
    rw [← h.states s hs]
    exact List.getElem?_append_left (Nat.lt_of_lt_of_le hs h.states_le)
  case places =>
    intro i hi
    rw [hlength]
    rcases List.mem_append.1 (hinstances ▸ hi) with hi | hi
    · exact ⟨(h.places i hi).1, Nat.lt_succ_of_lt (h.places i hi).2⟩
    · obtain rfl := List.mem_singleton.1 hi
      exact ⟨h.states_le, Nat.lt_succ_self _⟩
  case subscribers =>
    intro s hs sub hsub
    have hold : sub ∈ (r.world.subject (.state s)).subscribers := by
      rcases Nat.lt_or_ge s r.world.states.length with hlt | hge
      · simpa [instantiated, Component.instantiate, World.newState, World.subject,
          List.getElem?_append_left hlt] using hsub
      · have hempty : ((instantiated c container r).world.subject (.state s)).subscribers = [] := by
          simp only [instantiated, Component.instantiate, World.newState, World.subject,
            List.getElem?_append_right hge]
          cases s - r.world.states.length <;> rfl
        rw [hempty] at hsub
        cases hsub
    obtain ⟨i, hi, hstate, hid⟩ := h.subscribers s hs sub hold
    exact ⟨i, List.mem_append_left _ hi, hstate, hid⟩
  case memory => exact h.memory
  case subjects => exact h.subjects
  case queue => exact h.queue

theorem Accounts.move (h : Accounts w r) (hm : Move may r r') : Accounts w r' := by
  cases hm with
  | edit _ _ => exact { h with }
  | instantiate c container => exact h.instantiate c container
  | subscribe callback owner =>
    obtain ⟨i, hi, rfl⟩ := owner
    -- The instance holds the number from before the subscriber joins.
    refine Accounts.register (Accounts.modify h ?_ ?_ ?_ ?_) callback (mem_modify_self hi) rfl ?_
    · exact fun _ => rfl
    · exact fun _ => List.Subset.refl _
    · exact fun _ => List.subset_append_left _ _
    · exact h.numbers
    · exact List.mem_append_right _ (List.mem_singleton_self _)
  | listen event callback owner target made =>
    obtain ⟨i, hi, _⟩ := owner
    refine Accounts.listen (Accounts.modify h ?_ ?_ ?_ ?_) _ event _ callback
      (mem_modify_self hi) ?_
    · exact fun _ => rfl
    · exact fun _ => List.subset_append_left _ _
    · exact fun _ => List.Subset.refl _
    · intro j hj id hid
      rcases List.mem_append.1 hid with hold | hnew
      · exact h.numbers j hj id hold
      · exact List.mem_singleton.1 hnew ▸ h.numbers_le
    · exact List.mem_append_right _ (List.mem_singleton_self _)

theorem Accounts.moves (h : Accounts w r) (hm : Moves may r r') : Accounts w r' := by
  induction hm with
  | refl => exact h
  | tail _ last ih => exact ih.move last

/-! ## What is left after the release -/

/-- When the instances are released, what was made since the beginning is gone. -/
private theorem Accounts.restored (h : Accounts w r)
    (hk : Keeps (w.document.nodes.length ≤ ·) ⟨{ w with log }, []⟩ r) (hl : w.ListenersNumbered) :
    w.Restored (r.world.releaseAll r.instances) := by
  have hdocument : (r.world.releaseAll r.instances).document = r.world.document :=
    World.document_releaseAll r.instances
  obtain ⟨hmemory, hsubjects⟩ : (r.world.releaseAll r.instances).memory = r.world.memory ∧
      (r.world.releaseAll r.instances).subjects = r.world.subjects :=
    World.memory_subjects_releaseAll r.instances
  constructor
  case length_le => exact hdocument ▸ hk.length_le
  case node => exact fun y hy => hdocument ▸ hk.node y hy (Nat.not_le_of_lt hy)
  case listeners =>
    obtain ⟨made, hmade, hheld⟩ := h.listeners
    have hold : w.listeners.filter (fun l => !r.instances.any fun i => i.listeners.contains l.id) =
        w.listeners := by
      refine List.filter_eq_self.2 fun l hmem => ?_
      simp only [Bool.not_eq_true', List.any_eq_false, List.contains_iff_mem]
      exact fun i hi hid => Nat.not_le_of_lt (hl l hmem) (h.numbers i hi l.id hid)
    have hnew : made.filter (fun l => !r.instances.any fun i => i.listeners.contains l.id) =
        [] := by
      refine List.filter_eq_nil_iff.2 fun l hmem => ?_
      obtain ⟨i, hi, hid⟩ := hheld l hmem
      simp only [Bool.not_eq_true', Bool.not_eq_false, List.any_eq_true, List.contains_iff_mem]
      exact ⟨i, hi, hid⟩
    rw [World.listeners_releaseAll, hmade, List.filter_append, hold, hnew, List.append_nil]
  case states =>
    intro s hs
    rw [← h.states s hs]
    exact World.getElem?_states_releaseAll fun i hi =>
      Nat.ne_of_gt (Nat.lt_of_lt_of_le hs (h.places i hi).1)
  case subscribers =>
    intro s hs
    rcases Nat.lt_or_ge s r.world.states.length with hlt | hge
    · have hsource : r.world.HasSource (.state s) := hlt
      rw [World.subject_releaseAll hsource, Subject.foldl_remove]
      refine List.filter_eq_nil_iff.2 fun sub hsub => ?_
      obtain ⟨i, hi, rfl, hid⟩ := h.subscribers s hs sub hsub
      have hgiven : sub.id ∈ World.subscriptionsAt (.state i.state) r.instances :=
        List.mem_flatMap.2 ⟨i, hi, by rwa [if_pos rfl]⟩
      simpa using hgiven
    · -- There is no such state.
      have hnot : ¬ s < (r.world.releaseAll r.instances).states.length := fun hlt =>
        Nat.not_le_of_lt ((World.hasSource_releaseAll r.instances (.state s)).1 hlt) hge
      have hnone : (r.world.releaseAll r.instances).states[s]? = none :=
        List.getElem?_eq_none (Nat.le_of_not_lt hnot)
      rw [World.subject, hnone]
      rfl
  case memory => exact hmemory.trans h.memory
  case subjects => exact hsubjects.trans h.subjects
  case queue => exact (World.queue_releaseAll r.instances).trans h.queue

end Accounts

/-! ## Why a rendering fails -/

/-- The part does not fail for lack of a component for the root. -/
def RootKnown {α : Type} (x : Render σ α) : Prop :=
  ∀ r e r', x r = .error e r' → ∀ tag, e ≠ .unknownRoot tag

section RootKnown

variable {α β : Type} {x : Render σ α} {f : α → Render σ β} {c : Component σ} {place : Nat}
  {state : StateId} {tag : String} {element : NodeId}

private theorem rootKnown_bind (hx : RootKnown x) (hf : ∀ a, RootKnown (f a)) : RootKnown
    (x >>= f) := by
  intro r e r' h
  obtain h | ⟨a, r₁, _, h⟩ := bind_error h
  · exact hx r e r' h
  · exact hf a r₁ e r' h

private theorem rootKnown_pure (a : α) : RootKnown (pure a : Render σ α) := by
  intro r e r' h
  cases h

private theorem rootKnown_throw {e : Error} (he : ∀ tag, e ≠ .unknownRoot tag) : RootKnown
    (throw e : Render σ α) := by
  intro r e' r' h
  cases h
  exact he

private theorem rootKnown_edit (e : Edit) : RootKnown (edit e : Render σ NodeId) := by
  intro r err r' h
  unfold edit World.edit at h
  cases hd : r.world.document.edit e with
  | ok p =>
    rw [hd] at h
    cases h
  | error hostError =>
    rw [hd] at h
    cases h
    exact nofun

private theorem rootKnown_appendAll (ids : List NodeId) : RootKnown
    (appendAll element ids : Render σ Unit) := by
  induction ids with
  | nil => exact rootKnown_pure ()
  | cons child rest ih => exact rootKnown_bind (rootKnown_edit _) fun _ => ih

private theorem rootKnown_listen (event : String) (callback : Script σ) :
    RootKnown (listen place state element event callback) := by
  intro r e r' h
  cases h

private theorem rootKnown_sync (property : String) (path : Path) :
    RootKnown (sync place state element property path : Render σ Unit) := by
  have hsubscribe (callback : Option Notice → Script σ) : RootKnown
      (subscribe place state callback) := by
    intro r e r' h
    cases h
  unfold sync
  refine rootKnown_bind (fun r e r' h => by cases h) fun r => ?_
  cases path.get (r.world.data state) with
  | error e => exact rootKnown_throw fun _ h => by cases h
  | ok v => exact rootKnown_bind (rootKnown_edit _) fun _ => hsubscribe _

private theorem rootKnown_bindAttribute (b : Binding) : RootKnown
    (bindAttribute c place state tag element b) := by
  cases b with
  | listen event method =>
    rw [bindAttribute]
    cases c.method? method with
    | none => exact rootKnown_throw fun _ h => by cases h
    | some script => exact rootKnown_listen event _
  | model path =>
    rw [bindAttribute]
    split
    · exact rootKnown_bind (rootKnown_sync _ path) fun _ => rootKnown_listen _ _
    · exact rootKnown_throw fun _ h => by cases h
  | property property path => exact rootKnown_sync property path
  | fixed property value => exact rootKnown_bind (rootKnown_edit _) fun _ => rootKnown_pure ()

private theorem rootKnown_bindAll (attributes : List Markup.Attribute) :
    RootKnown (bindAll c place state tag element attributes) := by
  induction attributes with
  | nil => exact rootKnown_pure ()
  | cons a rest ih => exact rootKnown_bind (rootKnown_bindAttribute _) fun _ => ih

end RootKnown

end Render

open Render

mutual

private theorem rootKnown_renderComponent {reg : Registry σ} {stack : List String} {c : Component σ}
    {hc : c ∈ reg.components} {container : NodeId} :
    RootKnown (reg.renderComponent stack c hc container) := by
  by_cases hs : stack.contains c.selector = true
  · rw [Registry.renderComponent, dif_pos hs]
    exact rootKnown_throw fun _ h => by cases h
  · rw [Registry.renderComponent, dif_neg hs]
    exact rootKnown_bind (fun r e r' h => by cases h) fun _ => rootKnown_renderNodes
termination_by (reg.unvisited stack, 0)
decreasing_by exact Prod.Lex.left _ _ (Registry.unvisited_cons_lt hc hs)

private theorem rootKnown_renderNode {reg : Registry σ} {stack : List String}
    {c : Component σ} {place : Nat}
    {state : StateId} {n : Markup.Node} : RootKnown (reg.renderNode stack c place state n) := by
  match n with
  | .text content =>
    rw [Registry.renderNode]
    exact rootKnown_edit _
  | .element tag attributes children =>
    cases hget : reg.get? tag with
    | some nested =>
      rw [renderNode_nested hget]
      exact rootKnown_bind (rootKnown_edit _) fun _ =>
        rootKnown_bind rootKnown_renderComponent fun _ =>
        rootKnown_bind (rootKnown_appendAll _) fun _ => rootKnown_pure _
    | none =>
      rw [renderNode_element hget]
      exact rootKnown_bind (rootKnown_edit _) fun _ => rootKnown_bind (rootKnown_bindAll _) fun _ =>
        rootKnown_bind rootKnown_renderChildren fun _ => rootKnown_pure _
termination_by (reg.unvisited stack, sizeOf n)

private theorem rootKnown_renderChildren {reg : Registry σ} {stack : List String} {c : Component σ}
    {place : Nat} {state : StateId} {element : NodeId} {ns : List Markup.Node} :
    RootKnown (reg.renderChildren stack c place state element ns) := by
  match ns with
  | [] =>
    rw [Registry.renderChildren]
    exact rootKnown_pure ()
  | n :: rest =>
    rw [Registry.renderChildren]
    exact rootKnown_bind rootKnown_renderNode fun _ => rootKnown_bind (rootKnown_edit _) fun _ =>
      rootKnown_renderChildren
termination_by (reg.unvisited stack, sizeOf ns)

private theorem rootKnown_renderNodes {reg : Registry σ} {stack : List String}
    {c : Component σ} {place : Nat}
    {state : StateId} {ns : List Markup.Node} : RootKnown
    (reg.renderNodes stack c place state ns) := by
  match ns with
  | [] =>
    rw [Registry.renderNodes]
    exact rootKnown_pure []
  | n :: rest =>
    rw [Registry.renderNodes]
    exact rootKnown_bind rootKnown_renderNode fun _ => rootKnown_bind rootKnown_renderNodes fun _ =>
      rootKnown_pure _
termination_by (reg.unvisited stack, sizeOf ns)

end

/-! ## Mounts -/

/-- A text refuses the first of the nodes, so that nothing is appended. -/
private theorem appendAll_error {r r' : Rendering σ} {x : NodeId} {ids : List NodeId} {e : Error}
    (hlt : x < r.world.document.nodes.length) (hne : ∀ y ∈ ids, x ≠ y)
    (hr : appendAll x ids r = .error e r') : r' = r := by
  have hnot : ¬ Done (appendAll x ids) r := by
    rintro ⟨_, r₁, hok⟩
    rw [hr] at hok
    cases hok
  rw [done_appendAll_iff hlt hne, Classical.not_imp] at hnot
  obtain ⟨htext, hids⟩ := hnot
  obtain ⟨child, rest, rfl⟩ := List.exists_cons_of_ne_nil hids
  have hchild : x ≠ child := hne child (List.mem_cons_self)
  have hedit : Render.edit (.append x child) r = .error (.host .textParent) r := by
    simp only [Render.edit, World.edit, Document.edit, if_neg hchild, htext, if_true]
  obtain h | ⟨_, _, hok, _⟩ := bind_error hr
  · rw [hedit] at h
    cases h
    rfl
  · rw [hedit] at hok
    cases hok

/-- A rendering that fails has changed no node that was there before. If the root is unknown it has
done nothing, and it does not fail for that reason otherwise. -/
private theorem renderRoot_error {reg : Registry σ} {root : NodeId} {tag : String}
    {r r' : Rendering σ} {e : Error} (hroot : root < r.world.document.nodes.length)
    (hr : World.renderRoot reg root tag r = .error e r') :
    Moves (r.world.document.nodes.length ≤ ·) r r' ∧ (∀ tag', e = .unknownRoot tag' → r' = r) := by
  obtain hget | ⟨c, hget⟩ := Option.eq_none_or_eq_some (reg.get? tag)
  · rw [renderRoot_unregistered hget] at hr
    cases hr
    exact ⟨.refl, fun _ _ => rfl⟩
  · rw [renderRoot_registered hget] at hr
    have hknown :=
      rootKnown_bind (f := appendAll root) rootKnown_renderComponent rootKnown_appendAll r e r' hr
    refine ⟨?_, fun tag' he => absurd he (hknown tag')⟩
    have hmoves : Moves (r.world.document.nodes.length ≤ ·) r
        (reached (reg.renderComponent [] c (Registry.mem_of_get? hget) root) r) :=
      moves_renderComponent fun _ => id
    obtain hfailed | ⟨ids, r₁, hcomponent, happend⟩ := bind_error hr
    · rwa [reached_of_error hfailed] at hmoves
    · rw [reached_of_ok hcomponent] at hmoves
      obtain ⟨_, hnew⟩ := renderComponent_new hcomponent
      obtain rfl := appendAll_error (Nat.lt_of_lt_of_le hroot hmoves.keeps.length_le)
        (fun y hy => Nat.ne_of_lt (Nat.lt_of_lt_of_le hroot (hnew y hy))) happend
      exact hmoves

theorem World.Restored.without {w w' : World σ} (h : w.Restored w') (hl : w.ListenersNumbered) :
    w'.Without (Callbacks.madeBetween w w') where
  listeners l hmem hmade := Nat.not_le_of_lt (hl l (h.listeners ▸ hmem)) hmade.1
  later _ hle hmade := Nat.not_le_of_lt hmade.2 hle
  subscribers source sub hsub hmade := by
    cases source with
    | own number => exact hmade
    | state s =>
      rw [h.subscribers s hmade.1] at hsub
      cases hsub
  joining source id hle hmade := by
    cases source with
    | own number => exact hmade
    | state s => exact Nat.not_le_of_lt hmade.2 hle

open Machine in
/-- A mount that fails leaves everything as it was, the log apart: the nodes that were there with
their listeners, the states, and what they are connected with. The listeners and subscribers that it
made are gone, whatever is done later. If there is no component for the root, not even new nodes
were made. -/
theorem World.mount_error_restores {w w' : World σ} {components : List (Component σ)}
    {root : NodeId} {e : Error} (hroot : root < w.document.nodes.length) (hl : w.ListenersNumbered)
    (hmount : w.mount components root = (.error e, w')) :
    w.Restored w' ∧
      (∀ callee, (Callbacks.madeBetween w w').Has callee → ∀ (script : Script σ) (n : Nat),
        .mark callee ∉ (run n ⟨w', [.run script]⟩).stack) ∧
      ∀ tag, e = .unknownRoot tag → w' = { w with log := w'.log } := by
  obtain ⟨e', r', hr, hfailed⟩ | ⟨r', hr, hok⟩ := mount_cases w components root
  · obtain ⟨he, rfl⟩ := Prod.ext_iff.1 (hfailed.symm.trans hmount)
    obtain rfl := Except.error.inj he
    obtain ⟨hmoves, hunknown⟩ := renderRoot_error hroot hr
    have hrestored : w.Restored (r'.world.releaseAll r'.instances) :=
      ((accounts_start _).moves hmoves).restored hmoves.keeps hl
    refine ⟨hrestored, fun callee hcallee script n => ?_, fun tag he => ?_⟩
    · exact not_called_run (hrestored.without hl) hcallee script n
    · rw [hunknown tag he]
      rfl
  · rw [hok] at hmount
    cases hmount

/-- A document with an element to mount into, which holds a text and is listened to. -/
def busyPage : World Unit where
  memory := ()
  document := { nodes := [{ kind := .element "page", children := [1] }, { kind := .text "x" }] }
  listeners := [⟨0, 0, "click", none, .done⟩]
  nextListener := 1

private theorem renderNode_input {reg : Registry Unit} (hget : reg.get? "input" = none) :
    ∃ r', reg.renderNode ["page"] greeter 0 0
        (.element "input" [⟨"class", "wide"⟩, ⟨"bind-model", "name"⟩, ⟨"on-click", "greet()"⟩] [])
        (instantiated greeter 0 ⟨busyPage, []⟩) = .ok 2 r' ∧ r'.world.nextListener = 3 := by
  obtain ⟨hclass, hmodel, hclick⟩ := bindings_greeter
  have hsame : Text.sameLetters "input" "input" = true := by decide +kernel
  have hmethod : greeter.method? "greet" = some fun _ => .done := rfl
  simp only [renderNode_element hget, Registry.renderChildren, Render.bindAll, hclass,
    hmodel, hclick, Render.bindAttribute, hsame, hmethod, if_true, bind, EStateM.bind]
  exact ⟨_, rfl, rfl⟩

private theorem renderNode_echo {reg : Registry Unit} (hbadge : reg.get? "badge" = some echo)
    (hpage : reg.get? "page" = some greeter) (place : Nat) (state : StateId) (r : Rendering Unit) :
    ∃ r', reg.renderNode ["page"] greeter place state (.element "badge" [] [.text "old"]) r =
      .error (.recursive "page") r' ∧ r'.world.nextListener = r.world.nextListener := by
  obtain ⟨x, r₁, hbox⟩ : Done (Render.edit (.createElement "badge")) r :=
    done_createElement_iff.2 (by decide +kernel)
  obtain ⟨x', r₂, hbox'⟩ : Done (Render.edit (.createElement "page")) (instantiated echo x r₁) :=
    done_createElement_iff.2 (by decide +kernel)
  have hgreeter : reg.renderComponent ["badge", "page"] greeter (Registry.mem_of_get? hpage) x' r₂ =
      .error (.recursive "page") r₂ := by
    rw [Registry.renderComponent, dif_pos (by decide +kernel)]
    rfl
  have hpageNode : reg.renderNode ["badge", "page"] echo r₁.instances.length r₁.world.states.length
      (.element "page" [] []) (instantiated echo x r₁) = .error (.recursive "page") r₂ := by
    rw [renderNode_nested hpage, bind_of_ok hbox', bind_of_error hgreeter]
  have hecho : reg.renderComponent ["page"] echo (Registry.mem_of_get? hbadge) x r₁ =
      .error (.recursive "page") r₂ := by
    have htemplate : echo.template = [.element "page" [] []] := rfl
    rw [renderComponent_fresh (by decide +kernel), htemplate, Registry.renderNodes]
    exact bind_of_error hpageNode
  refine ⟨r₂, ?_, ?_⟩
  · rw [renderNode_nested hbadge, bind_of_ok hbox, bind_of_error hecho]
  · obtain ⟨_, _, rfl⟩ := edit_ok hbox'
    obtain ⟨_, _, rfl⟩ := edit_ok hbox
    rfl

private theorem mount_echo :
    ∃ w', busyPage.mount [greeter, echo] 0 = (.error (.recursive "page"), w') ∧
    w'.nextListener = 3 := by
  have hpage : (Registry.empty.registerAll [greeter, echo] []).1.get? "page" = some greeter := rfl
  have hinput : (Registry.empty.registerAll [greeter, echo] []).1.get? "input" = none := rfl
  have hbadge : (Registry.empty.registerAll [greeter, echo] []).1.get? "badge" = some echo := rfl
  have htag : Text.lower (busyPage.document.tag 0) = "page" := by decide +kernel
  have htemplate : greeter.template =
      [.element "input" [⟨"class", "wide"⟩, ⟨"bind-model", "name"⟩, ⟨"on-click", "greet()"⟩] [],
        .element "badge" [] [.text "old"], .text "Hello"] := rfl
  obtain ⟨r₁, hfirst, hthree⟩ := renderNode_input hinput
  obtain ⟨r₂, hsecond, hsame⟩ := renderNode_echo hbadge hpage 0 0 r₁
  have hcomponent : (Registry.empty.registerAll [greeter, echo] []).1.renderComponent [] greeter
      (Registry.mem_of_get? hpage) 0 ⟨busyPage, []⟩ = .error (.recursive "page") r₂ := by
    rw [renderComponent_fresh (by decide +kernel), htemplate, Registry.renderNodes,
      Registry.renderNodes]
    exact (bind_of_ok hfirst).trans (bind_of_error (bind_of_error hsecond))
  have hroot :
      World.renderRoot (Registry.empty.registerAll [greeter, echo] []).1 0 "page" ⟨busyPage, []⟩ =
      .error (.recursive "page") r₂ := by
    rw [renderRoot_registered hpage]
    exact bind_of_error hcomponent
  have hnext : (r₂.world.releaseAll r₂.instances).nextListener = r₂.world.nextListener :=
    World.releaseAll_preserves (P := fun w => w.nextListener = r₂.world.nextListener)
      (fun _ _ _ h => h) (fun _ _ h => h) (fun _ _ h => h) r₂.instances rfl
  obtain ⟨e, r', hr, hmount⟩ | ⟨r', hr, hmount⟩ := mount_cases busyPage [greeter, echo] 0
  · rw [htag] at hr
    obtain ⟨rfl, rfl⟩ : .recursive "page" = e ∧ r₂ = r' := by
      have h := hroot.symm.trans hr
      cases h
      exact ⟨rfl, rfl⟩
    exact ⟨_, hmount, hnext.trans (hsame.trans hthree)⟩
  · rw [htag] at hr
    cases hroot.symm.trans hr

open Machine in
/-- The component fails in the one that it uses, when its input is already listened to. -/
theorem World.mount_error_restores_echo :
    0 < busyPage.document.nodes.length ∧ busyPage.ListenersNumbered ∧
      ∃ w', busyPage.mount [greeter, echo] 0 = (.error (.recursive "page"), w') ∧
      w'.nextListener = 3 ∧ w'.listeners = busyPage.listeners ∧
        ∀ (script : Script Unit) (n : Nat),
        .mark (.listener 2 (some 0)) ∉ (run n ⟨w', [.run script]⟩).stack := by
  have hl : busyPage.ListenersNumbered := List.forall_mem_singleton.2 Nat.one_pos
  obtain ⟨w', hmount, hnext⟩ := mount_echo
  obtain ⟨hrestored, hgone, _⟩ := World.mount_error_restores (show 0 < 2 by decide) hl hmount
  refine ⟨by decide, hl, w', hmount, hnext, hrestored.listeners, fun script n => ?_⟩
  refine hgone (.listener 2 (some 0)) ⟨?_, ?_⟩ script n
  · exact Nat.le_succ 1
  · rw [hnext]
    exact Nat.lt_succ_self 2

end ReactiveMarkup
