-- SUMMARY: Renderings consist of moves, and what all moves leave alone.
import Mathlib.Logic.Relation
import ReactiveMarkup.Proofs.Rendering

/-!
# Renderings move by move

All that a rendering does, whether it ends well or fails, it does by moves of four kinds: it edits
the document, it makes an instance, and an instance subscribes to its state or listens at a node.
`Render.Move` lists the moves with the nodes that they may change, and `moves_renderComponent` says
that a rendering consists of them. So what every move preserves holds wherever a rendering has got
to; `Render.Keeps` is what they leave alone.
-/

namespace ReactiveMarkup

variable {σ : Type}

/-- The instance at the place has the state. -/
def Rendering.Owns (r : Rendering σ) (place : Nat) (state : StateId) : Prop :=
  ∃ i, r.instances[place]? = some i ∧ i.state = state

/-- All listeners are at nodes of the document. -/
def World.ListensWithin (w : World σ) : Prop := ∀ l ∈ w.listeners, l.node < w.document.nodes.length

namespace Render

/-! ## Moves -/

/-- The rendering after an instance was made. -/
def instantiated (c : Component σ) (container : NodeId) (r : Rendering σ) : Rendering σ :=
  ⟨(c.instantiate r.world).2,
    r.instances ++ [⟨c.selector, r.world.states.length, container, [], []⟩]⟩

/-- A move of a rendering that may change certain nodes. -/
inductive Move (may : NodeId → Prop) : Rendering σ → Rendering σ → Prop
  | edit {r : Rendering σ} {e : Edit} {z : NodeId} {d : Document}
      (done : r.world.document.edit e = .ok (z, d)) (target : ∀ x ∈ e.target?, may x) :
      Move may r { r with world := { r.world with document := d } }
  | instantiate (c : Component σ) (container : NodeId) (r : Rendering σ) :
      Move may r (instantiated c container r)
  | subscribe {r : Rendering σ} {place : Nat} {state : StateId}
      (callback : Option Notice → Script σ)
      (owner : r.Owns place state) : Move may r (subscribed place state callback r)
  | listen {r : Rendering σ} {place : Nat} {state : StateId} {node : NodeId} (event : String)
      (callback : Script σ) (owner : r.Owns place state) (target : may node)
      (made : node < r.world.document.nodes.length) :
      Move may r (listening place state node event callback r)

/-- Any number of moves. -/
abbrev Moves (may : NodeId → Prop) : Rendering σ → Rendering σ → Prop :=
  Relation.ReflTransGen (Move may)

/-- What moves leave alone: nodes that they may not change, and the trees and owners of states. -/
structure Keeps (may : NodeId → Prop) (r r' : Rendering σ) : Prop where
  length_le : r.world.document.nodes.length ≤ r'.world.document.nodes.length
  node : ∀ y < r.world.document.nodes.length, ¬ may y →
    r'.world.document.node y = r.world.document.node y
  kind : ∀ y < r.world.document.nodes.length,
    (r'.world.document.node y).kind = (r.world.document.node y).kind
  listeners : ∀ y < r.world.document.nodes.length, ¬ may y →
    r'.world.listenersAt y = r.world.listenersAt y
  listens : r.world.ListensWithin → r'.world.ListensWithin
  states_le : r.world.states.length ≤ r'.world.states.length
  data : ∀ s < r.world.states.length, r'.world.data s = r.world.data s
  owns : ∀ place state, r.Owns place state → r'.Owns place state

section Moves

variable {may may' : NodeId → Prop} {r r' r'' : Rendering σ} {place : Nat} {state : StateId}

theorem Keeps.refl (r : Rendering σ) : Keeps may r r :=
  ⟨Nat.le_refl _, fun _ _ _ => rfl, fun _ _ => rfl, fun _ _ _ => rfl, id, Nat.le_refl _,
    fun _ _ => rfl, fun _ _ => id⟩

theorem Keeps.trans (h : Keeps may r r') (h' : Keeps may r' r'') : Keeps may r r'' where
  length_le := Nat.le_trans h.length_le h'.length_le
  node y hy hm := (h'.node y (Nat.lt_of_lt_of_le hy h.length_le) hm).trans (h.node y hy hm)
  kind y hy := (h'.kind y (Nat.lt_of_lt_of_le hy h.length_le)).trans (h.kind y hy)
  listeners y hy hm :=
    (h'.listeners y (Nat.lt_of_lt_of_le hy h.length_le) hm).trans (h.listeners y hy hm)
  listens hl := h'.listens (h.listens hl)
  states_le := Nat.le_trans h.states_le h'.states_le
  data s hs := (h'.data s (Nat.lt_of_lt_of_le hs h.states_le)).trans (h.data s hs)
  owns place state ho := h'.owns place state (h.owns place state ho)

theorem Keeps.mono (h : Keeps may r r') (hle : ∀ y, may y → may' y) : Keeps may' r r' :=
  { h with
    node := fun y hy hm => h.node y hy fun hmay => hm (hle y hmay)
    listeners := fun y hy hm => h.listeners y hy fun hmay => hm (hle y hmay) }

/-- What is left alone by moves and by others after them. -/
theorem Keeps.trans_of (h : Keeps may r r') (h' : Keeps may' r' r'') :
    Keeps (fun y => may y ∨ may' y) r r'' :=
  (h.mono fun _ => .inl).trans (h'.mono fun _ => .inr)

/-- Changing an instance leaves its state to it. -/
theorem owns_modify {w : World σ} {at_ : Nat} {f : Instance → Instance}
    (hf : ∀ i, (f i).state = i.state)
    (h : r.Owns place state) : Rendering.Owns ⟨w, r.instances.modify at_ f⟩ place state := by
  obtain ⟨i, hi, rfl⟩ := h
  by_cases hp : at_ = place
  · exact ⟨f i, by simp [hp, hi], hf i⟩
  · exact ⟨i, by simp [hp, hi], rfl⟩

theorem Move.keeps (h : Move may r r') : Keeps may r r' := by
  cases h with
  | @edit _ e z d done target =>
    constructor
    case length_le => exact Document.length_le_of_edit done
    case node =>
      intro y hy hm
      exact Document.node_of_edit done hy fun ht => hm (target y ht)
    case kind => exact fun y hy => Document.kind_of_edit done hy
    case listeners => exact fun _ _ _ => rfl
    case listens => exact fun hl l hmem =>
      Nat.lt_of_lt_of_le (hl l hmem) (Document.length_le_of_edit done)
    case states_le => exact Nat.le_refl _
    case data => exact fun _ _ => rfl
    case owns => exact fun _ _ => id
  | instantiate c container =>
    constructor
    case length_le => exact Nat.le_refl _
    case node => exact fun _ _ _ => rfl
    case kind => exact fun _ _ => rfl
    case listeners => exact fun _ _ _ => rfl
    case listens => exact id
    case states_le => simp [instantiated, Component.instantiate, World.newState]
    case data =>
      intro s hs
      simp [instantiated, Component.instantiate, World.newState, World.data,
        List.getElem?_append_left hs]
    case owns =>
      rintro place state ⟨i, hi, hstate⟩
      obtain ⟨hlt, _⟩ := List.getElem?_eq_some_iff.1 hi
      exact ⟨i, by simpa [instantiated, List.getElem?_append_left hlt] using hi, hstate⟩
  | subscribe callback owner =>
    constructor
    case length_le => simp [subscribed]
    case node => simp [subscribed]
    case kind => simp [subscribed]
    case listeners => exact fun _ _ _ => rfl
    case listens => exact fun hl l hmem => by simpa [subscribed] using hl l hmem
    case states_le => simp [subscribed, World.register, World.putSubject, World.modifyState]
    case data => simp [subscribed]
    case owns =>
      intro place state
      apply owns_modify
      exact fun _ => rfl
  | listen event callback owner target made =>
    constructor
    case length_le => exact Nat.le_refl _
    case node => exact fun _ _ _ => rfl
    case kind => exact fun _ _ => rfl
    case listeners =>
      intro y _ hm
      -- The new listener is at a node that may be changed.
      have hne : _ ≠ y := fun he => hm (he ▸ target)
      simp [listening, World.listen, World.listenersAt, hne]
    case listens =>
      intro hl l hmem
      rcases List.mem_append.1 hmem with hmem | hmem
      · exact hl l hmem
      · obtain rfl := List.mem_singleton.1 hmem
        exact made
    case states_le => exact Nat.le_refl _
    case data => exact fun _ _ => rfl
    case owns =>
      intro place state
      apply owns_modify
      exact fun _ => rfl

theorem Moves.keeps (h : Moves may r r') : Keeps may r r' := by
  induction h with
  | refl => exact .refl r
  | tail _ last ih => exact ih.trans last.keeps

end Moves

/-! ## Parts of a rendering -/

/-- Where a part of a rendering has got to when it is done or has failed. -/
def reached {α : Type} (x : Render σ α) (r : Rendering σ) : Rendering σ :=
  match x r with
  | .ok _ r' => r'
  | .error _ r' => r'

section Parts

variable {α β : Type} {may : NodeId → Prop} {r r' : Rendering σ} {place : Nat} {state : StateId}
  {element : NodeId}

theorem reached_of_ok {x : Render σ α} {a : α} (h : x r = .ok a r') : reached x r = r' := by
  simp only [reached, h]

theorem reached_of_error {x : Render σ α} {e : Error} (h : x r = .error e r') :
    reached x r = r' := by
  simp only [reached, h]

/-- A part that is done has kept what its moves leave alone. -/
theorem keeps_of_ok {x : Render σ α} {a : α} (hm : Moves may r (reached x r)) (h : x r = .ok a r') :
    Keeps may r r' :=
  reached_of_ok h ▸ hm.keeps

theorem bind_of_ok {x : Render σ α} {f : α → Render σ β} {a : α} (h : x r = .ok a r') :
    (x >>= f) r = f a r' := by
  have hb : (x >>= f) r = EStateM.bind x f r := rfl
  rw [hb, EStateM.bind, h]

theorem bind_of_error {x : Render σ α} {f : α → Render σ β} {e : Error} (h : x r = .error e r') :
    (x >>= f) r = .error e r' := by
  have hb : (x >>= f) r = EStateM.bind x f r := rfl
  rw [hb, EStateM.bind, h]

theorem bind_error {x : Render σ α} {f : α → Render σ β} {e : Error}
    (h : (x >>= f) r = .error e r') :
    x r = .error e r' ∨ ∃ a r₁, x r = .ok a r₁ ∧ f a r₁ = .error e r' := by
  cases hx : x r with
  | ok a r₁ => exact .inr ⟨a, r₁, rfl, (bind_of_ok hx).symm.trans h⟩
  | error e₁ r₁ =>
    have hstop : (x >>= f) r = .error e₁ r₁ := bind_of_error hx
    cases hstop.symm.trans h
    exact .inl rfl

/-- One part after the other, the second only when the first is done. -/
theorem moves_bind {x : Render σ α} {f : α → Render σ β} (hx : Moves may r (reached x r))
    (hf : ∀ a r', x r = .ok a r' → Moves may r' (reached (f a) r')) :
    Moves may r (reached (x >>= f) r) := by
  cases h : x r with
  | error e r' =>
    rw [reached_of_error h] at hx
    rw [reached_of_error (bind_of_error h)]
    exact hx
  | ok a r' =>
    have hgo : reached (x >>= f) r = reached (f a) r' := by rw [reached, bind_of_ok h, reached]
    rw [reached_of_ok h] at hx
    rw [hgo]
    exact hx.trans (hf a r' h)

theorem moves_edit {e : Edit} (target : ∀ x ∈ e.target?, may x) : Moves may r
    (reached (edit e) r) := by
  cases hd : r.world.document.edit e with
  | error err =>
    have hedit : edit e r = .error (.host err) r := by simp only [edit, World.edit, hd]
    rw [reached_of_error hedit]
  | ok p =>
    have hedit : edit e r = .ok p.1 { r with world := { r.world with document := p.2 } } := by
      simp only [edit, World.edit, hd]
    rw [reached_of_ok hedit]
    exact .single (.edit hd target)

theorem moves_appendAll {parent : NodeId} (hp : may parent) (nodes : List NodeId) :
    Moves may r (reached (appendAll parent nodes) r) := by
  induction nodes generalizing r with
  | nil => exact .refl
  | cons child nodes ih =>
    apply moves_bind
    · apply moves_edit
      rintro _ ⟨⟩
      exact hp
    · exact fun _ _ _ => ih

theorem moves_sync (ho : r.Owns place state) (hx : may element) (property : String) (path : Path) :
    Moves may r (reached (sync place state element property path) r) := by
  unfold sync
  apply moves_bind .refl
  rintro r₁ _ ⟨⟩
  cases path.get (r.world.data state) with
  | error e => exact .refl
  | ok v =>
    apply moves_bind
    · apply moves_edit
      rintro _ ⟨⟩
      exact hx
    · intro z r₁ hedit
      obtain ⟨d, _, rfl⟩ := edit_ok hedit
      -- The two halves of a subscription make one move.
      exact .single (.subscribe _ ho)

theorem moves_listen (ho : r.Owns place state) (hx : may element)
    (hlt : element < r.world.document.nodes.length) (event : String) (callback : Script σ) :
    Moves may r (reached (listen place state element event callback) r) :=
  .single (.listen event callback ho hx hlt)

theorem moves_bindAttribute {c : Component σ} {tag : String} (ho : r.Owns place state)
    (hx : may element) (hlt : element < r.world.document.nodes.length) (b : Binding) :
    Moves may r (reached (bindAttribute c place state tag element b) r) := by
  cases b with
  | listen event method =>
    cases hm : c.method? method with
    | none =>
      rw [bindAttribute, hm]
      exact .refl
    | some script =>
      rw [bindAttribute, hm]
      exact moves_listen ho hx hlt event _
  | model path =>
    unfold bindAttribute
    cases Text.sameLetters tag "input" with
    | false => exact .refl
    | true =>
      have hsync := moves_sync ho hx "value" path
      apply moves_bind hsync
      intro _ r₁ h
      have hkeeps := keeps_of_ok hsync h
      exact moves_listen (hkeeps.owns place state ho) hx
        (Nat.lt_of_lt_of_le hlt hkeeps.length_le) _ _
  | property property path => exact moves_sync ho hx property path
  | fixed property value =>
    unfold bindAttribute
    apply moves_bind
    · apply moves_edit
      rintro _ ⟨⟩
      exact hx
    · exact fun _ _ _ => .refl

theorem moves_bindAll {c : Component σ} {tag : String} (ho : r.Owns place state) (hx : may element)
    (hlt : element < r.world.document.nodes.length) (attributes : List Markup.Attribute) :
    Moves may r (reached (bindAll c place state tag element attributes) r) := by
  induction attributes generalizing r with
  | nil => exact .refl
  | cons a rest ih =>
    have hone :
        Moves may r (reached (bindAttribute c place state tag element (.ofAttribute a)) r) :=
      moves_bindAttribute ho hx hlt _
    apply moves_bind hone
    intro _ r₁ h
    have hkeeps := keeps_of_ok hone h
    exact ih (hkeeps.owns place state ho) (Nat.lt_of_lt_of_le hlt hkeeps.length_le)

private theorem instantiate_ok {c : Component σ} {container : NodeId} {p : Nat × StateId}
    (h : instantiate c container r = .ok p r') :
    p = (r.instances.length, r.world.states.length) ∧ r' = instantiated c container r := by
  cases h
  exact ⟨rfl, rfl⟩

theorem owns_instantiated (c : Component σ) (container : NodeId) (r : Rendering σ) :
    (instantiated c container r).Owns r.instances.length r.world.states.length :=
  ⟨⟨c.selector, r.world.states.length, container, [], []⟩, by simp [instantiated], rfl⟩

end Parts

end Render

/-! ## Whole renderings -/

open Render

mutual

/-- Rendering a component consists of moves that change no node which was there before. -/
theorem moves_renderComponent {reg : Registry σ} {may : NodeId → Prop} {r : Rendering σ}
    {stack : List String} {c : Component σ} {hc : c ∈ reg.components} {container : NodeId}
    (hnew : ∀ x, r.world.document.nodes.length ≤ x → may x) :
    Moves may r (reached (reg.renderComponent stack c hc container) r) := by
  by_cases hs : stack.contains c.selector = true
  · rw [Registry.renderComponent, dif_pos hs]
    exact .refl
  · rw [Registry.renderComponent, dif_neg hs]
    apply moves_bind
    · exact .single (.instantiate c container r)
    · intro p r₁ hinst
      obtain ⟨rfl, rfl⟩ := instantiate_ok hinst
      exact moves_renderNodes hnew (owns_instantiated c container r)
termination_by (reg.unvisited stack, 0)
decreasing_by exact Prod.Lex.left _ _ (Registry.unvisited_cons_lt hc hs)

theorem moves_renderNode {reg : Registry σ} {may : NodeId → Prop} {r : Rendering σ}
    {stack : List String} {c : Component σ} {place : Nat} {state : StateId} {n : Markup.Node}
    (hnew : ∀ x, r.world.document.nodes.length ≤ x → may x) (ho : r.Owns place state) :
    Moves may r (reached (reg.renderNode stack c place state n) r) := by
  match n with
  | .text content =>
    rw [Registry.renderNode]
    apply moves_edit
    rintro _ ⟨⟩
  | .element tag attributes children =>
    have hcreate : Moves may r (reached (Render.edit (.createElement tag)) r) := by
      apply moves_edit
      rintro _ ⟨⟩
    -- The new element is the first of the nodes that may be changed.
    have hmade : ∀ x r₁, Render.edit (.createElement tag) r = .ok x r₁ →
        may x ∧ x < r₁.world.document.nodes.length ∧ Keeps may r r₁ := by
      intro x r₁ h
      obtain ⟨d, hd, hr₁⟩ := edit_ok h
      refine ⟨?_, hr₁ ▸ Document.lt_length_of_create hd rfl, keeps_of_ok hcreate h⟩
      exact hnew x (Nat.le_of_eq (Document.length_of_create hd rfl).1.symm)
    cases hget : reg.get? tag with
    | some nested =>
      rw [renderNode_nested hget]
      apply moves_bind hcreate
      intro x r₁ hx
      obtain ⟨hmay, _, hkeeps⟩ := hmade x r₁ hx
      apply moves_bind
      · exact moves_renderComponent fun y hy => hnew y (Nat.le_trans hkeeps.length_le hy)
      · intro ids r₂ _
        apply moves_bind (moves_appendAll hmay ids)
        exact fun _ _ _ => .refl
    | none =>
      rw [renderNode_element hget]
      apply moves_bind hcreate
      intro x r₁ hx
      obtain ⟨hmay, hlt, hkeeps⟩ := hmade x r₁ hx
      have ho₁ := hkeeps.owns place state ho
      have hbind : Moves may r₁ (reached (bindAll c place state tag x attributes) r₁) :=
        moves_bindAll ho₁ hmay hlt attributes
      apply moves_bind hbind
      intro _ r₂ h₂
      have hkeeps₂ := hkeeps.trans (keeps_of_ok hbind h₂)
      apply moves_bind
      · exact moves_renderChildren (fun y hy => hnew y (Nat.le_trans hkeeps₂.length_le hy))
          (hkeeps₂.owns place state ho) hmay
      · exact fun _ _ _ => .refl
termination_by (reg.unvisited stack, sizeOf n)

theorem moves_renderChildren {reg : Registry σ} {may : NodeId → Prop} {r : Rendering σ}
    {stack : List String} {c : Component σ} {place : Nat} {state : StateId} {element : NodeId}
    {ns : List Markup.Node} (hnew : ∀ x, r.world.document.nodes.length ≤ x → may x)
    (ho : r.Owns place state) (hx : may element) :
    Moves may r (reached (reg.renderChildren stack c place state element ns) r) := by
  match ns with
  | [] =>
    rw [Registry.renderChildren]
    exact .refl
  | n :: rest =>
    rw [Registry.renderChildren]
    have hnode : Moves may r (reached (reg.renderNode stack c place state n) r) :=
      moves_renderNode hnew ho
    apply moves_bind hnode
    intro child r₁ h₁
    have happend : Moves may r₁ (reached (Render.edit (.append element child)) r₁) := by
      apply moves_edit
      rintro _ ⟨⟩
      exact hx
    apply moves_bind happend
    intro _ r₂ h₂
    have hkeeps := (keeps_of_ok hnode h₁).trans (keeps_of_ok happend h₂)
    exact moves_renderChildren (fun y hy => hnew y (Nat.le_trans hkeeps.length_le hy))
      (hkeeps.owns place state ho) hx
termination_by (reg.unvisited stack, sizeOf ns)

theorem moves_renderNodes {reg : Registry σ} {may : NodeId → Prop} {r : Rendering σ}
    {stack : List String} {c : Component σ} {place : Nat} {state : StateId} {ns : List Markup.Node}
    (hnew : ∀ x, r.world.document.nodes.length ≤ x → may x) (ho : r.Owns place state) :
    Moves may r (reached (reg.renderNodes stack c place state ns) r) := by
  match ns with
  | [] =>
    rw [Registry.renderNodes]
    exact .refl
  | n :: rest =>
    rw [Registry.renderNodes]
    have hnode : Moves may r (reached (reg.renderNode stack c place state n) r) :=
      moves_renderNode hnew ho
    apply moves_bind hnode
    intro x r₁ h₁
    have hkeeps := keeps_of_ok hnode h₁
    apply moves_bind
    · exact moves_renderNodes (fun y hy => hnew y (Nat.le_trans hkeeps.length_le hy))
        (hkeeps.owns place state ho)
    · exact fun _ _ _ => .refl
termination_by (reg.unvisited stack, sizeOf ns)

end

/-! ## What is left alone by parts that are done -/

section Done

variable {reg : Registry σ} {c : Component σ} {r r' : Rendering σ}
  {stack : List String} {place : Nat}
  {state : StateId} {x : NodeId} {ids : List NodeId} {n : Markup.Node} {ns : List Markup.Node}

theorem keeps_edit {e : Edit} (hr : Render.edit e r = .ok x r') :
    Keeps (fun y => e.target? = some y) r r' :=
  keeps_of_ok (moves_edit fun _ => id) hr

theorem keeps_appendAll (hr : appendAll x ids r = .ok () r') : Keeps (x = ·) r r' :=
  keeps_of_ok (moves_appendAll rfl ids) hr

theorem keeps_bindAttribute {tag : String} {b : Binding} (ho : r.Owns place state)
    (hlt : x < r.world.document.nodes.length)
    (hr : bindAttribute c place state tag x b r = .ok () r') :
    Keeps (x = ·) r r' :=
  keeps_of_ok (moves_bindAttribute ho rfl hlt b) hr

theorem keeps_bindAll {tag : String} {attributes : List Markup.Attribute} (ho : r.Owns place state)
    (hlt : x < r.world.document.nodes.length)
    (hr : bindAll c place state tag x attributes r = .ok () r') : Keeps (x = ·) r r' :=
  keeps_of_ok (moves_bindAll ho rfl hlt attributes) hr

theorem keeps_renderComponent {hc : c ∈ reg.components}
    (hr : reg.renderComponent stack c hc x r = .ok ids r') :
    Keeps (r.world.document.nodes.length ≤ ·) r r' :=
  keeps_of_ok (moves_renderComponent fun _ => id) hr

theorem keeps_renderNode (ho : r.Owns place state)
    (hr : reg.renderNode stack c place state n r = .ok x r') :
    Keeps (r.world.document.nodes.length ≤ ·) r r' :=
  keeps_of_ok (moves_renderNode (fun _ => id) ho) hr

theorem keeps_renderNodes (ho : r.Owns place state)
    (hr : reg.renderNodes stack c place state ns r = .ok ids r') :
    Keeps (r.world.document.nodes.length ≤ ·) r r' :=
  keeps_of_ok (moves_renderNodes (fun _ => id) ho) hr

theorem keeps_renderChildren (ho : r.Owns place state)
    (hr : reg.renderChildren stack c place state x ns r = .ok () r') :
    Keeps (fun y => x = y ∨ r.world.document.nodes.length ≤ y) r r' :=
  keeps_of_ok (moves_renderChildren (fun _ => Or.inr) ho (Or.inl rfl)) hr

end Done

/-! ## Going on with a template -/

/-- A rendering can go on with a template of the component for the instance at a place. -/
structure Ready (c : Component σ) (place : Nat) (state : StateId) (r : Rendering σ) : Prop where
  owner : r.Owns place state
  state_lt : state < r.world.states.length
  data : r.world.data state = c.initial

section Ready

variable {reg : Registry σ} {c : Component σ} {r r' : Rendering σ}
  {stack : List String} {place : Nat}
  {state : StateId} {container x : NodeId} {ids : List NodeId} {n : Markup.Node}
  {ns : List Markup.Node}

theorem Ready.keeps {may : NodeId → Prop} (h : Ready c place state r) (hk : Keeps may r r') :
    Ready c place state r' where
  owner := hk.owns place state h.owner
  state_lt := Nat.lt_of_lt_of_le h.state_lt hk.states_le
  data := (hk.data state h.state_lt).trans h.data

theorem ready_instantiated (c : Component σ) (container : NodeId) (r : Rendering σ) :
    Ready c r.instances.length r.world.states.length (instantiated c container r) where
  owner := owns_instantiated c container r
  state_lt := by simp [instantiated, Component.instantiate, World.newState]
  data := by simp [instantiated, Component.instantiate, World.newState, World.data]

/-- Rendering a component renders its template for the new instance. -/
theorem renderComponent_fresh {hc : c ∈ reg.components} (hs : ¬ stack.contains c.selector = true) :
    reg.renderComponent stack c hc container r =
      reg.renderNodes (c.selector :: stack) c r.instances.length r.world.states.length c.template
        (instantiated c container r) := by
  have hinstantiate : instantiate c container r =
      .ok (r.instances.length, r.world.states.length) (instantiated c container r) := rfl
  rw [Registry.renderComponent, dif_neg hs, bind_of_ok hinstantiate]

theorem renderComponent_ok {hc : c ∈ reg.components}
    (hr : reg.renderComponent stack c hc container r = .ok ids r') :
    ¬ stack.contains c.selector = true ∧
      reg.renderNodes (c.selector :: stack) c r.instances.length r.world.states.length c.template
        (instantiated c container r) = .ok ids r' := by
  by_cases hs : stack.contains c.selector = true
  · rw [Registry.renderComponent, dif_pos hs] at hr
    cases hr
  · exact ⟨hs, (renderComponent_fresh hs).symm.trans hr⟩

/-- The node made for a node of a template is a new one. -/
theorem renderNode_new (hr : reg.renderNode stack c place state n r = .ok x r') :
    r.world.document.nodes.length ≤ x := by
  match n with
  | .text content =>
    rw [Registry.renderNode] at hr
    obtain ⟨d, hd, rfl⟩ := edit_ok hr
    exact Nat.le_of_eq (Document.length_of_create hd rfl).1.symm
  | .element tag attributes children =>
    -- Whatever becomes of the element, it is made first.
    obtain ⟨r₀, hcreate⟩ : ∃ r₀, Render.edit (.createElement tag) r = .ok x r₀ := by
      cases hget : reg.get? tag with
      | some nested =>
        rw [renderNode_nested hget] at hr
        obtain ⟨container, r₀, hcreate, hr⟩ := bind_ok hr
        obtain ⟨_, _, _, hr⟩ := bind_ok hr
        obtain ⟨_, _, _, hr⟩ := bind_ok hr
        obtain ⟨rfl, _⟩ := pure_ok hr
        exact ⟨r₀, hcreate⟩
      | none =>
        rw [renderNode_element hget] at hr
        obtain ⟨element, r₀, hcreate, hr⟩ := bind_ok hr
        obtain ⟨_, _, _, hr⟩ := bind_ok hr
        obtain ⟨_, _, _, hr⟩ := bind_ok hr
        obtain ⟨rfl, _⟩ := pure_ok hr
        exact ⟨r₀, hcreate⟩
    obtain ⟨d, hd, rfl⟩ := edit_ok hcreate
    exact Nat.le_of_eq (Document.length_of_create hd rfl).1.symm

private theorem renderNodes_new (ho : r.Owns place state)
    (hr : reg.renderNodes stack c place state ns r = .ok ids r') :
    ids.length = ns.length ∧ ∀ x ∈ ids, r.world.document.nodes.length ≤ x := by
  induction ns generalizing r ids with
  | nil =>
    rw [Registry.renderNodes] at hr
    obtain ⟨rfl, _⟩ := pure_ok hr
    exact ⟨rfl, fun x hx => absurd hx List.not_mem_nil⟩
  | cons n rest ih =>
    rw [Registry.renderNodes] at hr
    obtain ⟨x, r₁, hn, hr⟩ := bind_ok hr
    obtain ⟨xs, r₂, hrest, hr⟩ := bind_ok hr
    obtain ⟨rfl, rfl⟩ := pure_ok hr
    have hkeeps := keeps_renderNode ho hn
    obtain ⟨hlength, hnew⟩ := ih (hkeeps.owns place state ho) hrest
    refine ⟨congrArg (· + 1) hlength, List.forall_mem_cons.2 ⟨renderNode_new hn, fun y hy => ?_⟩⟩
    exact Nat.le_trans hkeeps.length_le (hnew y hy)

theorem renderComponent_new {hc : c ∈ reg.components}
    (hr : reg.renderComponent stack c hc container r = .ok ids r') :
    ids.length = c.template.length ∧ ∀ x ∈ ids, r.world.document.nodes.length ≤ x := by
  obtain ⟨_, hnodes⟩ := renderComponent_ok hr
  obtain ⟨hlength, hnew⟩ := renderNodes_new (owns_instantiated c container r) hnodes
  exact ⟨hlength, hnew⟩

end Ready

/-! ## The instances made before -/

/-- The instances made before are as they were, but for the one at the place. -/
structure Rendering.Extends (place : Nat) (r r' : Rendering σ) : Prop where
  length_le : r.instances.length ≤ r'.instances.length
  apart : ∀ k < r.instances.length, k ≠ place → r'.instances[k]? = r.instances[k]?

namespace Rendering.Extends

variable {reg : Registry σ} {c : Component σ} {r r' r'' : Rendering σ}
  {stack : List String} {place : Nat}
  {state : StateId} {container x : NodeId} {ids : List NodeId} {n : Markup.Node}
  {ns : List Markup.Node}

theorem of_eq (h : r'.instances = r.instances) : Extends place r r' :=
  ⟨Nat.le_of_eq (congrArg List.length h).symm, fun _ _ _ => by rw [h]⟩

theorem trans (h : Extends place r r') (h' : Extends place r' r'') : Extends place r r'' where
  length_le := Nat.le_trans h.length_le h'.length_le
  apart k hk hne := (h'.apart k (Nat.lt_of_lt_of_le hk h.length_le) hne).trans (h.apart k hk hne)

theorem modify (w : World σ) (f : Instance → Instance) (r : Rendering σ) :
    Extends place r ⟨w, r.instances.modify place f⟩ where
  length_le := Nat.le_of_eq (List.length_modify ..).symm
  apart k _ hne := by simp [Ne.symm hne]

theorem edit {e : Edit} (hr : Render.edit e r = .ok x r') : Extends place r r' := by
  obtain ⟨d, -, rfl⟩ := edit_ok hr
  exact of_eq rfl

theorem appendAll (hr : Render.appendAll x ids r = .ok () r') : Extends place r r' := by
  induction ids generalizing r with
  | nil =>
    obtain ⟨-, rfl⟩ := pure_ok hr
    exact of_eq rfl
  | cons child rest ih =>
    obtain ⟨_, r₁, happend, hr⟩ := bind_ok hr
    exact (edit happend).trans (ih hr)

theorem sync {property : String} {path : Path}
    (hr : Render.sync place state x property path r = .ok () r') : Extends place r r' := by
  obtain ⟨v, -, rfl⟩ := sync_ok hr
  exact modify _ _ { r with world := _ }

theorem bindAttribute {tag : String} {b : Binding}
    (hr : Render.bindAttribute c place state tag x b r = .ok () r') : Extends place r r' := by
  cases b with
  | listen event method =>
    cases hm : c.method? method with
    | none =>
      rw [Render.bindAttribute, hm] at hr
      cases hr
    | some script =>
      rw [Render.bindAttribute, hm] at hr
      obtain rfl := listen_ok hr
      exact modify _ _ r
  | model path =>
    rw [Render.bindAttribute] at hr
    split at hr
    · obtain ⟨_, r₁, hsync, hr⟩ := bind_ok hr
      obtain rfl := listen_ok hr
      exact (sync hsync).trans (modify _ _ r₁)
    · cases hr
  | property property path => exact sync hr
  | fixed property value =>
    obtain ⟨_, r₁, hedit, hr⟩ := bind_ok hr
    obtain ⟨-, rfl⟩ := pure_ok hr
    exact edit hedit

theorem bindAll {tag : String} {attributes : List Markup.Attribute}
    (hr : Render.bindAll c place state tag x attributes r = .ok () r') : Extends place r r' := by
  induction attributes generalizing r with
  | nil =>
    obtain ⟨-, rfl⟩ := pure_ok hr
    exact of_eq rfl
  | cons a rest ih =>
    obtain ⟨_, r₁, ha, hr⟩ := bind_ok hr
    exact (bindAttribute ha).trans (ih hr)

/-- Where no old instance is at the place, all of them are as they were. -/
theorem of_append {own : Instance} {w : World σ}
    (h : Extends r.instances.length ⟨w, r.instances ++ [own]⟩ r') :
    ∃ own' nested, r'.instances = r.instances ++ own' :: nested := by
  have hlength := h.length_le
  rw [List.length_append] at hlength
  have hold : r.instances <+: r'.instances := by
    refine List.prefix_iff_getElem?.2 fun k hk => ?_
    have hkept := h.apart k (Nat.lt_of_lt_of_le hk (by simp)) (Nat.ne_of_lt hk)
    rw [hkept, List.getElem?_append_left hk, List.getElem?_eq_getElem hk]
  obtain ⟨rest, hrest⟩ := hold
  cases rest with
  | nil =>
    rw [← hrest, List.append_nil] at hlength
    exact absurd hlength (Nat.not_succ_le_self _)
  | cons own' nested => exact ⟨own', nested, hrest.symm⟩

private theorem of_more {more : List Instance} (h : r'.instances = r.instances ++ more) :
    Extends place r r' where
  length_le := by simp [h]
  apart k hk _ := by rw [h, List.getElem?_append_left hk]

end Rendering.Extends

open Rendering in
mutual

/-- Rendering a component adds its instance and then those for its template. -/
theorem extends_renderComponent {reg : Registry σ} {r r' : Rendering σ} {stack : List String}
    {c : Component σ} {hc : c ∈ reg.components} {container : NodeId} {ids : List NodeId}
    (hr : reg.renderComponent stack c hc container r = .ok ids r') :
    ∃ own nested, r'.instances = r.instances ++ own :: nested := by
  obtain ⟨hs, hnodes⟩ := renderComponent_ok hr
  exact Extends.of_append (extends_renderNodes hnodes)
termination_by (reg.unvisited stack, 0)
decreasing_by exact Prod.Lex.left _ _ (Registry.unvisited_cons_lt hc hs)

theorem extends_renderNode {reg : Registry σ} {r r' : Rendering σ} {stack : List String}
    {c : Component σ} {place : Nat} {state : StateId} {n : Markup.Node} {x : NodeId}
    (hr : reg.renderNode stack c place state n r = .ok x r') : Extends place r r' := by
  match n with
  | .text content =>
    rw [Registry.renderNode] at hr
    exact .edit hr
  | .element tag attributes children =>
    cases hget : reg.get? tag with
    | some nested =>
      rw [renderNode_nested hget] at hr
      obtain ⟨container, r₀, hcreate, hr⟩ := bind_ok hr
      obtain ⟨ids, r₂, hcomponent, hr⟩ := bind_ok hr
      obtain ⟨_, r₃, happend, hr⟩ := bind_ok hr
      obtain ⟨-, rfl⟩ := pure_ok hr
      obtain ⟨own, others, hinstances⟩ := extends_renderComponent hcomponent
      exact ((Extends.edit hcreate).trans (.of_more hinstances)).trans (.appendAll happend)
    | none =>
      rw [renderNode_element hget] at hr
      obtain ⟨element, r₀, hcreate, hr⟩ := bind_ok hr
      obtain ⟨_, r₁, hbind, hr⟩ := bind_ok hr
      obtain ⟨_, r₂, hchildren, hr⟩ := bind_ok hr
      obtain ⟨-, rfl⟩ := pure_ok hr
      exact ((Extends.edit hcreate).trans (.bindAll hbind)).trans (extends_renderChildren hchildren)
termination_by (reg.unvisited stack, sizeOf n)

theorem extends_renderChildren {reg : Registry σ} {r r' : Rendering σ} {stack : List String}
    {c : Component σ} {place : Nat} {state : StateId} {element : NodeId} {ns : List Markup.Node}
    (hr : reg.renderChildren stack c place state element ns r = .ok () r') :
    Extends place r r' := by
  match ns with
  | [] =>
    rw [Registry.renderChildren] at hr
    obtain ⟨-, rfl⟩ := pure_ok hr
    exact .of_eq rfl
  | n :: rest =>
    rw [Registry.renderChildren] at hr
    obtain ⟨child, r₁, hn, hr⟩ := bind_ok hr
    obtain ⟨_, r₂, happend, hr⟩ := bind_ok hr
    exact ((extends_renderNode hn).trans (.edit happend)).trans (extends_renderChildren hr)
termination_by (reg.unvisited stack, sizeOf ns)

theorem extends_renderNodes {reg : Registry σ} {r r' : Rendering σ} {stack : List String}
    {c : Component σ} {place : Nat} {state : StateId} {ns : List Markup.Node} {ids : List NodeId}
    (hr : reg.renderNodes stack c place state ns r = .ok ids r') : Extends place r r' := by
  match ns with
  | [] =>
    rw [Registry.renderNodes] at hr
    obtain ⟨-, rfl⟩ := pure_ok hr
    exact .of_eq rfl
  | n :: rest =>
    rw [Registry.renderNodes] at hr
    obtain ⟨x, r₁, hn, hr⟩ := bind_ok hr
    obtain ⟨xs, r₂, hrest, hr⟩ := bind_ok hr
    obtain ⟨-, rfl⟩ := pure_ok hr
    exact (extends_renderNode hn).trans (extends_renderNodes hrest)
termination_by (reg.unvisited stack, sizeOf ns)

end

end ReactiveMarkup
