-- SUMMARY: The instances of a mount in document order, with their subscriptions and listeners.
import ReactiveMarkup.Proofs.Expansion

/-!
# The instances of a mount

Rendering puts an instance of a component at the end of the list of instances before it renders the
template, so the list comes to be in document order. `Built` relates the nodes made for a template
to the instances made on the way, its hosts, each with the element that it was rendered into; a
depth-first walk of the nodes meets those elements in the order of the hosts (`Built.walk`). What
the attributes of a template add to its instance is counted in a `Tally`.
-/

namespace ReactiveMarkup

variable {σ : Type}

/-! ## The attributes of a template -/

namespace Markup

variable (reg : Registry σ)

mutual

/-- The attributes on a node of a template and on the nodes below it. Those at the tag of a
component, which are not read, and those inside of it are left out. -/
def Node.attributesWithin : Node → List Attribute
  | .text _ => []
  | .element tag attributes children =>
    if reg.contains tag then [] else attributes ++ attributesIn children

/-- The attributes that are read when the nodes of a template are rendered. -/
def attributesIn : List Node → List Attribute
  | [] => []
  | n :: ns => n.attributesWithin ++ attributesIn ns

end

namespace Attribute

/-- Whether the attribute is one of `bind-*`. -/
def isBound (a : Attribute) : Bool := (Binding.after? "bind-" a.name).isSome

/-- Whether the attribute is one of `on-*`. -/
def isEvent (a : Attribute) : Bool := (Binding.after? "on-" a.name).isSome

/-- Whether the attribute is `bind-model`. -/
def isModel (a : Attribute) : Bool := a.name == "bind-model"

end Attribute

end Markup

/-- The attributes of a component that are read when it is rendered. -/
def Component.attributes (reg : Registry σ) (c : Component σ) : List Markup.Attribute :=
  Markup.attributesIn reg c.template

/-! ### What an attribute counts for -/

/-- Whether carrying out the binding adds a listener. -/
def Binding.listens : Binding → Bool
  | listen _ _ | model _ => true
  | property _ _ | fixed _ _ => false

theorem Binding.isPrefixOf_of_after? {start s rest : String} (h : after? start s = some rest) :
    start.toList.isPrefixOf s.toList = true := by
  unfold after? at h
  split at h
  · assumption
  · cases h

/-- A name that begins with `on-` does not begin with `bind-`. -/
private theorem Markup.Attribute.isBound_of_isEvent {a : Markup.Attribute} (h : a.isEvent = true) :
    a.isBound = false := by
  obtain ⟨event, hevent⟩ := Option.isSome_iff_exists.1 h
  cases hb : Binding.after? "bind-" a.name with
  | none => simp [isBound, hb]
  | some name =>
    obtain ⟨rest, hrest⟩ := List.isPrefixOf_iff_prefix.1 (Binding.isPrefixOf_of_after? hevent)
    obtain ⟨rest', hrest'⟩ := List.isPrefixOf_iff_prefix.1 (Binding.isPrefixOf_of_after? hb)
    rw [← hrest'] at hrest
    cases hrest

/-- An attribute adds a subscription if it is one of `bind-*`, and a listener if it is one of `on-*`
or `bind-model`. -/
theorem Markup.Attribute.counts (a : Markup.Attribute) :
    a.isBound = (Binding.ofAttribute a).tied?.isSome ∧
      (if a.isEvent then 1 else 0) + (if a.isModel then 1 else 0) =
        if (Binding.ofAttribute a).listens then 1 else 0 := by
  unfold Binding.ofAttribute
  cases hevent : Binding.after? "on-" a.name with
  | some event =>
    have he : a.isEvent = true := by simp [isEvent, hevent]
    have hb := isBound_of_isEvent he
    have hm : a.isModel = false := by
      cases hm : a.isModel with
      | false => rfl
      | true =>
        have hname : a.name = "bind-model" := by simpa [isModel] using hm
        simp [isBound, hname, Binding.after?] at hb
    exact ⟨hb, by simp [he, hm, Binding.listens]⟩
  | none =>
    have he : a.isEvent = false := by simp [isEvent, hevent]
    by_cases hname : a.name = "bind-model"
    · have hb : a.isBound = true := by simp [isBound, hname, Binding.after?]
      have hm : a.isModel = true := by simp [isModel, hname]
      simp [hname, he, hb, hm, Binding.tied?, Binding.listens]
    · have hm : a.isModel = false := by simp [isModel, hname]
      cases hb : Binding.after? "bind-" a.name with
      | some name => simp [hname, isBound, hb, he, hm, Binding.tied?, Binding.listens]
      | none => simp [hname, isBound, hb, he, hm, Binding.tied?, Binding.listens]

/-! ## Counting -/

/-- What is known of an instance when its subscriptions and listeners are only counted. -/
structure Tally where
  selector : String
  container : NodeId
  state : StateId
  subscriptions : Nat
  listeners : Nat

/-- The tally after attributes were carried out. -/
def Tally.add (attributes : List Markup.Attribute) (t : Tally) : Tally :=
  { t with
    subscriptions := t.subscriptions + attributes.countP (·.isBound)
    listeners := t.listeners + (attributes.countP (·.isEvent) + attributes.countP (·.isModel)) }

def Instance.tally (i : Instance) : Tally :=
  ⟨i.selector, i.container, i.state, i.subscriptions.length, i.listeners.length⟩

def Rendering.tallies (r : Rendering σ) : List Tally := r.instances.map Instance.tally

/-- An element with the component of which an instance was rendered into it, and the state. -/
structure Host (σ : Type) where
  component : Component σ
  container : NodeId
  state : StateId

/-- The tally of the instance in a host. -/
def Host.tally (reg : Registry σ) (h : Host σ) : Tally :=
  Tally.add (h.component.attributes reg) ⟨h.component.selector, h.container, h.state, 0, 0⟩

section Tally

variable {place : Nat} {r : Rendering σ}

@[simp] theorem Tally.add_nil : Tally.add [] = id := rfl

theorem Tally.add_append (before after : List Markup.Attribute) :
    Tally.add (before ++ after) = Tally.add after ∘ Tally.add before := by
  funext t
  simp only [Tally.add, List.countP_append, Function.comp_apply, Tally.mk.injEq, true_and]
  omega

private theorem modify_append_of_lt {α : Type} {f : α → α} {l : List α} (h : place < l.length)
    (l' : List α) : (l ++ l').modify place f = l.modify place f ++ l' := by
  refine List.ext_getElem? fun k => ?_
  rcases Nat.lt_or_ge k l.length with hk | hk
  · rw [List.getElem?_modify, List.getElem?_append_left hk,
      List.getElem?_append_left (by simpa using hk), List.getElem?_modify]
  · have hne : place ≠ k := by omega
    rw [List.getElem?_modify, List.getElem?_append_right hk,
      List.getElem?_append_right (by simpa using hk), List.length_modify]
    cases l'[k - l.length]? <;> simp [hne]

private theorem tallies_subscribed (state : StateId) (callback : Option Notice → Script σ) :
    (Render.subscribed place state callback r).tallies =
      r.tallies.modify place fun t => { t with subscriptions := t.subscriptions + 1 } := by
  refine map_modify (fun i => ?_) _ _
  simp [Instance.tally]

theorem tallies_listening (state : StateId) (node : NodeId) (event : String) (callback : Script σ) :
    (Render.listening place state node event callback r).tallies =
      r.tallies.modify place fun t => { t with listeners := t.listeners + 1 } := by
  refine map_modify (fun i => ?_) _ _
  simp [Instance.tally]

private theorem Tally.add_singleton (a : Markup.Attribute) (t : Tally) :
    Tally.add [a] t = { t with
      subscriptions := t.subscriptions + if (Binding.ofAttribute a).tied?.isSome then 1 else 0
      listeners := t.listeners + if (Binding.ofAttribute a).listens then 1 else 0 } := by
  obtain ⟨hbound, hlistens⟩ := a.counts
  simp only [Tally.add, List.countP_singleton, hlistens, hbound]

end Tally

/-! ## Attributes of an element -/

/-- What a listener does: its event, the state that it belongs to and its callback. -/
def Listener.duty (l : Listener σ) : String × Option StateId × Script σ :=
  (l.event, l.owner, l.callback)

/-- What the listener for an attribute of an element is to do. -/
def Component.duty? (c : Component σ) (state : StateId) (x : NodeId) :
    Binding → Option (String × Option StateId × Script σ)
  | .listen event method => (c.method? method).map fun script => (event, some state, script state)
  | .model path => some ("input", some state, Render.inputScript x state path)
  | .property _ _ | .fixed _ _ => none

/-- What the listeners for the attributes of an element are to do. -/
def Component.duties (c : Component σ) (state : StateId) (x : NodeId)
    (attributes : List Markup.Attribute) : List (String × Option StateId × Script σ) :=
  attributes.filterMap fun a => c.duty? state x (.ofAttribute a)

/-- An element, the first of the nodes of a rendering from its number on, has nothing but texts
below it. -/
structure Furnished (w : World σ) (x : NodeId) (tag : String) (texts : List NodeId) : Prop where
  made : x < w.document.nodes.length
  kind : (w.document.node x).kind = .element tag
  children : w.document.children x = texts
  content : ∀ y ∈ texts, x < y ∧ y < w.document.nodes.length ∧
    ∃ s, w.document.node y = { kind := .text s }

section Attributes

variable {c : Component σ} {place : Nat} {state : StateId} {r r' r₀ : Rendering σ} {x : NodeId}
  {tag : String} {texts : List NodeId}

theorem furnished_create (hr : Render.edit (.createElement tag) r = .ok x r₀) :
    x = r.world.document.nodes.length ∧ Furnished r₀.world x tag [] ∧ r₀.tallies = r.tallies ∧
      r₀.world.listenersAt x = r.world.listenersAt x := by
  obtain ⟨d, hd, rfl⟩ := Render.edit_ok hr
  have hnode := Document.node_of_createElement hd
  refine ⟨(Document.length_of_create hd rfl).1,
    ⟨Document.lt_length_of_create hd rfl, ?_, ?_, nofun⟩, rfl, rfl⟩
  · exact congrArg NodeData.kind hnode
  · exact congrArg NodeData.children hnode

theorem Furnished.setProperty {w : World σ} (h : Furnished w x tag texts)
    (name : String) (v : Value) :
    ∃ texts', Furnished { w with document := w.document.setProperty x name v } x tag texts' := by
  have hlen : w.document.nodes.length ≤ (w.document.setProperty x name v).nodes.length :=
    Document.length_setProperty name v
  have hmade := Nat.lt_of_lt_of_le h.made hlen
  have hkind : ((w.document.setProperty x name v).node x).kind = .element tag :=
    (Document.kind_of_edit (e := .setProperty x name v) rfl h.made).trans h.kind
  cases hc : Document.isContentProperty name with
  | true =>
    -- The text is a new node, and takes the place of those before.
    have hne : w.document.nodes.length ≠ x := Nat.ne_of_gt h.made
    have htext : (w.document.setProperty x name v).node w.document.nodes.length =
        { kind := .text v.text } := by
      simp only [Document.setProperty, hc, if_true]
      rw [Document.node_modify_of_ne _ hne]
      exact Document.node_add_length (d := w.document.count) _
    have hlt : w.document.nodes.length < (w.document.setProperty x name v).nodes.length := by
      simp [Document.setProperty, hc]
    refine ⟨[w.document.nodes.length], hmade, hkind, ?_,
      List.forall_mem_singleton.2 ⟨h.made, hlt, _, htext⟩⟩
    show (w.document.setProperty x name v).children x = _
    rw [Document.children_setProperty h.made, if_pos hc]
  | false =>
    refine ⟨texts, hmade, hkind, ?_, fun y hy => ?_⟩
    · show (w.document.setProperty x name v).children x = _
      rw [Document.children_setProperty h.made, if_neg (by simp [hc])]
      exact h.children
    · obtain ⟨hgt, hlt, s, hnode⟩ := h.content y hy
      refine ⟨hgt, Nat.lt_of_lt_of_le hlt hlen, s, ?_⟩
      rw [← hnode]
      exact Document.node_setProperty_of_ne hlt (Nat.ne_of_gt hgt)

theorem Furnished.of_document {w w' : World σ} (h : Furnished w x tag texts)
    (hdocument : w'.document = w.document) : Furnished w' x tag texts :=
  ⟨hdocument ▸ h.made, hdocument ▸ h.kind, hdocument ▸ h.children, hdocument ▸ h.content⟩

/-- What carrying out attributes of an element comes to. -/
structure CarriedOut (c : Component σ) (place : Nat) (state : StateId) (x : NodeId) (tag : String)
    (attributes : List Markup.Attribute) (r r' : Rendering σ) : Prop where
  furnished : ∃ texts, Furnished r'.world x tag texts
  tallies : r'.tallies = r.tallies.modify place (Tally.add attributes)
  duties : (r'.world.listenersAt x).map Listener.duty =
    (r.world.listenersAt x).map Listener.duty ++ c.duties state x attributes

theorem Furnished.sync {property : String} {path : Path} (h : Furnished r.world x tag texts)
    (hr : Render.sync place state x property path r = .ok () r') :
    (∃ texts', Furnished r'.world x tag texts') ∧
      r'.tallies =
        r.tallies.modify place (fun t => { t with subscriptions := t.subscriptions + 1 }) ∧
      r'.world.listenersAt x = r.world.listenersAt x := by
  obtain ⟨v, -, rfl⟩ := Render.sync_ok hr
  obtain ⟨texts', hset⟩ := h.setProperty property v
  exact ⟨⟨texts', hset.of_document (by simp [Render.subscribed])⟩, tallies_subscribed _ _, rfl⟩

theorem duties_listening (event : String) (callback : Script σ) :
    ((Render.listening place state x event callback r).world.listenersAt x).map Listener.duty =
      (r.world.listenersAt x).map Listener.duty ++ [(event, some state, callback)] := by
  simp [Render.listening, World.listen, World.listenersAt, Listener.duty]

theorem Furnished.bindAttribute {a : Markup.Attribute} (h : Furnished r.world x tag texts)
    (hr : Render.bindAttribute c place state tag x (.ofAttribute a) r = .ok () r') :
    CarriedOut c place state x tag [a] r r' := by
  have hadd (b : Binding) (hb : Binding.ofAttribute a = b) : Tally.add [a] = fun t => { t with
      subscriptions := t.subscriptions + if b.tied?.isSome then 1 else 0
      listeners := t.listeners + if b.listens then 1 else 0 } := by
    funext t
    rw [Tally.add_singleton, hb]
  cases hb : Binding.ofAttribute a with
  | listen event method =>
    cases hm : c.method? method with
    | none =>
      rw [hb, Render.bindAttribute, hm] at hr
      cases hr
    | some script =>
      rw [hb, Render.bindAttribute, hm] at hr
      obtain rfl := Render.listen_ok hr
      refine ⟨⟨texts, h.of_document rfl⟩, ?_, ?_⟩
      · rw [tallies_listening, hadd _ hb]
        rfl
      · rw [duties_listening]
        simp [Component.duties, hb, Component.duty?, hm]
  | model path =>
    rw [hb, Render.bindAttribute] at hr
    split at hr
    · obtain ⟨_, r₁, hs, hlisten⟩ := Render.bind_ok hr
      obtain ⟨⟨texts', hset⟩, htallies, hsame⟩ := h.sync hs
      obtain rfl := Render.listen_ok hlisten
      refine ⟨⟨texts', hset.of_document rfl⟩, ?_, ?_⟩
      · rw [tallies_listening, htallies, List.modify_modify_eq, hadd _ hb]
        rfl
      · rw [duties_listening, hsame]
        simp [Component.duties, hb, Component.duty?]
    · cases hr
  | property property path =>
    rw [hb] at hr
    obtain ⟨hset, htallies, hsame⟩ := h.sync hr
    refine ⟨hset, ?_, ?_⟩
    · rw [htallies, hadd _ hb]
      rfl
    · rw [hsame]
      simp [Component.duties, hb, Component.duty?]
  | fixed property value =>
    rw [hb, Render.bindAttribute] at hr
    obtain ⟨_, r₁, hedit, hr⟩ := Render.bind_ok hr
    obtain ⟨_, rfl⟩ := Render.pure_ok hr
    obtain ⟨d, hd, rfl⟩ := Render.edit_ok hedit
    cases hd
    refine ⟨h.setProperty property _, ?_, ?_⟩
    · have hid : Tally.add [a] = id := hadd _ hb
      rw [hid, List.modify_id]
      rfl
    · simp [Component.duties, hb, Component.duty?, World.listenersAt]

theorem Furnished.bindAll {attributes : List Markup.Attribute} (h : Furnished r.world x tag texts)
    (hr : Render.bindAll c place state tag x attributes r = .ok () r') :
    CarriedOut c place state x tag attributes r r' := by
  induction attributes generalizing r texts with
  | nil =>
    obtain ⟨_, rfl⟩ := Render.pure_ok hr
    refine ⟨⟨texts, h⟩, ?_, ?_⟩
    · rw [Tally.add_nil, List.modify_id]
    · simp [Component.duties]
  | cons a rest ih =>
    obtain ⟨_, r₁, ha, hrest⟩ := Render.bind_ok hr
    have hone := h.bindAttribute ha
    obtain ⟨texts₁, h₁⟩ := hone.furnished
    have hothers := ih h₁ hrest
    refine ⟨hothers.furnished, ?_, ?_⟩
    · rw [hothers.tallies, hone.tallies, List.modify_modify_eq, ← Tally.add_append]
      rfl
    · have hsplit : c.duties state x (a :: rest) = c.duties state x [a] ++ c.duties state x rest :=
        List.filterMap_append (l := [a])
      rw [hothers.duties, hone.duties, List.append_assoc, hsplit]

end Attributes

/-! ## Nodes with the instances in them -/

/-- The nodes were made for a template of a component, for an instance with the state, and the hosts
are the instances made on the way. The nodes, with all that is below them, are numbered in document
order from `lo` on and below `hi`. What the listeners at them do is known if there were none at
nodes that did not exist, which is what `clean` is to say. -/
inductive Built (reg : Registry σ) (clean : Prop) (w : World σ) : NodeId → NodeId →
    Component σ → StateId → List Markup.Node → List NodeId → List (Host σ) → Prop
  | nil {lo hi : NodeId} {c : Component σ} {state : StateId} (le : lo ≤ hi) :
      Built reg clean w lo hi c state [] [] []
  | text {lo hi x : NodeId} {c : Component σ} {state : StateId} {content : String}
      {ns : List Markup.Node} {xs : List NodeId} {hosts : List (Host σ)} (new : lo ≤ x)
      (node : w.document.node x = { kind := .text content })
      (rest : Built reg clean w (x + 1) hi c state ns xs hosts) :
      Built reg clean w lo hi c state (.text content :: ns) (x :: xs) hosts
  | nested {lo mid hi x : NodeId} {c d : Component σ} {state inner : StateId} {tag : String}
      {attributes : List Markup.Attribute} {children ns : List Markup.Node} {xs ys : List NodeId}
      {below hosts : List (Host σ)} (registered : reg.get? tag = some d) (new : lo ≤ x)
      (kind : (w.document.node x).kind = .element tag) (filled : w.document.children x = ys)
      (inside : Built reg clean w (x + 1) mid d inner d.template ys below)
      (rest : Built reg clean w mid hi c state ns xs hosts) :
      Built reg clean w lo hi c state (.element tag attributes children :: ns) (x :: xs)
        (⟨d, x, inner⟩ :: below ++ hosts)
  | element {lo first mid hi x : NodeId} {c : Component σ} {state : StateId} {tag : String}
      {attributes : List Markup.Attribute} {children ns : List Markup.Node}
      {xs texts ys : List NodeId}
      {below hosts : List (Host σ)} (unregistered : reg.get? tag = none) (new : lo ≤ x)
      (kind : (w.document.node x).kind = .element tag)
      (listeners : clean → (w.listenersAt x).map Listener.duty = c.duties state x attributes)
      (before : x < first)
      (content : ∀ y ∈ texts, x < y ∧ y < first ∧ ∃ s, w.document.node y = { kind := .text s })
      (filled : w.document.children x = texts ++ ys)
      (inside : Built reg clean w first mid c state children ys below)
      (rest : Built reg clean w mid hi c state ns xs hosts) :
      Built reg clean w lo hi c state (.element tag attributes children :: ns) (x :: xs)
        (below ++ hosts)

namespace Built

variable {reg : Registry σ} {clean : Prop} {w w' : World σ} {lo lo' mid hi hi' x : NodeId}
  {c : Component σ}
  {state : StateId} {n : Markup.Node} {ns : List Markup.Node} {xs : List NodeId}
  {hosts others : List (Host σ)}

theorem le (h : Built reg clean w lo hi c state ns xs hosts) : lo ≤ hi := by
  induction h with
  | nil le => exact le
  | text new _ _ ih => exact Nat.le_trans (Nat.le_succ_of_le new) ih
  | nested _ new _ _ _ _ ihInside ihRest =>
    exact Nat.le_trans (Nat.le_succ_of_le new) (Nat.le_trans ihInside ihRest)
  | element _ new _ _ before _ _ _ _ ihInside ihRest =>
    exact Nat.le_trans (Nat.le_trans new (Nat.le_of_lt before)) (Nat.le_trans ihInside ihRest)

/-- The relation holds as long as the nodes and their listeners are left alone. -/
theorem mono (h : Built reg clean w lo hi c state ns xs hosts) (hlo : lo' ≤ lo) (hhi : hi ≤ hi')
    (hsame : ∀ y, lo ≤ y → y < hi →
      w'.document.node y = w.document.node y ∧ w'.listenersAt y = w.listenersAt y) :
    Built reg clean w' lo' hi' c state ns xs hosts := by
  induction h generalizing lo' hi' with
  | nil le => exact .nil (Nat.le_trans hlo (Nat.le_trans le hhi))
  | text new node rest ih =>
    refine .text (Nat.le_trans hlo new) ((hsame _ new rest.le).1.trans node) ?_
    exact ih (Nat.le_refl _) hhi fun y hy => hsame y (Nat.le_trans (Nat.le_succ_of_le new) hy)
  | @nested _ mid _ x _ d _ inner _ _ _ _ _ ys below _ registered new kind filled inside rest
    ihInside ihRest =>
    have hmid := Nat.le_trans (Nat.le_succ_of_le new) inside.le
    obtain ⟨hnode, -⟩ := hsame _ new (Nat.lt_of_lt_of_le inside.le rest.le)
    have hinside : Built reg clean w' (x + 1) mid d inner d.template ys below := by
      refine ihInside (Nat.le_refl _) (Nat.le_refl _) fun y hy hlt => ?_
      exact hsame y (Nat.le_trans (Nat.le_succ_of_le new) hy) (Nat.lt_of_lt_of_le hlt rest.le)
    have hfilled : w'.document.children x = ys := (congrArg NodeData.children hnode).trans filled
    refine .nested registered (Nat.le_trans hlo new) (by rw [hnode, kind]) hfilled hinside ?_
    exact ihRest (Nat.le_refl _) hhi fun y hy => hsame y (Nat.le_trans hmid hy)
  | @element _ first mid _ x c state _ _ children _ _ _ ys below _ unregistered new kind listeners
    before content filled inside rest ihInside ihRest =>
    have hfirst := Nat.le_trans new (Nat.le_of_lt before)
    have hmid := Nat.le_trans hfirst inside.le
    obtain ⟨hnode, hlisteners⟩ :=
      hsame _ new (Nat.lt_of_lt_of_le before (Nat.le_trans inside.le rest.le))
    have hinside : Built reg clean w' first mid c state children ys below := by
      refine ihInside (Nat.le_refl _) (Nat.le_refl _) fun y hy hlt => ?_
      exact hsame y (Nat.le_trans hfirst hy) (Nat.lt_of_lt_of_le hlt rest.le)
    have hfilled : w'.document.children x = _ ++ ys :=
      (congrArg NodeData.children hnode).trans filled
    refine .element unregistered (Nat.le_trans hlo new)
      (by rw [hnode, kind]) ?_ before ?_ hfilled hinside ?_
    · exact fun hclean => hlisteners ▸ listeners hclean
    · intro y hy
      obtain ⟨hgt, hlt, s, htext⟩ := content y hy
      have hkept := hsame y (Nat.le_trans new (Nat.le_of_lt hgt))
        (Nat.lt_of_lt_of_le hlt (Nat.le_trans inside.le rest.le))
      exact ⟨hgt, hlt, s, hkept.1.trans htext⟩
    · exact ihRest (Nat.le_refl _) hhi fun y hy => hsame y (Nat.le_trans hmid hy)

/-- What was built for one node, and for those after it. -/
theorem cons (h : Built reg clean w lo mid c state [n] [x] hosts)
    (h' : Built reg clean w mid hi c state ns xs others) :
    Built reg clean w lo hi c state (n :: ns) (x :: xs) (hosts ++ others) := by
  cases h with
  | text new node rest =>
    cases rest with
    | nil le => exact .text new node (h'.mono le (Nat.le_refl _) fun _ _ _ => ⟨rfl, rfl⟩)
  | nested registered new kind filled inside rest =>
    cases rest with
    | nil le =>
      rw [List.append_nil]
      exact .nested registered new kind filled inside
        (h'.mono le (Nat.le_refl _) fun _ _ _ => ⟨rfl, rfl⟩)
  | element unregistered new kind listeners before content filled inside rest =>
    cases rest with
    | nil le =>
      rw [List.append_nil]
      exact .element unregistered new kind listeners before content filled inside
        (h'.mono le (Nat.le_refl _) fun _ _ _ => ⟨rfl, rfl⟩)

/-- What moves may not change goes on to be related. -/
theorem keeps {may : NodeId → Prop} {r r' : Rendering σ}
    (h : Built reg clean r.world lo hi c state ns xs hosts)
    (hk : Render.Keeps may r r') (hhi : hi ≤ r.world.document.nodes.length)
    (hmay : ∀ y, lo ≤ y → y < hi → ¬ may y) :
    Built reg clean r'.world lo hi c state ns xs hosts := by
  refine h.mono (Nat.le_refl _) (Nat.le_refl _) fun y hy hlt => ?_
  have hmade := Nat.lt_of_lt_of_le hlt hhi
  exact ⟨hk.node y hmade (hmay y hy hlt), hk.listeners y hmade (hmay y hy hlt)⟩

end Built

/-- The nodes made between two renderings, with the instances made on the way. -/
structure Render.Builds (reg : Registry σ) (c : Component σ) (place : Nat) (state : StateId)
    (ns : List Markup.Node) (xs : List NodeId) (hosts : List (Host σ)) (clean : Prop)
    (r r' : Rendering σ) : Prop where
  built : Built reg clean r'.world r.world.document.nodes.length r'.world.document.nodes.length c
    state ns xs hosts
  tallies : r'.tallies =
    r.tallies.modify place (Tally.add (Markup.attributesIn reg ns)) ++ hosts.map (Host.tally reg)

/-- Counting goes on where the rendering of one node has ended. -/
theorem tallies_append {reg : Registry σ} {place : Nat} {state : StateId} {n : Markup.Node}
    {ns : List Markup.Node}
    {hosts others : List (Host σ)} {r r₁ r₂ : Rendering σ} (howner : r.Owns place state)
    (h : r₁.tallies = r.tallies.modify place (Tally.add (Markup.attributesIn reg [n])) ++
      hosts.map (Host.tally reg))
    (h' : r₂.tallies =
      r₁.tallies.modify place (Tally.add (Markup.attributesIn reg ns)) ++
        others.map (Host.tally reg)) :
    r₂.tallies = r.tallies.modify place (Tally.add (Markup.attributesIn reg (n :: ns))) ++
      (hosts ++ others).map (Host.tally reg) := by
  obtain ⟨i, hi, -⟩ := howner
  have hplace :
      place < (r.tallies.modify place (Tally.add (Markup.attributesIn reg [n]))).length := by
    rw [List.length_modify, Rendering.tallies, List.length_map]
    exact (List.getElem?_eq_some_iff.1 hi).1
  have hsplit : Markup.attributesIn reg (n :: ns) = Markup.attributesIn reg [n] ++
      Markup.attributesIn reg ns := by
    simp [Markup.attributesIn]
  rw [h', h, modify_append_of_lt hplace, List.modify_modify_eq, hsplit, Tally.add_append,
    List.map_append, List.append_assoc]

/-! ## Whole renderings -/

section Builds

variable {reg : Registry σ} {clean : Prop} {r r₀ r₁ r₂ r₃ : Rendering σ}
  {c : Component σ} {place : Nat}
  {state : StateId} {x : NodeId} {ids : List NodeId} {hosts : List (Host σ)} {tag : String}
  {attributes : List Markup.Attribute} {children : List Markup.Node}

private theorem builds_text {content : String}
    (hr : Render.edit (.createText content) r = .ok x r₁) :
    Render.Builds reg c place state [.text content] [x] [] clean r r₁ := by
  obtain ⟨d, hd, rfl⟩ := Render.edit_ok hr
  have hx : x = r.world.document.nodes.length := (Document.length_of_create hd rfl).1
  refine ⟨.text (Nat.le_of_eq hx.symm) (Document.node_of_createText hd)
    (.nil (Document.lt_length_of_create hd rfl)), ?_⟩
  have hnone : Markup.attributesIn reg [.text content] = [] := rfl
  rw [hnone, Tally.add_nil, List.modify_id, List.map_nil, List.append_nil]
  rfl

/-- An element with the tag of a component holds what was made for the template of the component. -/
private theorem builds_nested {nested : Component σ} (hget : reg.get? tag = some nested)
    (hcreate : Render.edit (.createElement tag) r = .ok x r₀)
    (hkeeps : Render.Keeps (r₀.world.document.nodes.length ≤ ·) r₀ r₂)
    (hbuilt : Built reg clean r₂.world r₀.world.document.nodes.length
      r₂.world.document.nodes.length nested r₀.world.states.length nested.template ids hosts)
    (htallies : r₂.tallies = r₀.tallies ++
      (⟨nested, x, r₀.world.states.length⟩ :: hosts).map (Host.tally reg))
    (happend : Render.appendAll x ids r₂ = .ok () r₃) :
    Render.Builds reg c place state [.element tag attributes children] [x]
      (⟨nested, x, r₀.world.states.length⟩ :: hosts) clean r r₃ := by
  obtain ⟨rfl, hfurnished, htallies₀, -⟩ := furnished_create hcreate
  have hold : ¬ r₀.world.document.nodes.length ≤ r.world.document.nodes.length :=
    Nat.not_le_of_lt hfurnished.made
  have happended := appendAll_ok (Nat.lt_of_lt_of_le hfurnished.made hkeeps.length_le) happend
  have hkeeps₃ := keeps_appendAll happend
  -- The container is left alone until the nodes are appended to it.
  have hnode := hkeeps.node _ hfurnished.made hold
  have hinside := hbuilt.keeps hkeeps₃ (Nat.le_refl _) fun y hy _ he => hold (he ▸ hy)
  have hfilled : r₃.world.document.children r.world.document.nodes.length = ids := by
    rw [Document.children, happended.node, Document.children, hnode]
    exact congrArg (· ++ ids) hfurnished.children
  constructor
  case built =>
    rw [← List.append_nil (_ :: hosts)]
    refine .nested hget (Nat.le_refl _) ?_ hfilled ?_ (.nil (Nat.le_refl _))
    · rw [happended.node, hnode]
      exact hfurnished.kind
    · exact hinside.mono hfurnished.made hkeeps₃.length_le fun _ _ _ => ⟨rfl, rfl⟩
  case tallies =>
    have hnone : Markup.attributesIn reg [.element tag attributes children] = [] := by
      simp [Markup.attributesIn, Markup.Node.attributesWithin, Registry.contains, hget]
    have hsame : r₃.tallies = r₂.tallies := congrArg (List.map _) happended.instances
    rw [hnone, Tally.add_nil, List.modify_id, hsame, htallies, htallies₀]

/-- Another element has its attributes carried out, and what was made for its children below it. -/
private theorem builds_element (hget : reg.get? tag = none) (hl : clean → r.world.ListensWithin)
    (hcreate : Render.edit (.createElement tag) r = .ok r.world.document.nodes.length r₀)
    (hcarried : CarriedOut c place state r.world.document.nodes.length tag attributes r₀ r₁)
    (hkeeps : Render.Keeps (fun y => r.world.document.nodes.length = y ∨
      r₁.world.document.nodes.length ≤ y) r₁ r₂)
    (hbuilds : Render.Builds reg c place state children ids hosts clean r₁ r₂)
    (hnode : r₂.world.document.node r.world.document.nodes.length =
      { r₁.world.document.node r.world.document.nodes.length with
        children := r₁.world.document.children r.world.document.nodes.length ++ ids })
    (hsame : r₂.world.listenersAt r.world.document.nodes.length =
      r₁.world.listenersAt r.world.document.nodes.length) :
    Render.Builds reg c place state [.element tag attributes children]
      [r.world.document.nodes.length] hosts clean r r₂ := by
  obtain ⟨-, -, htallies, hlisteners⟩ := furnished_create hcreate
  obtain ⟨texts, hfurnished⟩ := hcarried.furnished
  have hfilled : r₂.world.document.children r.world.document.nodes.length = texts ++ ids := by
    rw [Document.children, hnode]
    exact congrArg (· ++ ids) hfurnished.children
  constructor
  case built =>
    rw [← List.append_nil hosts]
    refine .element hget (Nat.le_refl _) ?_ ?_ hfurnished.made ?_ hfilled hbuilds.built
      (.nil (Nat.le_refl _))
    · rw [hnode]
      exact hfurnished.kind
    · intro hclean
      have hnone : r₀.world.listenersAt r.world.document.nodes.length = [] :=
        hlisteners.trans (listenersAt_eq_nil (hl hclean) (Nat.le_refl _))
      rw [hsame, hcarried.duties, hnone]
      rfl
    · intro y hy
      obtain ⟨hgt, hlt, s, htext⟩ := hfurnished.content y hy
      refine ⟨hgt, hlt, s, (hkeeps.node y hlt ?_).trans htext⟩
      rintro (heq | hge)
      · exact Nat.ne_of_lt hgt heq
      · exact Nat.not_le_of_lt hlt hge
  case tallies =>
    have hread : Markup.attributesIn reg [.element tag attributes children] =
        attributes ++ Markup.attributesIn reg children := by
      simp [Markup.attributesIn, Markup.Node.attributesWithin, Registry.contains, hget]
    rw [hbuilds.tallies, hcarried.tallies, htallies, List.modify_modify_eq, hread, Tally.add_append]

end Builds

mutual

/-- Rendering a component makes an instance for it and then those for the tags in its template. -/
theorem built_renderComponent {reg : Registry σ} {clean : Prop} {r r' : Rendering σ}
    {stack : List String}
    {c : Component σ} {hc : c ∈ reg.components} {container : NodeId} {ids : List NodeId}
    (hl : clean → r.world.ListensWithin)
    (hr : reg.renderComponent stack c hc container r = .ok ids r') :
    ∃ hosts, Built reg clean r'.world r.world.document.nodes.length r'.world.document.nodes.length c
        r.world.states.length c.template ids hosts ∧
      r'.tallies = r.tallies ++
        (⟨c, container, r.world.states.length⟩ :: hosts).map (Host.tally reg) := by
  obtain ⟨hs, hnodes⟩ := renderComponent_ok hr
  obtain ⟨hosts, hbuilds⟩ := built_renderNodes (ready_instantiated c container r) hl hnodes
  refine ⟨hosts, hbuilds.built, ?_⟩
  -- The new instance is the last one when its template is begun.
  have hstart : (Render.instantiated c container r).tallies =
      r.tallies ++ [⟨c.selector, container, r.world.states.length, 0, 0⟩] := by
    simp [Rendering.tallies, Render.instantiated, Instance.tally]
  have hlast :
      (r.tallies ++ [(⟨c.selector, container, r.world.states.length, 0, 0⟩ : Tally)]).modify
      r.instances.length (Tally.add (Markup.attributesIn reg c.template)) =
        r.tallies ++ [Host.tally reg ⟨c, container, r.world.states.length⟩] := by
    have hlength : r.tallies.length = r.instances.length := List.length_map _
    rw [← hlength, List.modify_eq_take_drop, List.take_left, List.drop_left]
    rfl
  rw [hbuilds.tallies, hstart, hlast, List.append_assoc]
  rfl
termination_by (reg.unvisited stack, 0)
decreasing_by exact Prod.Lex.left _ _ (Registry.unvisited_cons_lt hc hs)

theorem built_renderNode {reg : Registry σ} {clean : Prop} {r r' : Rendering σ}
    {stack : List String}
    {c : Component σ} {place : Nat} {state : StateId} {n : Markup.Node} {x : NodeId}
    (hready : Ready c place state r) (hl : clean → r.world.ListensWithin)
    (hr : reg.renderNode stack c place state n r = .ok x r') :
    ∃ hosts, Render.Builds reg c place state [n] [x] hosts clean r r' := by
  match n with
  | .text content =>
    rw [Registry.renderNode] at hr
    exact ⟨[], builds_text hr⟩
  | .element tag attributes children =>
    cases hget : reg.get? tag with
    | some nested =>
      rw [renderNode_nested hget] at hr
      obtain ⟨container, r₀, hcreate, hr⟩ := Render.bind_ok hr
      obtain ⟨ids, r₂, hcomponent, hr⟩ := Render.bind_ok hr
      obtain ⟨_, r₃, happend, hr⟩ := Render.bind_ok hr
      obtain ⟨rfl, rfl⟩ := Render.pure_ok hr
      obtain ⟨hosts, hbuilt, htallies⟩ :=
        built_renderComponent (fun hclean => (keeps_edit hcreate).listens (hl hclean)) hcomponent
      exact ⟨_,
        builds_nested hget hcreate (keeps_renderComponent hcomponent) hbuilt htallies happend⟩
    | none =>
      rw [renderNode_element hget] at hr
      obtain ⟨element, r₀, hcreate, hr⟩ := Render.bind_ok hr
      obtain ⟨_, r₁, hbind, hr⟩ := Render.bind_ok hr
      obtain ⟨_, r₂, hchildren, hr⟩ := Render.bind_ok hr
      obtain ⟨rfl, rfl⟩ := Render.pure_ok hr
      obtain ⟨rfl, hfurnished, -, -⟩ := furnished_create hcreate
      have hready₀ := hready.keeps (keeps_edit hcreate)
      have hkeeps₁ := keeps_bindAll hready₀.owner hfurnished.made hbind
      have hready₁ := hready₀.keeps hkeeps₁
      have hl₁ (hclean : clean) := hkeeps₁.listens ((keeps_edit hcreate).listens (hl hclean))
      obtain ⟨texts, hfurnished₁⟩ := (hfurnished.bindAll hbind).furnished
      obtain ⟨ids, hosts, hbuilds, hnode, hsame⟩ :=
        built_renderChildren hready₁ hl₁ hfurnished₁.made hchildren
      have hkeeps₂ := keeps_renderChildren hready₁.owner hchildren
      exact ⟨hosts,
        builds_element hget hl hcreate (hfurnished.bindAll hbind) hkeeps₂ hbuilds hnode hsame⟩
termination_by (reg.unvisited stack, sizeOf n)

theorem built_renderChildren {reg : Registry σ} {clean : Prop} {r r' : Rendering σ}
    {stack : List String}
    {c : Component σ} {place : Nat} {state : StateId} {element : NodeId} {ns : List Markup.Node}
    (hready : Ready c place state r) (hl : clean → r.world.ListensWithin)
    (hlt : element < r.world.document.nodes.length)
    (hr : reg.renderChildren stack c place state element ns r = .ok () r') :
    ∃ ids hosts, Render.Builds reg c place state ns ids hosts clean r r' ∧
      r'.world.document.node element = { r.world.document.node element with
        children := r.world.document.children element ++ ids } ∧
      r'.world.listenersAt element = r.world.listenersAt element := by
  match ns with
  | [] =>
    rw [Registry.renderChildren] at hr
    obtain ⟨_, rfl⟩ := Render.pure_ok hr
    refine ⟨[], [], ⟨.nil (Nat.le_refl _), ?_⟩, ?_, rfl⟩
    · have hnone : Markup.attributesIn reg [] = [] := rfl
      rw [hnone, Tally.add_nil, List.modify_id, List.map_nil, List.append_nil]
    · rw [List.append_nil]
      rfl
  | n :: rest =>
    rw [Registry.renderChildren] at hr
    obtain ⟨child, r₁, hn, hr⟩ := Render.bind_ok hr
    obtain ⟨_, r₂, happend, hr⟩ := Render.bind_ok hr
    obtain ⟨hosts, hbuilds⟩ := built_renderNode hready hl hn
    have hkeeps₁ := keeps_renderNode hready.owner hn
    have hlt₁ := Nat.lt_of_lt_of_le hlt hkeeps₁.length_le
    have happended := append_ok hlt₁ happend
    have hkeeps₂ := keeps_edit happend
    have hready₂ := (hready.keeps hkeeps₁).keeps hkeeps₂
    obtain ⟨ids, others, hbuilds', hnode, hlisteners⟩ :=
      built_renderChildren hready₂ (fun hclean => hkeeps₂.listens (hkeeps₁.listens (hl hclean)))
        (Nat.lt_of_lt_of_le hlt₁ hkeeps₂.length_le) hr
    have hkeeps₃ := keeps_renderChildren hready₂.owner hr
    have hold : ¬ r.world.document.nodes.length ≤ element := Nat.not_le_of_lt hlt
    -- What comes after the child changes the element and newer nodes only.
    have hchild :
        Built reg clean r'.world r.world.document.nodes.length
          r₁.world.document.nodes.length c state
        [n] [child] hosts := by
      apply hbuilds.built.keeps (hkeeps₂.trans_of hkeeps₃) (Nat.le_refl _)
      rintro y hy hlt' (htarget | rfl | hge)
      · cases htarget
        exact hold hy
      · exact hold hy
      · exact Nat.not_le_of_lt (Nat.lt_of_lt_of_le hlt' hkeeps₂.length_le) hge
    have hothers :
        Built reg clean r'.world r₁.world.document.nodes.length
          r'.world.document.nodes.length c state
        rest ids others :=
      hbuilds'.built.mono hkeeps₂.length_le (Nat.le_refl _) fun _ _ _ => ⟨rfl, rfl⟩
    refine ⟨child :: ids, hosts ++ others, ⟨hchild.cons hothers, ?_⟩, ?_, ?_⟩
    · have hsame : r₂.tallies = r₁.tallies := congrArg (List.map _) happended.instances
      exact tallies_append hready.owner hbuilds.tallies (hsame ▸ hbuilds'.tallies)
    · rw [hnode, Document.children, happended.node, Document.children, hkeeps₁.node _ hlt hold]
      simp [Document.children]
    · rw [hlisteners, World.listenersAt, happended.listeners]
      exact hkeeps₁.listeners _ hlt hold
termination_by (reg.unvisited stack, sizeOf ns)

theorem built_renderNodes {reg : Registry σ} {clean : Prop} {r r' : Rendering σ}
    {stack : List String}
    {c : Component σ} {place : Nat} {state : StateId} {ns : List Markup.Node} {ids : List NodeId}
    (hready : Ready c place state r) (hl : clean → r.world.ListensWithin)
    (hr : reg.renderNodes stack c place state ns r = .ok ids r') :
    ∃ hosts, Render.Builds reg c place state ns ids hosts clean r r' := by
  match ns with
  | [] =>
    rw [Registry.renderNodes] at hr
    obtain ⟨rfl, rfl⟩ := Render.pure_ok hr
    refine ⟨[], .nil (Nat.le_refl _), ?_⟩
    have hnone : Markup.attributesIn reg [] = [] := rfl
    rw [hnone, Tally.add_nil, List.modify_id, List.map_nil, List.append_nil]
  | n :: rest =>
    rw [Registry.renderNodes] at hr
    obtain ⟨x, r₁, hn, hr⟩ := Render.bind_ok hr
    obtain ⟨xs, r₂, hrest, hr⟩ := Render.bind_ok hr
    obtain ⟨rfl, rfl⟩ := Render.pure_ok hr
    obtain ⟨hosts, hbuilds⟩ := built_renderNode hready hl hn
    have hkeeps := keeps_renderNode hready.owner hn
    have hready₁ := hready.keeps hkeeps
    obtain ⟨others, hbuilds'⟩ :=
      built_renderNodes hready₁ (fun hclean => hkeeps.listens (hl hclean)) hrest
    have hkeeps' := keeps_renderNodes hready₁.owner hrest
    refine ⟨hosts ++ others, Built.cons ?_ hbuilds'.built, ?_⟩
    · exact hbuilds.built.keeps hkeeps' (Nat.le_refl _) fun _ _ hlt => Nat.not_le_of_lt hlt
    · exact tallies_append hready.owner hbuilds.tallies hbuilds'.tallies
termination_by (reg.unvisited stack, sizeOf ns)

end

private theorem insertIdx_length_append {α : Type} (l l' : List α) (a : α) :
    (l ++ l').insertIdx l.length a = l ++ a :: l' := by
  induction l with
  | nil => rfl
  | cons x l ih => exact congrArg (x :: ·) ih

/-- Rendering a component leaves the instances made before as they are. Its own instance, with all
that its template asks for, stands where they ended, as if it had been inserted there at the very
end, when the instances for its template had been made. -/
theorem instances_renderComponent {reg : Registry σ} {r r' : Rendering σ} {stack : List String}
    {c : Component σ} {hc : c ∈ reg.components} {container : NodeId} {ids : List NodeId}
    (hr : reg.renderComponent stack c hc container r = .ok ids r') :
    ∃ own nested, own.tally = Host.tally reg ⟨c, container, r.world.states.length⟩ ∧
      r'.instances = (r.instances ++ nested).insertIdx r.instances.length own := by
  obtain ⟨own, nested, hinstances⟩ := extends_renderComponent hr
  obtain ⟨hosts, -, htallies⟩ :=
    built_renderComponent (False.elim : False → r.world.ListensWithin) hr
  have hown : own.tally :: nested.map Instance.tally =
      (⟨c, container, r.world.states.length⟩ :: hosts).map (Host.tally reg) := by
    rw [Rendering.tallies, hinstances, List.map_append] at htallies
    exact List.append_cancel_left htallies
  exact ⟨own, nested, (List.cons.inj hown).1, by rw [insertIdx_length_append, hinstances]⟩

/-! ## Document order -/

/-- Whether the node is an element with the tag of a component. -/
def Document.isHost (reg : Registry σ) (d : Document) (x : NodeId) : Bool :=
  match (d.node x).kind with
  | .element tag => reg.contains tag
  | .text _ => false

/-- A text has nothing below it and holds no instance. -/
theorem Document.filter_isHost_text {reg : Registry σ} {d : Document} {x : NodeId}
    {content : String} (h : d.node x = { kind := .text content }) (depth : Nat) :
    (d.nodesWithin depth x).filter (d.isHost reg) = [] := by
  cases depth with
  | zero => rfl
  | succ depth => simp [nodesWithin, children, isHost, h]

/-- Where an element takes a number, a walk below it goes less deep. -/
theorem less_deep {lo x first mid hi depth : Nat} (new : lo ≤ x) (before : x < first)
    (inside : first ≤ mid) (rest : mid ≤ hi) (h : hi - lo ≤ depth) :
    ∃ below, depth = below + 1 ∧ mid - first ≤ below ∧ hi - mid ≤ below + 1 :=
  ⟨depth - 1, by omega, by omega, by omega⟩

/-- A depth-first walk of the nodes that goes deep enough meets the elements with the tags of
components in the order of the hosts. -/
theorem Built.walk {reg : Registry σ} {clean : Prop} {w : World σ} {lo hi : NodeId}
    {c : Component σ}
    {state : StateId} {ns : List Markup.Node} {xs : List NodeId} {hosts : List (Host σ)}
    (h : Built reg clean w lo hi c state ns xs hosts) {depth : Nat} (hdepth : hi - lo ≤ depth) :
    (xs.flatMap (w.document.nodesWithin depth)).filter (w.document.isHost reg) =
      hosts.map (·.container) := by
  induction h generalizing depth with
  | nil => rfl
  | text new node _ ih =>
    rw [List.flatMap_cons, List.filter_append, Document.filter_isHost_text node, List.nil_append]
    exact ih (Nat.le_trans (Nat.sub_le_sub_left (Nat.le_succ_of_le new) _) hdepth)
  | @nested _ mid hi x _ d _ _ tag _ _ _ _ ys _ _ registered new kind filled inside rest
    ihInside ihRest =>
    obtain ⟨depth, rfl, hbelow, hrest⟩ :=
      less_deep new (Nat.lt_succ_self x) inside.le rest.le hdepth
    have hself : w.document.isHost reg x = true := by
      simp [Document.isHost, kind, Registry.contains, registered]
    rw [List.flatMap_cons, List.filter_append, ihRest hrest, Document.nodesWithin, filled,
      List.filter_cons_of_pos hself, ihInside hbelow]
    simp
  | @element _ first mid hi x _ _ tag _ _ _ _ texts ys _ _ unregistered new kind _ before
    content filled inside rest ihInside ihRest =>
    obtain ⟨depth, rfl, hbelow, hrest⟩ := less_deep new before inside.le rest.le hdepth
    have hself : ¬ w.document.isHost reg x = true := by
      simp [Document.isHost, kind, Registry.contains, unregistered]
    have htexts : (texts.flatMap (w.document.nodesWithin depth)).filter (w.document.isHost reg) =
        [] := by
      rw [List.filter_flatMap]
      refine List.flatMap_eq_nil_iff.2 fun y hy => ?_
      obtain ⟨-, -, s, htext⟩ := content y hy
      exact Document.filter_isHost_text htext depth
    rw [List.flatMap_cons, List.filter_append, ihRest hrest, Document.nodesWithin, filled,
      List.filter_cons_of_neg hself, List.flatMap_append, List.filter_append, htexts,
      List.nil_append, ihInside hbelow, List.map_append]

namespace Tree

variable (reg : Registry σ)

mutual

/-- The components that occur in a tree, a component before those that occur inside of it. -/
def components : Tree → List (Component σ)
  | .text _ => []
  | .element tag _ _ children => (reg.get? tag).toList ++ componentsIn children

/-- The components that occur in trees, in document order. -/
def componentsIn : List Tree → List (Component σ)
  | [] => []
  | t :: ts => t.components ++ componentsIn ts

end

/-- Texts in front make no difference. -/
private theorem componentsIn_content (d : Dressing) (ts : List Tree) :
    componentsIn reg (d.content ++ ts) = componentsIn reg ts := by
  cases h : d.content? with
  | none => simp [Dressing.content, h]
  | some s => simp [Dressing.content, h, componentsIn, components]

end Tree

/-- The hosts are the components that occur in what the template stands for. -/
private theorem Built.expands {reg : Registry σ} {clean : Prop} {w : World σ} {lo hi : NodeId}
    {c : Component σ}
    {state : StateId} {ns : List Markup.Node} {xs : List NodeId} {hosts : List (Host σ)}
    (h : Built reg clean w lo hi c state ns xs hosts) :
    ∃ ts, Expands reg c ns ts ∧ hosts.map (·.component) = Tree.componentsIn reg ts := by
  induction h with
  | nil => exact ⟨[], .nil _, rfl⟩
  | text _ _ _ ih =>
    obtain ⟨ts, hexpands, hcomponents⟩ := ih
    exact ⟨_, .text _ hexpands, hcomponents⟩
  | nested registered _ _ _ _ _ ihInside ihRest =>
    obtain ⟨inner, hinner, hcomponents⟩ := ihInside
    obtain ⟨ts, hexpands, hcomponents'⟩ := ihRest
    refine ⟨_, .nested registered hinner hexpands, ?_⟩
    simp [Tree.componentsIn, Tree.components, registered, hcomponents, hcomponents']
  | element unregistered _ _ _ _ _ _ _ _ ihInside ihRest =>
    obtain ⟨inner, hinner, hcomponents⟩ := ihInside
    obtain ⟨ts, hexpands, hcomponents'⟩ := ihRest
    refine ⟨_, .element unregistered hinner hexpands, ?_⟩
    simp [Tree.componentsIn, Tree.components, unregistered, Tree.componentsIn_content, hcomponents,
      hcomponents']

/-! ## Mounts -/

/-- After a mount the root holds what it held before, and then the nodes built for its component.
The instances are those in the root and in the hosts. -/
theorem built_mount {w w' : World σ} {components : List (Component σ)} {root : NodeId} {md : Module}
    (hroot : root < w.document.nodes.length) (hmount : w.mount components root = (.ok md, w')) :
    let reg := (Registry.empty.registerAll components w.log).1
    ∃ c ids hosts, reg.get? (w.document.tag root) = some c ∧
      Built reg w.ListensWithin w' w.document.nodes.length w'.document.nodes.length c
        w.states.length c.template ids hosts ∧
      w'.document.children root = w.document.children root ++ ids ∧
      md.instances.map Instance.tally =
        (⟨c, root, w.states.length⟩ :: hosts).map (Host.tally reg) := by
  intro reg
  obtain ⟨log, r', hr, hinstances, entry, rfl⟩ := mount_ok hmount
  obtain ⟨c, hc, ids, r₁, hget, hcomponent, happend⟩ := renderRoot_ok hr
  have hclean : w.ListensWithin → w.ListensWithin := id
  obtain ⟨hosts, hbuilt, htallies⟩ := built_renderComponent hclean hcomponent
  have hkeeps := keeps_renderComponent hcomponent
  have happended := appendAll_ok (Nat.lt_of_lt_of_le hroot hkeeps.length_le) happend
  have hkeeps' := keeps_appendAll happend
  have hold : ¬ w.document.nodes.length ≤ root := Nat.not_le_of_lt hroot
  rw [Registry.get?_lower] at hget
  refine ⟨c, ids, hosts, hget, ?_, ?_, ?_⟩
  · have hafter := hbuilt.keeps hkeeps' (Nat.le_refl _) fun y hy _ he => hold (he ▸ hy)
    exact hafter.mono (Nat.le_refl _) hkeeps'.length_le fun _ _ _ => ⟨rfl, rfl⟩
  · have hnode : r₁.world.document.node root = w.document.node root := hkeeps.node root hroot hold
    have hchildren : r'.world.document.children root = r₁.world.document.children root ++ ids :=
      congrArg NodeData.children happended.node
    have hkept : r₁.world.document.children root = w.document.children root :=
      congrArg NodeData.children hnode
    exact hchildren.trans (congrArg (· ++ ids) hkept)
  · rw [hinstances, happended.instances]
    exact htallies

/-- The instances of a mount are in document order: that of the root first, and then one for every
component that occurs in what is mounted, the outer ones before the inner ones. Their containers are
the root and the elements with the tags of components, in the order in which a depth-first walk of
the new nodes meets them. An instance has a subscription for every attribute `bind-*` of its
template, and a listener for every attribute `on-*` or `bind-model`. -/
theorem World.instances_in_order {w w' : World σ} {components : List (Component σ)} {root : NodeId}
    {md : Module} (hroot : root < w.document.nodes.length)
    (hmount : w.mount components root = (.ok md, w')) :
    let reg := (Registry.empty.registerAll components w.log).1
    ∃ c ids trees, reg.get? (w.document.tag root) = some c ∧ Expands reg c c.template trees ∧
      w'.document.children root = w.document.children root ++ ids ∧
      md.instances.map (·.selector) = (c :: Tree.componentsIn reg trees).map (·.selector) ∧
      md.instances.map (·.container) =
        root :: (ids.flatMap (w'.document.nodesWithin w'.document.depth)).filter
          (w'.document.isHost reg) ∧
      md.instances.map (·.subscriptions.length) =
        (c :: Tree.componentsIn reg trees).map (fun d => (d.attributes reg).countP (·.isBound)) ∧
      md.instances.map (·.listeners.length) =
        (c :: Tree.componentsIn reg trees).map (fun d =>
          (d.attributes reg).countP (·.isEvent) + (d.attributes reg).countP (·.isModel)) ∧
      md.state?.isSome = true := by
  intro reg
  obtain ⟨c, ids, hosts, hget, hbuilt, hchildren, htallies⟩ := built_mount hroot hmount
  obtain ⟨trees, hexpands, hcomponents⟩ := hbuilt.expands
  have hdepth : w'.document.nodes.length - w.document.nodes.length ≤ w'.document.depth :=
    Nat.le_trans (Nat.sub_le _ _) (Nat.le_succ _)
  -- What holds of the tallies holds of the instances, field by field.
  have hfield {α : Type} (field : Tally → α) : md.instances.map (fun i => field i.tally) =
      (⟨c, root, w.states.length⟩ :: hosts).map (fun h => field (h.tally reg)) := by
    have hmap := congrArg (List.map field) htallies
    rwa [List.map_map, List.map_map] at hmap
  have hof {α : Type} (f : Component σ → α) :
      (⟨c, root, w.states.length⟩ :: hosts).map (fun h => f h.component) =
        (c :: Tree.componentsIn reg trees).map f := by
    rw [← hcomponents, List.map_cons, List.map_cons, List.map_map]
    rfl
  have hzero (n : Nat) : 0 + n = n := Nat.zero_add n
  refine ⟨c, ids, trees, hget, hexpands, hchildren, ?_, ?_, ?_, ?_, ?_⟩
  · exact (hfield Tally.selector).trans (hof Component.selector)
  · rw [hbuilt.walk hdepth]
    exact hfield Tally.container
  · refine (hfield Tally.subscriptions).trans ?_
    simp only [Host.tally, Tally.add, hzero]
    exact hof fun d => (d.attributes reg).countP (·.isBound)
  · refine (hfield Tally.listeners).trans ?_
    simp only [Host.tally, Tally.add, hzero]
    exact hof fun d => (d.attributes reg).countP (·.isEvent) + (d.attributes reg).countP (·.isModel)
  · cases hinstances : md.instances with
    | nil =>
      rw [hinstances] at htallies
      cases htallies
    | cons i rest => simp [Module.state?, hinstances]

/-- A mount of a component that uses another one: the input of the outer one has two listeners. -/
theorem World.instances_in_order_greeter :
    0 < emptyPage.document.nodes.length ∧ ∃ md w', emptyPage.mount [greeter, badge] 0 =
      (.ok md, w') ∧ md.instances.map (·.selector) = ["page", "badge"] ∧
      md.instances.map (·.subscriptions.length) = [1, 0] ∧
      md.instances.map (·.listeners.length) = [2, 0] := by
  have hget : (Registry.empty.registerAll [greeter, badge] []).1.get? "page" = some greeter := rfl
  obtain ⟨md, hok⟩ : ∃ md, (emptyPage.mount [greeter, badge] 0).1 = .ok md :=
    (mount_renders_iff Nat.one_pos).2 ⟨greeter, hget, renders_greeter, nofun⟩
  have hmount : emptyPage.mount [greeter, badge] 0 =
      (.ok md, (emptyPage.mount [greeter, badge] 0).2) :=
    Prod.ext hok rfl
  obtain ⟨c, ids, trees, hc, hexpands, -, hselectors, -, hsubscriptions, hlisteners, -⟩ :=
    World.instances_in_order Nat.one_pos hmount
  obtain rfl : greeter = c := Option.some.inj (hget.symm.trans hc)
  obtain rfl := hexpands.unique expands_greeter
  refine ⟨Nat.one_pos, md, _, hmount, hselectors, hsubscriptions.trans ?_, hlisteners.trans ?_⟩
  · decide +kernel
  · decide +kernel

end ReactiveMarkup
