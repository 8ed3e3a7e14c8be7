-- SUMMARY: The forest that a mount makes, said by recursion on templates.
import ReactiveMarkup.Proofs.WellFormed

/-!
# What a mount makes

A mount builds nodes one by one, but what comes of it can be said without nodes: `Expands` is the
forest that a template stands for, by recursion on the template and the components that it uses.
`Looks` relates nodes of a document to such a forest. `World.mount_expands` says that a mount
appends nodes that look like the expansion of the component to the root, and changes nothing else
that was there before.
-/

namespace ReactiveMarkup

variable {σ : Type}

/-! ## Expansions -/

/-- A node and what is below it, with the events that listeners wait for. -/
inductive Tree where
  | text (content : String)
  | element (tag : String) (properties : Fields Value) (events : List String) (children : List Tree)

/-- What attributes make of an element. -/
structure Dressing where
  properties : Fields Value := []
  events : List String := []
  /-- The text set for the content of the element. -/
  content? : Option String := none

namespace Dressing

/-- Sets a property. The content properties share one text. -/
def set (d : Dressing) (name : String) (v : Value) : Dressing :=
  if Document.isContentProperty name then { d with content? := some v.text }
  else { d with properties := Fields.insert d.properties name v }

/-- Adds a listener for an event. -/
def listen (d : Dressing) (event : String) : Dressing := { d with events := d.events ++ [event] }

/-- Adds what a binding asks for, where paths read in a tree. -/
def bind (initial : Value) (d : Dressing) : Binding → Dressing
  | .listen event _ => d.listen event
  | .model path => (d.set "value" (path.valueOrNull initial)).listen "input"
  | .property property path => d.set property (path.valueOrNull initial)
  | .fixed property value => d.set property (.string value)

/-- What the attributes of an element ask for, the later ones on top of the earlier ones. -/
def ofAttributes (initial : Value) (attributes : List Markup.Attribute) : Dressing :=
  (attributes.map .ofAttribute).foldl (bind initial) {}

/-- The children that the text makes. -/
def content (d : Dressing) : List Tree := (d.content?.map .text).toList

end Dressing

/-- The forest that a template of a component stands for. The tag of a component is filled with the
forest of its own template, whatever stands inside the tag. -/
inductive Expands (reg : Registry σ) : Component σ → List Markup.Node → List Tree → Prop
  | nil (c : Component σ) : Expands reg c [] []
  | text {c : Component σ} {ns : List Markup.Node} {ts : List Tree} (content : String)
      (rest : Expands reg c ns ts) : Expands reg c (.text content :: ns) (.text content :: ts)
  | nested {c d : Component σ} {tag : String} {attributes : List Markup.Attribute}
      {children ns : List Markup.Node} {inner ts : List Tree} (registered : reg.get? tag = some d)
      (inside : Expands reg d d.template inner) (rest : Expands reg c ns ts) :
      Expands reg c (.element tag attributes children :: ns) (.element tag [] [] inner :: ts)
  | element {c : Component σ} {tag : String} {attributes : List Markup.Attribute}
      {children ns : List Markup.Node} {inner ts : List Tree} (unregistered : reg.get? tag = none)
      (inside : Expands reg c children inner) (rest : Expands reg c ns ts) :
      Expands reg c (.element tag attributes children :: ns)
        (.element tag (Dressing.ofAttributes c.initial attributes).properties
          (Dressing.ofAttributes c.initial attributes).events
          ((Dressing.ofAttributes c.initial attributes).content ++ inner) :: ts)

namespace Expands

variable {reg : Registry σ} {c : Component σ} {n : Markup.Node} {ns : List Markup.Node} {t : Tree}
  {ts us : List Tree}

/-- A template stands for one forest. -/
theorem unique (h : Expands reg c ns ts) (h' : Expands reg c ns us) : ts = us := by
  induction h generalizing us with
  | nil =>
    cases h'
    rfl
  | text content _ ih =>
    cases h' with
    | text _ rest => rw [ih rest]
  | nested registered _ _ ihInside ihRest =>
    cases h' with
    | nested registered' inside' rest' =>
      obtain rfl := Option.some.inj (registered.symm.trans registered')
      rw [ihInside inside', ihRest rest']
    | element unregistered _ _ =>
      rw [registered] at unregistered
      cases unregistered
  | element unregistered _ _ ihInside ihRest =>
    cases h' with
    | nested registered _ _ =>
      rw [registered] at unregistered
      cases unregistered
    | element _ inside' rest' => rw [ihInside inside', ihRest rest']

theorem cons (h : Expands reg c [n] [t]) (h' : Expands reg c ns ts) : Expands reg c (n :: ns)
    (t :: ts) := by
  cases h with
  | text content _ => exact .text content h'
  | nested registered inside _ => exact .nested registered inside h'
  | element unregistered inside _ => exact .element unregistered inside h'

/-- An element whose attributes were read. -/
theorem dressed {tag : String} {attributes : List Markup.Attribute} {children : List Markup.Node}
    {inner : List Tree} {d : Dressing} (hd : Dressing.ofAttributes c.initial attributes = d)
    (unregistered : reg.get? tag = none) (inside : Expands reg c children inner)
    (rest : Expands reg c ns ts) :
    Expands reg c (.element tag attributes children :: ns)
      (.element tag d.properties d.events (d.content ++ inner) :: ts) :=
  hd ▸ .element unregistered inside rest

end Expands

/-! ## Nodes that look like trees -/

/-- The nodes look like the trees. With all that is below them they are numbered in document order,
from `lo` on and below `hi`, so none of them stands in two places. -/
inductive Looks (w : World σ) : NodeId → NodeId → List NodeId → List Tree → Prop
  | nil {lo hi : NodeId} (le : lo ≤ hi) : Looks w lo hi [] []
  | text {lo hi x : NodeId} {xs : List NodeId} {ts : List Tree} {content : String} (new : lo ≤ x)
      (node : w.document.node x = { kind := .text content }) (listeners : w.listenersAt x = [])
      (rest : Looks w (x + 1) hi xs ts) : Looks w lo hi (x :: xs) (.text content :: ts)
  | element {lo mid hi x : NodeId} {xs ys : List NodeId} {ts inner : List Tree} {tag : String}
      {properties : Fields Value} {events : List String} (new : lo ≤ x)
      (node : w.document.node x = { kind := .element tag, properties, children := ys })
      (listeners : (w.listenersAt x).map (·.event) = events) (inside : Looks w (x + 1) mid ys inner)
      (rest : Looks w mid hi xs ts) :
      Looks w lo hi (x :: xs) (.element tag properties events inner :: ts)

namespace Looks

variable {w w' : World σ} {lo lo' mid hi hi' x : NodeId} {xs ys : List NodeId} {t : Tree}
  {ts us : List Tree}

theorem le (h : Looks w lo hi xs ts) : lo ≤ hi := by
  induction h with
  | nil le => exact le
  | text new _ _ _ ih => exact Nat.le_trans (Nat.le_succ_of_le new) ih
  | element new _ _ _ _ ihInside ihRest =>
    exact Nat.le_trans (Nat.le_succ_of_le new) (Nat.le_trans ihInside ihRest)

/-- What looks like trees goes on to do so while the nodes in between are left alone. -/
theorem mono (h : Looks w lo hi xs ts) (hlo : lo' ≤ lo) (hhi : hi ≤ hi')
    (hsame : ∀ y, lo ≤ y → y < hi →
      w'.document.node y = w.document.node y ∧ w'.listenersAt y = w.listenersAt y) :
    Looks w' lo' hi' xs ts := by
  induction h generalizing lo' hi' with
  | nil le => exact .nil (Nat.le_trans hlo (Nat.le_trans le hhi))
  | text new node listeners rest ih =>
    obtain ⟨hnode, hlisteners⟩ := hsame _ new rest.le
    refine .text (Nat.le_trans hlo new) (hnode.trans node) (hlisteners.trans listeners) ?_
    exact ih (Nat.le_refl _) hhi fun y hy => hsame y (Nat.le_trans (Nat.le_succ_of_le new) hy)
  | @element _ mid _ x _ ys _ inner _ _ _ new node listeners inside rest ihInside ihRest =>
    have hmid := Nat.le_trans (Nat.le_succ_of_le new) inside.le
    obtain ⟨hnode, hlisteners⟩ := hsame _ new (Nat.lt_of_lt_of_le inside.le rest.le)
    have hinside : Looks w' (x + 1) mid ys inner := by
      refine ihInside (Nat.le_refl _) (Nat.le_refl _) fun y hy hlt => ?_
      exact hsame y (Nat.le_trans (Nat.le_succ_of_le new) hy) (Nat.lt_of_lt_of_le hlt rest.le)
    refine .element (Nat.le_trans hlo new) (hnode.trans node)
      ((congrArg (List.map (·.event)) hlisteners).trans listeners) hinside ?_
    exact ihRest (Nat.le_refl _) hhi fun y hy => hsame y (Nat.le_trans hmid hy)

theorem append (h : Looks w lo mid xs ts) (h' : Looks w mid hi ys us) :
    Looks w lo hi (xs ++ ys) (ts ++ us) := by
  induction h with
  | nil le => exact h'.mono le (Nat.le_refl _) fun _ _ _ => ⟨rfl, rfl⟩
  | text new node listeners _ ih => exact .text new node listeners (ih h')
  | element new node listeners inside _ _ ih => exact .element new node listeners inside (ih h')

theorem cons (h : Looks w lo mid [x] [t]) (h' : Looks w mid hi xs ts) :
    Looks w lo hi (x :: xs) (t :: ts) :=
  h.append h'

/-- What moves may not change goes on to look the same. -/
theorem keeps {may : NodeId → Prop} {r r' : Rendering σ} (h : Looks r.world lo hi xs ts)
    (hk : Render.Keeps may r r') (hhi : hi ≤ r.world.document.nodes.length)
    (hmay : ∀ y, lo ≤ y → y < hi → ¬ may y) : Looks r'.world lo hi xs ts := by
  refine h.mono (Nat.le_refl _) (Nat.le_refl _) fun y hy hlt => ?_
  have hmade := Nat.lt_of_lt_of_le hlt hhi
  exact ⟨hk.node y hmade (hmay y hy hlt), hk.listeners y hmade (hmay y hy hlt)⟩

end Looks

/-- The nodes made between two renderings look like the trees. -/
abbrev Render.Made (r r' : Rendering σ) (xs : List NodeId) (ts : List Tree) : Prop :=
  Looks r'.world r.world.document.nodes.length r'.world.document.nodes.length xs ts

/-! ## Attributes -/

/-- An element has what attributes made of it, and the nodes for its content come after it. -/
structure Dressed (w : World σ) (x : NodeId) (tag : String) (d : Dressing) (texts : List NodeId) :
    Prop where
  made : x < w.document.nodes.length
  node : w.document.node x = { kind := .element tag, properties := d.properties, children := texts }
  events : (w.listenersAt x).map (·.event) = d.events
  content : Looks w (x + 1) w.document.nodes.length texts d.content

section Attributes

variable {c : Component σ} {place : Nat} {state : StateId} {may : NodeId → Prop}
  {r r' : Rendering σ} {x : NodeId} {tag : String} {d : Dressing} {texts : List NodeId}

theorem listenersAt_eq_nil {w : World σ} (h : w.ListensWithin) (hx : w.document.nodes.length ≤ x) :
    w.listenersAt x = [] := by
  refine List.filter_eq_nil_iff.2 fun l hl => ?_
  have hne : l.node ≠ x := Nat.ne_of_lt (Nat.lt_of_lt_of_le (h l hl) hx)
  simpa using hne

theorem Dressed.setProperty {w : World σ} (h : Dressed w x tag d texts) (hl : w.ListensWithin)
    (name : String) (v : Value) :
    ∃ texts', Dressed { w with document := w.document.setProperty x name v } x tag
      (d.set name v) texts' := by
  have hlen : w.document.nodes.length ≤ (w.document.setProperty x name v).nodes.length :=
    Document.length_setProperty name v
  have hnode : (w.document.setProperty x name v).node x = _ := Document.node_setProperty_self h.made
  have hevents : (d.set name v).events = d.events := by
    unfold Dressing.set
    split <;> rfl
  cases hc : Document.isContentProperty name with
  | true =>
    -- The text is a new node, and the old content is no longer below the element.
    have hne : w.document.nodes.length ≠ x := Nat.ne_of_gt h.made
    have htext : (w.document.setProperty x name v).node w.document.nodes.length =
        { kind := .text v.text } := by
      simp only [Document.setProperty, hc, if_true]
      rw [Document.node_modify_of_ne _ hne]
      exact Document.node_add_length (d := w.document.count) _
    have hlt : w.document.nodes.length < (w.document.setProperty x name v).nodes.length := by
      simp [Document.setProperty, hc]
    refine ⟨[w.document.nodes.length], Nat.lt_of_lt_of_le h.made hlen, ?_, ?_, ?_⟩
    · simp [hnode, hc, h.node, Dressing.set]
    · exact h.events.trans hevents.symm
    · have hcontent : (d.set name v).content = [.text v.text] := by
        simp [Dressing.set, hc, Dressing.content]
      have hnone : w.listenersAt w.document.nodes.length = [] :=
        listenersAt_eq_nil hl (Nat.le_refl _)
      rw [hcontent]
      exact .text h.made htext hnone (.nil hlt)
  | false =>
    refine ⟨texts, Nat.lt_of_lt_of_le h.made hlen, ?_, ?_, ?_⟩
    · simp [hnode, hc, h.node, Dressing.set]
    · exact h.events.trans hevents.symm
    · have hcontent : (d.set name v).content = d.content :=
        by simp [Dressing.set, hc, Dressing.content]
      rw [hcontent]
      refine h.content.mono (Nat.le_refl _) hlen fun y hy hlt => ⟨?_, rfl⟩
      exact Document.node_setProperty_of_ne hlt (Nat.ne_of_gt hy)

/-- A subscription changes nothing that can be seen. -/
theorem Dressed.subscribed (h : Dressed r.world x tag d texts)
    (callback : Option Notice → Script σ) :
    Dressed (Render.subscribed place state callback r).world x tag d texts := by
  have hdocument : (Render.subscribed place state callback r).world.document =
      r.world.document := by
    simp [Render.subscribed]
  refine ⟨hdocument ▸ h.made, hdocument ▸ h.node, h.events, ?_⟩
  exact h.content.mono (Nat.le_refl _) (hdocument ▸ Nat.le_refl _) fun _ _ _ =>
    ⟨by rw [hdocument], rfl⟩

theorem Dressed.listening (h : Dressed r.world x tag d texts) (event : String)
    (callback : Script σ) :
    Dressed (Render.listening place state x event callback r).world x tag
      (d.listen event) texts := by
  refine ⟨h.made, h.node, ?_, ?_⟩
  · have hevents : ((r.world.listenersAt x).map (·.event)) ++ [event] = d.events ++ [event] := by
      rw [h.events]
    simpa [Render.listening, World.listen, World.listenersAt, Dressing.listen] using hevents
  · refine h.content.mono (Nat.le_refl _) (Nat.le_refl _) fun y hy _ => ⟨rfl, ?_⟩
    have hne : x ≠ y := Nat.ne_of_lt hy
    simp [Render.listening, World.listen, World.listenersAt, hne]

theorem Dressed.sync (h : Dressed r.world x tag d texts) (hready : Ready c place state r)
    (hl : r.world.ListensWithin) {property : String} {path : Path}
    (hr : Render.sync place state x property path r = .ok () r') :
    ∃ texts', Dressed r'.world x tag (d.set property (path.valueOrNull c.initial)) texts' := by
  obtain ⟨v, hv, rfl⟩ := Render.sync_ok hr
  have hvalue : path.valueOrNull c.initial = v := by
    rw [Path.valueOrNull, ← hready.data, hv]
  obtain ⟨texts', hset⟩ := h.setProperty hl property v
  rw [hvalue]
  exact ⟨texts', hset.subscribed _⟩

/-- Carrying out an attribute makes of the element what the attribute asks for. -/
theorem Dressed.bindAttribute (h : Dressed r.world x tag d texts) (hready : Ready c place state r)
    (hl : r.world.ListensWithin) {b : Binding}
    (hr : Render.bindAttribute c place state tag x b r = .ok () r') :
    ∃ texts', Dressed r'.world x tag (d.bind c.initial b) texts' := by
  cases b with
  | listen event method =>
    cases hm : c.method? method with
    | none =>
      rw [Render.bindAttribute, hm] at hr
      cases hr
    | some script =>
      rw [Render.bindAttribute, hm] at hr
      obtain rfl := Render.listen_ok hr
      exact ⟨texts, h.listening event _⟩
  | model path =>
    rw [Render.bindAttribute] at hr
    split at hr
    · obtain ⟨_, r₁, hs, hlisten⟩ := Render.bind_ok hr
      obtain ⟨texts', hset⟩ := h.sync hready hl hs
      obtain rfl := Render.listen_ok hlisten
      exact ⟨texts', hset.listening "input" _⟩
    · cases hr
  | property property path => exact h.sync hready hl hr
  | fixed property value =>
    rw [Render.bindAttribute] at hr
    obtain ⟨_, r₁, hedit, hr⟩ := Render.bind_ok hr
    obtain ⟨_, rfl⟩ := Render.pure_ok hr
    obtain ⟨d', hd, rfl⟩ := Render.edit_ok hedit
    cases hd
    exact h.setProperty hl property _

theorem Dressed.bindAll {attributes : List Markup.Attribute} (h : Dressed r.world x tag d texts)
    (hready : Ready c place state r) (hl : r.world.ListensWithin)
    (hr : Render.bindAll c place state tag x attributes r = .ok () r') :
    ∃ texts',
    Dressed r'.world x tag ((attributes.map .ofAttribute).foldl (Dressing.bind c.initial) d)
      texts' := by
  induction attributes generalizing r d texts with
  | nil =>
    obtain ⟨_, rfl⟩ := Render.pure_ok hr
    exact ⟨texts, h⟩
  | cons a rest ih =>
    obtain ⟨_, r₁, ha, hrest⟩ := Render.bind_ok hr
    obtain ⟨texts₁, h₁⟩ := h.bindAttribute hready hl ha
    have hkeeps := keeps_bindAttribute hready.owner h.made ha
    exact ih h₁ (hready.keeps hkeeps) (hkeeps.listens hl) hrest

end Attributes

/-! ## Whole renderings -/

section Nodes

variable {c : Component σ} {place : Nat} {state : StateId} {r r₀ r₁ r₂ : Rendering σ} {x : NodeId}
  {tag : String} {d : Dressing} {ids texts : List NodeId} {ts : List Tree}

private theorem looks_text {content : String} (hl : r.world.ListensWithin)
    (hr : Render.edit (.createText content) r = .ok x r₁) :
    Render.Made r r₁ [x] [.text content] := by
  obtain ⟨d, hd, rfl⟩ := Render.edit_ok hr
  have hx : x = r.world.document.nodes.length := (Document.length_of_create hd rfl).1
  have hnone : r.world.listenersAt x = [] := listenersAt_eq_nil hl (Nat.le_of_eq hx.symm)
  exact .text (Nat.le_of_eq hx.symm) (Document.node_of_createText hd) hnone
    (.nil (Document.lt_length_of_create hd rfl))

/-- A new element has nothing yet. -/
theorem dressed_create (hl : r.world.ListensWithin)
    (hr : Render.edit (.createElement tag) r = .ok x r₀) :
    x = r.world.document.nodes.length ∧ Dressed r₀.world x tag {} [] := by
  obtain ⟨d, hd, rfl⟩ := Render.edit_ok hr
  have hx : x = r.world.document.nodes.length := (Document.length_of_create hd rfl).1
  have hnone : r.world.listenersAt x = [] := listenersAt_eq_nil hl (Nat.le_of_eq hx.symm)
  have hlt := Document.lt_length_of_create hd rfl
  exact ⟨hx, hlt, Document.node_of_createElement hd, congrArg (List.map (·.event)) hnone, .nil hlt⟩

/-- An element looks like what its attributes made of it, with the nodes below it behind its
content. -/
theorem Dressed.looks {may : NodeId → Prop} (h : Dressed r₁.world x tag d texts)
    (hk : Render.Keeps may r₁ r₂)
    (hmay : ∀ y, x + 1 ≤ y → y < r₁.world.document.nodes.length → ¬ may y)
    (hnode : r₂.world.document.node x =
      { r₁.world.document.node x with children := r₁.world.document.children x ++ ids })
    (hlisteners : r₂.world.listenersAt x = r₁.world.listenersAt x)
    (hbelow : Render.Made r₁ r₂ ids ts) :
    Looks r₂.world x r₂.world.document.nodes.length [x]
      [.element tag d.properties d.events (d.content ++ ts)] := by
  have hchildren : r₁.world.document.children x = texts := congrArg NodeData.children h.node
  have hnode' : r₂.world.document.node x =
      { kind := .element tag, properties := d.properties, children := texts ++ ids } := by
    rw [hnode, hchildren, h.node]
  refine .element (Nat.le_refl _) hnode' ?_ ?_ (.nil (Nat.le_refl _))
  · rw [hlisteners, h.events]
  · exact (h.content.keeps hk (Nat.le_refl _) hmay).append hbelow

end Nodes

mutual

/-- The nodes that come of rendering a component look like the expansion of its template. -/
private theorem looks_renderComponent {reg : Registry σ} {r r' : Rendering σ} {stack : List String}
    {c : Component σ} {hc : c ∈ reg.components} {container : NodeId} {ids : List NodeId}
    (hl : r.world.ListensWithin) (hr : reg.renderComponent stack c hc container r = .ok ids r') :
    ∃ ts, Expands reg c c.template ts ∧ Render.Made r r' ids ts := by
  obtain ⟨hs, hnodes⟩ := renderComponent_ok hr
  obtain ⟨ts, hexpands, hlooks⟩ := looks_renderNodes (ready_instantiated c container r) hl hnodes
  exact ⟨ts, hexpands, hlooks⟩
termination_by (reg.unvisited stack, 0)
decreasing_by exact Prod.Lex.left _ _ (Registry.unvisited_cons_lt hc hs)

private theorem looks_renderNode {reg : Registry σ} {r r' : Rendering σ} {stack : List String}
    {c : Component σ}
    {place : Nat} {state : StateId} {n : Markup.Node} {x : NodeId} (hready : Ready c place state r)
    (hl : r.world.ListensWithin) (hr : reg.renderNode stack c place state n r = .ok x r') :
    ∃ t, Expands reg c [n] [t] ∧ Render.Made r r' [x] [t] := by
  match n with
  | .text content =>
    rw [Registry.renderNode] at hr
    exact ⟨.text content, .text content (.nil c), looks_text hl hr⟩
  | .element tag attributes children =>
    cases hget : reg.get? tag with
    | some nested =>
      rw [renderNode_nested hget] at hr
      obtain ⟨container, r₀, hcreate, hr⟩ := Render.bind_ok hr
      obtain ⟨ids, r₂, hcomponent, hr⟩ := Render.bind_ok hr
      obtain ⟨_, r₃, happend, hr⟩ := Render.bind_ok hr
      obtain ⟨rfl, rfl⟩ := Render.pure_ok hr
      obtain ⟨rfl, hdressed⟩ := dressed_create hl hcreate
      obtain ⟨ts, hexpands, hlooks⟩ :=
        looks_renderComponent ((keeps_edit hcreate).listens hl) hcomponent
      have hkeeps := keeps_renderComponent hcomponent
      have hold : ¬ r₀.world.document.nodes.length ≤ r.world.document.nodes.length :=
        Nat.not_le_of_lt hdressed.made
      have happended := appendAll_ok (Nat.lt_of_lt_of_le hdressed.made hkeeps.length_le) happend
      have hkeeps₃ := keeps_appendAll happend
      have hbelow : Render.Made r₀ r₃ ids ts := by
        have hafter := hlooks.keeps hkeeps₃ (Nat.le_refl _) fun y hy _ he => hold (he ▸ hy)
        exact hafter.mono (Nat.le_refl _) hkeeps₃.length_le fun _ _ _ => ⟨rfl, rfl⟩
      refine ⟨_, .nested hget hexpands (.nil c), ?_⟩
      -- The container is left alone until the nodes are appended to it.
      apply hdressed.looks (hkeeps.trans_of hkeeps₃) ?_ ?_ ?_ hbelow
      · rintro y hy hlt (hge | rfl)
        · exact Nat.not_le_of_lt hlt hge
        · exact Nat.lt_irrefl _ hy
      · rw [happended.node, Document.children, hkeeps.node _ hdressed.made hold]
        rfl
      · rw [World.listenersAt, happended.listeners]
        exact hkeeps.listeners _ hdressed.made hold
    | none =>
      rw [renderNode_element hget] at hr
      obtain ⟨element, r₀, hcreate, hr⟩ := Render.bind_ok hr
      obtain ⟨_, r₁, hbind, hr⟩ := Render.bind_ok hr
      obtain ⟨_, r₂, hchildren, hr⟩ := Render.bind_ok hr
      obtain ⟨rfl, rfl⟩ := Render.pure_ok hr
      obtain ⟨rfl, hdressed⟩ := dressed_create hl hcreate
      have hready₀ := hready.keeps (keeps_edit hcreate)
      have hl₀ := (keeps_edit hcreate).listens hl
      have hkeeps₁ := keeps_bindAll hready₀.owner hdressed.made hbind
      obtain ⟨texts, hdressed₁⟩ := hdressed.bindAll hready₀ hl₀ hbind
      have hready₁ := hready₀.keeps hkeeps₁
      obtain ⟨ts, ids, hexpands, hlooks, hnode, hlisteners⟩ :=
        looks_renderChildren hready₁ (hkeeps₁.listens hl₀) hdressed₁.made hchildren
      refine ⟨_, .element hget hexpands (.nil c), ?_⟩
      apply hdressed₁.looks
        (keeps_renderChildren hready₁.owner hchildren) ?_ hnode hlisteners hlooks
      rintro y hy hlt (rfl | hge)
      · exact Nat.lt_irrefl _ hy
      · exact Nat.not_le_of_lt hlt hge
termination_by (reg.unvisited stack, sizeOf n)

private theorem looks_renderChildren {reg : Registry σ} {r r' : Rendering σ} {stack : List String}
    {c : Component σ} {place : Nat} {state : StateId} {element : NodeId} {ns : List Markup.Node}
    (hready : Ready c place state r) (hl : r.world.ListensWithin)
    (hlt : element < r.world.document.nodes.length)
    (hr : reg.renderChildren stack c place state element ns r = .ok () r') :
    ∃ ts ids, Expands reg c ns ts ∧ Render.Made r r' ids ts ∧
      r'.world.document.node element = { r.world.document.node element with
        children := r.world.document.children element ++ ids } ∧
      r'.world.listenersAt element = r.world.listenersAt element := by
  match ns with
  | [] =>
    rw [Registry.renderChildren] at hr
    obtain ⟨_, rfl⟩ := Render.pure_ok hr
    refine ⟨[], [], .nil c, .nil (Nat.le_refl _), ?_, rfl⟩
    rw [List.append_nil]
    rfl
  | n :: rest =>
    rw [Registry.renderChildren] at hr
    obtain ⟨child, r₁, hn, hr⟩ := Render.bind_ok hr
    obtain ⟨_, r₂, happend, hr⟩ := Render.bind_ok hr
    obtain ⟨t, hexpands, hlooks⟩ := looks_renderNode hready hl hn
    have hkeeps₁ := keeps_renderNode hready.owner hn
    have hlt₁ := Nat.lt_of_lt_of_le hlt hkeeps₁.length_le
    have happended := append_ok hlt₁ happend
    have hkeeps₂ := keeps_edit happend
    have hready₂ := (hready.keeps hkeeps₁).keeps hkeeps₂
    obtain ⟨ts, ids, hexpands', hlooks', hnode, hlisteners⟩ :=
      looks_renderChildren hready₂ (hkeeps₂.listens (hkeeps₁.listens hl))
        (Nat.lt_of_lt_of_le hlt₁ hkeeps₂.length_le) hr
    have hkeeps₃ := keeps_renderChildren hready₂.owner hr
    have hold : ¬ r.world.document.nodes.length ≤ element := Nat.not_le_of_lt hlt
    -- What comes after the child changes the element and newer nodes only.
    have hchild :
        Looks r'.world r.world.document.nodes.length r₁.world.document.nodes.length
          [child] [t] := by
      apply hlooks.keeps (hkeeps₂.trans_of hkeeps₃) (Nat.le_refl _)
      rintro y hy hlt' (htarget | rfl | hge)
      · cases htarget
        exact hold hy
      · exact hold hy
      · exact Nat.not_le_of_lt (Nat.lt_of_lt_of_le hlt' hkeeps₂.length_le) hge
    have hothers : Render.Made r₁ r' ids ts :=
      hlooks'.mono hkeeps₂.length_le (Nat.le_refl _) fun _ _ _ => ⟨rfl, rfl⟩
    refine ⟨t :: ts, child :: ids, hexpands.cons hexpands', hchild.cons hothers, ?_, ?_⟩
    · rw [hnode, Document.children, happended.node, Document.children, hkeeps₁.node _ hlt hold]
      simp [Document.children]
    · rw [hlisteners, World.listenersAt, happended.listeners]
      exact hkeeps₁.listeners _ hlt hold
termination_by (reg.unvisited stack, sizeOf ns)

private theorem looks_renderNodes {reg : Registry σ} {r r' : Rendering σ} {stack : List String}
    {c : Component σ} {place : Nat} {state : StateId} {ns : List Markup.Node} {ids : List NodeId}
    (hready : Ready c place state r) (hl : r.world.ListensWithin)
    (hr : reg.renderNodes stack c place state ns r = .ok ids r') :
    ∃ ts, Expands reg c ns ts ∧ Render.Made r r' ids ts := by
  match ns with
  | [] =>
    rw [Registry.renderNodes] at hr
    obtain ⟨rfl, rfl⟩ := Render.pure_ok hr
    exact ⟨[], .nil c, .nil (Nat.le_refl _)⟩
  | n :: rest =>
    rw [Registry.renderNodes] at hr
    obtain ⟨x, r₁, hn, hr⟩ := Render.bind_ok hr
    obtain ⟨xs, r₂, hrest, hr⟩ := Render.bind_ok hr
    obtain ⟨rfl, rfl⟩ := Render.pure_ok hr
    obtain ⟨t, hexpands, hlooks⟩ := looks_renderNode hready hl hn
    have hkeeps := keeps_renderNode hready.owner hn
    have hready₁ := hready.keeps hkeeps
    obtain ⟨ts, hexpands', hlooks'⟩ := looks_renderNodes hready₁ (hkeeps.listens hl) hrest
    have hkeeps' := keeps_renderNodes hready₁.owner hrest
    refine ⟨t :: ts, hexpands.cons hexpands', .cons ?_ hlooks'⟩
    exact hlooks.keeps hkeeps' (Nat.le_refl _) fun _ _ hlt => Nat.not_le_of_lt hlt
termination_by (reg.unvisited stack, sizeOf ns)

end

/-! ## Mounts -/

/-- A mount appends nodes to the root that look like the expansion of the component for its tag, all
of them new. The root is otherwise as it was, and so are all nodes that were there before, with
their listeners. -/
theorem World.mount_expands {w w' : World σ} {components : List (Component σ)} {root : NodeId}
    {md : Module} (hroot : root < w.document.nodes.length) (hl : w.ListensWithin)
    (hmount : w.mount components root = (.ok md, w')) :
    let reg := (Registry.empty.registerAll components w.log).1
    ∃ c ids trees, reg.get? (w.document.tag root) = some c ∧ Expands reg c c.template trees ∧
      Looks w' w.document.nodes.length w'.document.nodes.length ids trees ∧
      w'.document.node root =
        { w.document.node root with children := w.document.children root ++ ids } ∧
      (∀ y < w.document.nodes.length, y ≠ root → w'.document.node y = w.document.node y) ∧
      ∀ y < w.document.nodes.length, w'.listenersAt y = w.listenersAt y := by
  intro reg
  obtain ⟨log, r', hr, _, entry, rfl⟩ := mount_ok hmount
  obtain ⟨c, hc, ids, r₁, hget, hcomponent, happend⟩ := renderRoot_ok hr
  obtain ⟨trees, hexpands, hlooks⟩ := looks_renderComponent hl hcomponent
  have hkeeps := keeps_renderComponent hcomponent
  have happended := appendAll_ok (Nat.lt_of_lt_of_le hroot hkeeps.length_le) happend
  have hkeeps' := keeps_appendAll happend
  -- The rendering leaves the old nodes alone, and then only the root is changed.
  have hold : ∀ y < w.document.nodes.length, ¬ w.document.nodes.length ≤ y :=
    fun _ => Nat.not_le_of_lt
  rw [Registry.get?_lower] at hget
  refine ⟨c, ids, trees, hget, hexpands, ?_, ?_, ?_, ?_⟩
  · have hafter := hlooks.keeps hkeeps' (Nat.le_refl _) fun y hy _ he => hold root hroot (he ▸ hy)
    exact hafter.mono (Nat.le_refl _) hkeeps'.length_le fun _ _ _ => ⟨rfl, rfl⟩
  · have hnode : r'.world.document.node root = _ := happended.node
    rw [Document.children, hkeeps.node root hroot (hold root hroot)] at hnode
    exact hnode
  · intro y hy hne
    exact (hkeeps'.node y (Nat.lt_of_lt_of_le hy hkeeps.length_le) hne.symm).trans
      (hkeeps.node y hy (hold y hy))
  · intro y hy
    have hsame : r'.world.listenersAt y = r₁.world.listenersAt y :=
      congrArg (List.filter _) happended.listeners
    exact hsame.trans (hkeeps.listeners y hy (hold y hy))

theorem expands_greeter :
    Expands (Registry.empty.registerAll [greeter, badge] []).1 greeter greeter.template
      [.element "input" [("className", .string "wide"), ("value", .string "you")]
        ["input", "click"] [],
        .element "badge" [] [] [.element "b" [] [] [.text "new"]], .text "Hello"] := by
  have hb : (Registry.empty.registerAll [greeter, badge] []).1.get? "b" = none := rfl
  have hinput : (Registry.empty.registerAll [greeter, badge] []).1.get? "input" = none := rfl
  have hbadge : (Registry.empty.registerAll [greeter, badge] []).1.get? "badge" = some badge := rfl
  have hset : Dressing.ofAttributes badge.initial [⟨"textContent", "new"⟩] =
      ⟨[], [], some "new"⟩ := by
    simp only [Dressing.ofAttributes, List.map_cons, List.map_nil, binding_badge]
    rfl
  have htied : Dressing.ofAttributes greeter.initial
      [⟨"class", "wide"⟩, ⟨"bind-model", "name"⟩, ⟨"on-click", "greet()"⟩] =
      ⟨[("className", .string "wide"), ("value", .string "you")], ["input", "click"], none⟩ := by
    obtain ⟨hclass, hmodel, hclick⟩ := bindings_greeter
    simp only [Dressing.ofAttributes, List.map_cons, List.map_nil, hclass, hmodel, hclick]
    rfl
  exact .dressed htied hinput (.nil greeter)
    (.nested hbadge (.dressed hset hb (.nil badge) (.nil badge)) (.text "Hello" (.nil greeter)))

/-- A mount of a component that uses another one. -/
theorem World.mount_expands_greeter :
    0 < emptyPage.document.nodes.length ∧ emptyPage.ListensWithin ∧
      ∃ md w' ids, emptyPage.mount [greeter, badge] 0 = (.ok md, w') ∧
        Looks w' 1 w'.document.nodes.length ids
          [.element "input" [("className", .string "wide"), ("value", .string "you")]
            ["input", "click"] [],
            .element "badge" [] [] [.element "b" [] [] [.text "new"]], .text "Hello"] ∧
        w'.document.children 0 = ids := by
  have hget : (Registry.empty.registerAll [greeter, badge] []).1.get? "page" = some greeter := rfl
  have hl : emptyPage.ListensWithin := nofun
  obtain ⟨md, hok⟩ : ∃ md, (emptyPage.mount [greeter, badge] 0).1 = .ok md :=
    (mount_renders_iff Nat.one_pos).2 ⟨greeter, hget, renders_greeter, nofun⟩
  have hmount : emptyPage.mount [greeter, badge] 0 =
      (.ok md, (emptyPage.mount [greeter, badge] 0).2) :=
    Prod.ext hok rfl
  obtain ⟨c, ids, trees, hc, hexpands, hlooks, hnode, _⟩ :=
    World.mount_expands Nat.one_pos hl hmount
  obtain rfl : greeter = c := Option.some.inj (hget.symm.trans hc)
  obtain rfl := hexpands.unique expands_greeter
  exact ⟨Nat.one_pos, hl, md, _, ids, hmount, hlooks, congrArg NodeData.children hnode⟩

end ReactiveMarkup
