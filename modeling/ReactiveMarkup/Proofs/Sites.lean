-- SUMMARY: The sites of a rendering, and the subscribers that keep their properties in step.
import ReactiveMarkup.Proofs.Syncing

/-!
# Sites

A rendering makes an element for every element of a template, a `Site`, and ties properties of it to
paths as the attributes say. `Rendered` relates a template to the nodes made for it and lists the
sites. `Assembled` is what holds of the sites at every stage of a rendering: the subscribers of
every instance are those that its sites ask for, and every property that is tied to a path shows
what the path reads.
-/

namespace ReactiveMarkup

variable {σ : Type}

/-! ## Sites -/

namespace Binding

/-- The property that the binding writes. -/
def target? : Binding → Option String
  | listen _ _ => none
  | model _ => some "value"
  | property name _ => some name
  | fixed name _ => some name

/-- The property that the binding ties to a path, and the path. -/
def tied? : Binding → Option (String × Path)
  | model path => some ("value", path)
  | property name path => some (name, path)
  | listen _ _ | fixed _ _ => none

theorem target?_of_tied? {b : Binding} {property : String} {path : Path}
    (h : b.tied? = some (property, path)) : b.target? = some property := by
  cases b <;> cases h <;> rfl

end Binding

/-- The property that an attribute writes. -/
def Markup.Attribute.target? (a : Markup.Attribute) : Option String :=
  (Binding.ofAttribute a).target?

/-- The property that an attribute ties to a path, and the path. -/
def Markup.Attribute.tied? (a : Markup.Attribute) : Option (String × Path) :=
  (Binding.ofAttribute a).tied?

/-- An element made for an element of a template. -/
structure Site where
  node : NodeId
  tag : String
  attributes : List Markup.Attribute

namespace Site

/-- The subscribers that the attributes ask for. -/
def syncs (s : Site) : List Sync :=
  s.attributes.filterMap fun a => a.tied?.map fun (property, path) => ⟨s.node, property, path⟩

/-- An attribute ties a property to a path, and no other attribute writes the property. -/
structure Ties (s : Site) (before : List Markup.Attribute) (a : Markup.Attribute)
    (after : List Markup.Attribute) (property : String) (path : Path) : Prop where
  attributes : s.attributes = before ++ a :: after
  tied : a.tied? = some (property, path)
  sole : ∀ other ∈ before ++ after, ∀ name, other.target? = some name →
    Document.sameProperty name property = false

/-- Every property that is tied to a path shows what the path reads. -/
def InStep (s : Site) (data : Value) (d : Document) : Prop :=
  ∀ before a after property path, s.Ties before a after property path →
    ∃ v, path.get data = .ok v ∧ d.Holds s.node property v

end Site

/-- Whether an attribute writes a property that stands for the children of the element. -/
def setsContent (attributes : List Markup.Attribute) : Bool :=
  attributes.any fun a => a.target?.any Document.isContentProperty

/-- The nodes of a document that were made for a template, with the elements among them as sites in
document order. What is rendered into the containers of nested components is not part of it. Where
attributes write the content of an element, a text comes before the nodes made for its children. -/
inductive Rendered (reg : Registry σ) (d : Document) :
    List Markup.Node → List NodeId → List Site → Prop
  | nil : Rendered reg d [] [] []
  | text {content : String} {x : NodeId} {ns : List Markup.Node} {xs : List NodeId}
      {sites : List Site}
      (kind : (d.node x).kind = .text content) (rest : Rendered reg d ns xs sites) :
      Rendered reg d (.text content :: ns) (x :: xs) sites
  | nested {tag : String} {attributes : List Markup.Attribute} {children : List Markup.Node}
      {x : NodeId} {ns : List Markup.Node} {xs : List NodeId} {sites : List Site}
      (registered : reg.contains tag = true) (kind : (d.node x).kind = .element tag)
      (rest : Rendered reg d ns xs sites) :
      Rendered reg d (.element tag attributes children :: ns) (x :: xs) sites
  | element {tag : String} {attributes : List Markup.Attribute} {children : List Markup.Node}
      {x : NodeId} {texts ys : List NodeId} {inner : List Site} {ns : List Markup.Node}
      {xs : List NodeId} {sites : List Site}
      (unregistered : reg.contains tag = false) (kind : (d.node x).kind = .element tag)
      (content : texts.length = if setsContent attributes then 1 else 0)
      (below : d.children x = texts ++ ys) (inside : Rendered reg d children ys inner)
      (rest : Rendered reg d ns xs sites) :
      Rendered reg d (.element tag attributes children :: ns) (x :: xs)
        (⟨x, tag, attributes⟩ :: inner ++ sites)

/-! ## Successful parts of a rendering -/

namespace Render

variable {α β : Type} {r r' : Rendering σ}

theorem bind_ok {x : Render σ α} {f : α → Render σ β} {b : β} (h : (x >>= f) r = .ok b r') :
    ∃ a r₁, x r = .ok a r₁ ∧ f a r₁ = .ok b r' := by
  have hb : (x >>= f) r = EStateM.bind x f r := rfl
  rw [hb, EStateM.bind] at h
  split at h
  · next a r₁ hx => exact ⟨a, r₁, hx, h⟩
  · cases h

theorem pure_ok {a b : α} (h : (pure a : Render σ α) r = .ok b r') : a = b ∧ r = r' := by
  cases h
  exact ⟨rfl, rfl⟩

theorem edit_ok {e : Edit} {z : NodeId} (h : edit e r = .ok z r') :
    ∃ d, r.world.document.edit e = .ok (z, d) ∧
      r' = { r with world := { r.world with document := d } } := by
  unfold edit World.edit at h
  split at h
  · next node w hw =>
    split at hw
    · cases hw
    · next d hd =>
      cases hw
      cases h
      exact ⟨d, hd, rfl⟩
  · cases h

/-- The rendering after an instance has subscribed. -/
def subscribed (place : Nat) (state : StateId) (callback : Option Notice → Script σ)
    (r : Rendering σ) : Rendering σ :=
  ⟨(r.world.register (.state state) callback).2, r.instances.modify place fun i =>
    { i with subscriptions := i.subscriptions ++ [(r.world.subject (.state state)).nextId] }⟩

/-- The rendering after an instance has begun to listen. -/
def listening (place : Nat) (state : StateId) (node : NodeId) (event : String) (callback : Script σ)
    (r : Rendering σ) : Rendering σ :=
  ⟨(r.world.listen node event (some state) callback).2, r.instances.modify place fun i =>
    { i with listeners := i.listeners ++ [r.world.nextListener] }⟩

theorem listen_ok {place : Nat} {state : StateId} {node : NodeId} {event : String}
    {callback : Script σ} (h : listen place state node event callback r = .ok () r') :
    r' = listening place state node event callback r := by
  cases h
  rfl

theorem sync_ok {place : Nat} {state : StateId} {x : NodeId} {property : String} {path : Path}
    (h : sync place state x property path r = .ok () r') :
    ∃ v, path.get (r.world.data state) = .ok v ∧
      r' = subscribed place state (syncScript x property path)
        { r with world := { r.world
          with document := r.world.document.setProperty x property v } } := by
  unfold sync at h
  obtain ⟨r₁, _, hget, h⟩ := bind_ok h
  cases hget
  cases hp : path.get (r.world.data state) with
  | error e =>
    rw [hp] at h
    cases h
  | ok v =>
    rw [hp] at h
    obtain ⟨z, r₁, hedit, h⟩ := bind_ok h
    obtain ⟨d, hd, rfl⟩ := edit_ok hedit
    cases hd
    cases h
    exact ⟨v, rfl, rfl⟩

end Render

/-! ## The sites of a rendering -/

/-- A site with the place of the instance that it belongs to. -/
structure Placed where
  place : Nat
  site : Site

/-- The sites of the instance at a place. -/
def sitesAt (placed : List Placed) (place : Nat) : List Site :=
  placed.filterMap fun p => if p.place = place then some p.site else none

/-- The subscribers that the instance at a place needs. -/
def syncsAt (placed : List Placed) (place : Nat) : List Sync :=
  (sitesAt placed place).flatMap Site.syncs

section Placed

variable {placed old : List Placed} {place k : Nat} {s : Site} {x : NodeId} {tag : String}
  {before : List Markup.Attribute} {a : Markup.Attribute}

@[simp] theorem sitesAt_append (placed new : List Placed) (place : Nat) :
    sitesAt (placed ++ new) place = sitesAt placed place ++ sitesAt new place :=
  List.filterMap_append

@[simp] theorem syncsAt_append (placed new : List Placed) (place : Nat) :
    syncsAt (placed ++ new) place = syncsAt placed place ++ syncsAt new place := by
  simp [syncsAt]

theorem sitesAt_eq_nil (h : ∀ p ∈ placed, p.place ≠ place) : sitesAt placed place = [] :=
  List.filterMap_eq_nil_iff.2 fun p hp => if_neg (h p hp)

theorem mem_sitesAt : s ∈ sitesAt placed place ↔ ⟨place, s⟩ ∈ placed := by
  simp only [sitesAt, List.mem_filterMap, Option.ite_none_right_eq_some, Option.some.injEq]
  constructor
  · rintro ⟨p, hp, rfl, rfl⟩
    exact hp
  · exact fun h => ⟨_, h, rfl, rfl⟩

private theorem Site.syncs_concat : Site.syncs ⟨x, tag, before ++ [a]⟩ =
    Site.syncs ⟨x, tag, before⟩ ++
    (a.tied?.map fun (property, path) => ⟨x, property, path⟩).toList := by
  simp only [syncs, List.filterMap_append, List.filterMap_cons, List.filterMap_nil]
  cases a.tied? <;> rfl

/-- One more attribute asks for its subscriber where it belongs. -/
theorem syncsAt_concat : syncsAt (old ++ [⟨place, ⟨x, tag, before ++ [a]⟩⟩]) k =
    syncsAt (old ++ [⟨place, ⟨x, tag, before⟩⟩]) k ++
      if place = k then (a.tied?.map fun (property, path) => ⟨x, property, path⟩).toList
      else [] := by
  by_cases hk : place = k <;> simp [syncsAt, sitesAt, hk, Site.syncs_concat]

end Placed

/-- The subscribers of every instance are the given ones. -/
structure Joined (base : Nat) (r : Rendering σ) (syncs : Nat → List Sync) : Prop where
  states : r.world.states.length = base + r.instances.length
  subject : ∀ k < r.instances.length, r.world.subject (.state (base + k)) = Sync.subject (syncs k)
  instances : ∀ k i, r.instances[k]? = some i →
    i.state = base + k ∧ i.subscriptions = List.range (syncs k).length

/-- Every site has an element of its own, and its properties are in step with the tree of its
state. -/
structure Displayed (base : Nat) (w : World σ) (placed : List Placed) : Prop where
  node_lt : ∀ p ∈ placed, p.site.node < w.document.nodes.length
  nodup : (placed.map (·.site.node)).Nodup
  inStep : ∀ p ∈ placed, p.site.InStep (w.data (base + p.place)) w.document

/-- What holds at every stage of a rendering that has made the sites. The states before `base` are
older than the rendering. -/
structure Assembled (base : Nat) (r : Rendering σ) (placed : List Placed) : Prop where
  joined : Joined base r (syncsAt placed)
  displayed : Displayed base r.world placed
  place_lt : ∀ p ∈ placed, p.place < r.instances.length

/-! ### What joins -/

section Joined

variable {base place : Nat} {r : Rendering σ} {syncs syncs' : Nat → List Sync}

theorem Joined.document (h : Joined base r syncs) (d : Document) :
    Joined base { r with world := { r.world with document := d } } syncs :=
  ⟨h.states, h.subject, h.instances⟩

/-- Changing an instance in other respects leaves the subscribers alone. -/
theorem Joined.listening (h : Joined base r syncs) (state : StateId) (node : NodeId)
    (event : String)
    (callback : Script σ) : Joined base
    (Render.listening place state node event callback r) syncs where
  states := by simpa [Render.listening, World.listen] using h.states
  subject := by
    intro k hk
    rw [Render.listening, World.subject_listen]
    exact h.subject k (by simpa [Render.listening] using hk)
  instances := by
    intro k i hi
    simp only [Render.listening, List.getElem?_modify] at hi
    cases hk : r.instances[k]? with
    | none => simp [hk] at hi
    | some j =>
      obtain ⟨hstate, hids⟩ := h.instances k j hk
      by_cases hp : place = k
      · simp only [hk, hp, if_true, Option.map_eq_map, Option.map_some, Option.some.injEq] at hi
        exact hi ▸ ⟨hstate, hids⟩
      · simp only [hk, hp, if_false, Option.map_eq_map, Option.map_some, Option.some.injEq] at hi
        exact hi ▸ ⟨hstate, hids⟩

theorem Joined.subscribed (h : Joined base r syncs) (hplace : place < r.instances.length) (b : Sync)
    (hself : syncs' place = syncs place ++ [b]) (hother : ∀ k, k ≠ place → syncs' k = syncs k) :
    Joined base (Render.subscribed place (base + place) b.script r) syncs' where
  states :=
    by simpa [Render.subscribed, World.register, World.putSubject, World.modifyState] using h.states
  subject := by
    intro k hk
    have hk' : k < r.instances.length := by simpa [Render.subscribed] using hk
    by_cases hp : k = place
    · subst hp
      have hnamed : r.world.HasSource (.state (base + k)) := by
        have hlt : base + k < r.world.states.length := by
          rw [h.states]
          omega
        exact hlt
      rw [Render.subscribed, World.subject_register_self hnamed, h.subject k hk', hself]
      simp [Subject.register, Sync.subject, Sync.numbered_concat]
    · -- Instances have states of their own.
      have hne : SubjectId.state (base + k) ≠ .state (base + place) := by
        intro he
        have he' : base + k = base + place := by simpa using he
        omega
      rw [Render.subscribed, World.subject_register_of_ne hne, h.subject k hk', hother k hp]
  instances := by
    intro k i hi
    simp only [Render.subscribed, List.getElem?_modify, h.subject place hplace] at hi
    cases hk : r.instances[k]? with
    | none => simp [hk] at hi
    | some j =>
      obtain ⟨hstate, hids⟩ := h.instances k j hk
      by_cases hp : place = k
      · subst hp
        simp only [hk, if_true, Option.map_eq_map, Option.map_some, Option.some.injEq] at hi
        subst hi
        refine ⟨hstate, ?_⟩
        rw [hself, hids, List.length_append, List.length_singleton, List.range_succ]
        rfl
      · simp only [hk, hp, if_false, Option.map_eq_map, Option.map_some, Option.some.injEq] at hi
        rw [hother k (Ne.symm hp)]
        exact hi ▸ ⟨hstate, hids⟩

/-- A new instance has no subscribers. -/
theorem Joined.instantiate (h : Joined base r syncs) (c : Component σ) (container : NodeId)
    (hnew : syncs r.instances.length = []) :
    Joined base ⟨(c.instantiate r.world).2,
      r.instances ++ [⟨c.selector, r.world.states.length, container, [], []⟩]⟩ syncs where
  states := by
    simp only [Component.instantiate, World.newState, List.length_append,
      List.length_singleton, h.states]
    omega
  subject := by
    intro k hk
    simp only [Component.instantiate, World.newState, World.subject]
    rcases Nat.lt_or_ge k r.instances.length with hlt | hge
    · have hlt' : base + k < r.world.states.length := by
        rw [h.states]
        omega
      rw [List.getElem?_append_left hlt']
      exact h.subject k hlt
    · have hk' : k = r.instances.length := by
        simp only [List.length_append, List.length_singleton] at hk
        omega
      rw [hk', ← h.states, hnew]
      simp [Sync.subject, Sync.numbered]
  instances := by
    intro k i hi
    rcases Nat.lt_or_ge k r.instances.length with hlt | hge
    · rw [List.getElem?_append_left hlt] at hi
      exact h.instances k i hi
    · rw [List.getElem?_append_right hge, List.getElem?_singleton,
        Option.ite_none_right_eq_some] at hi
      obtain ⟨hk, hi⟩ := hi
      obtain rfl := Option.some.inj hi
      have hk' : k = r.instances.length := by omega
      rw [hk', hnew]
      exact ⟨h.states, rfl⟩

end Joined

/-! ### What is displayed -/

section Displayed

variable {base place : Nat} {w w' : World σ} {placed old : List Placed} {e : Edit} {d : Document}
  {x z : NodeId} {tag : String} {before : List Markup.Attribute} {a : Markup.Attribute}
  {data : Value}

/-- A site with one more attribute is in step where its other properties show what they showed, and
the attribute is in step. -/
theorem Site.InStep.concat {d' : Document} (h : Site.InStep ⟨x, tag, before⟩ data d)
    (hkeep : ∀ property v, (∀ name, a.target? = some name →
      Document.sameProperty name property = false) → d.Holds x property v → d'.Holds x property v)
    (hself : ∀ property path, a.tied? = some (property, path) →
      ∃ v, path.get data = .ok v ∧ d'.Holds x property v) :
    Site.InStep ⟨x, tag, before ++ [a]⟩ data d' := by
  intro left other right property path ht
  have hattributes : before ++ [a] = left ++ other :: right := ht.attributes
  -- The attribute that ties the property is the new one, or one of those before.
  rcases List.eq_nil_or_concat right with rfl | ⟨right, last, rfl⟩
  · obtain ⟨_, hlast⟩ := List.append_inj' hattributes rfl
    obtain rfl : a = other := by simpa using hlast
    exact hself property path ht.tied
  · have hsplit : before ++ [a] = (left ++ other :: right) ++ [last] := by simpa using hattributes
    obtain ⟨hbefore, hlast⟩ := List.append_inj' hsplit rfl
    obtain rfl : a = last := by simpa using hlast
    have hties : Site.Ties ⟨x, tag, before⟩ left other right property path := by
      refine ⟨hbefore, ht.tied, fun b hb => ht.sole b ?_⟩
      rcases List.mem_append.1 hb with hb | hb
      · exact List.mem_append_left _ hb
      · exact List.mem_append_right _ (by simp [hb])
    obtain ⟨v, hget, hholds⟩ := h left other right property path hties
    exact ⟨v, hget, hkeep property v (ht.sole a (by simp)) hholds⟩

theorem Displayed.of_eq (h : Displayed base w placed) (hdocument : w'.document = w.document)
    (hdata : ∀ p ∈ placed, w'.data (base + p.place) = w.data (base + p.place)) :
    Displayed base w' placed where
  node_lt := by
    rw [hdocument]
    exact h.node_lt
  nodup := h.nodup
  inStep := by
    intro p hp
    rw [hdocument, hdata p hp]
    exact h.inStep p hp

/-- An edit that writes no property leaves the sites in step. -/
theorem Displayed.edit (h : Displayed base w placed) (he : w.document.edit e = .ok (z, d))
    (ht : ∀ x property, e.touches x property = false) :
    Displayed base { w with document := d } placed where
  node_lt := fun p hp => Nat.lt_of_lt_of_le (h.node_lt p hp) (Document.length_le_of_edit he)
  nodup := h.nodup
  inStep := by
    intro p hp before a after property path hties
    obtain ⟨v, hget, hholds⟩ := h.inStep p hp before a after property path hties
    exact ⟨v, hget, hholds.edit he (ht _ _)⟩

/-- A new element has no attributes yet. -/
theorem Displayed.create (h : Displayed base w placed) (he : w.document.edit e = .ok (z, d))
    (ht : e.target? = none) (tag : String) :
    Displayed base { w with document := d } (placed ++ [⟨place, ⟨z, tag, []⟩⟩]) := by
  obtain ⟨hz, hlen⟩ := Document.length_of_create he ht
  have hkept := h.edit he fun x property => Edit.touches_eq_false (by simp [ht]) property
  constructor
  case node_lt =>
    intro p hp
    rcases List.mem_append.1 hp with hp | hp
    · exact hkept.node_lt p hp
    · obtain rfl := List.mem_singleton.1 hp
      have hlt : z < d.nodes.length := by
        rw [hz, hlen]
        exact Nat.lt_succ_self _
      exact hlt
  case nodup =>
    rw [List.map_append, List.nodup_append]
    refine ⟨h.nodup, by simp, ?_⟩
    intro x hx y hy
    obtain ⟨p, hp, rfl⟩ := List.mem_map.1 hx
    -- The new node is behind all nodes of the sites.
    have hy' : y = w.document.nodes.length := by simpa [hz] using hy
    exact hy' ▸ Nat.ne_of_lt (h.node_lt p hp)
  case inStep =>
    intro p hp
    rcases List.mem_append.1 hp with hp | hp
    · exact hkept.inStep p hp
    · obtain rfl := List.mem_singleton.1 hp
      intro before a after property path hties
      simpa using hties.attributes

/-- The last site gets one more attribute, which has been carried out. -/
theorem Displayed.attribute (h : Displayed base w (old ++ [⟨place, ⟨x, tag, before⟩⟩]))
    (hlen : w.document.nodes.length ≤ d.nodes.length)
    (hother : ∀ y property v, y ≠ x → w.document.Holds y property v → d.Holds y property v)
    (hkeep : ∀ property v, (∀ name, a.target? = some name →
      Document.sameProperty name property = false) →
      w.document.Holds x property v → d.Holds x property v)
    (hself : ∀ property path, a.tied? = some (property, path) →
      ∃ v, path.get (w.data (base + place)) = .ok v ∧ d.Holds x property v) :
    Displayed base { w with document := d } (old ++ [⟨place, ⟨x, tag, before ++ [a]⟩⟩]) where
  node_lt := by
    intro p hp
    rcases List.mem_append.1 hp with hp | hp
    · exact Nat.lt_of_lt_of_le (h.node_lt p (List.mem_append_left _ hp)) hlen
    · obtain rfl := List.mem_singleton.1 hp
      exact Nat.lt_of_lt_of_le (h.node_lt ⟨place, ⟨x, tag, before⟩⟩ (by simp)) hlen
  nodup := by simpa using h.nodup
  inStep := by
    intro p hp
    rcases List.mem_append.1 hp with hp | hp
    · intro left b right property path hties
      obtain ⟨v, hget, hholds⟩ :=
        h.inStep p (List.mem_append_left _ hp) left b right property path hties
      -- Other sites have other elements.
      have hnodup : (old.map (·.site.node) ++ [x]).Nodup := by simpa using h.nodup
      have hne : p.site.node ≠ x :=
        (List.nodup_append.1 hnodup).2.2 _ (List.mem_map_of_mem hp) x (by simp)
      exact ⟨v, hget, hother _ property v hne hholds⟩
    · obtain rfl := List.mem_singleton.1 hp
      exact (h.inStep ⟨place, ⟨x, tag, before⟩⟩ (by simp)).concat hkeep hself

theorem Displayed.noTarget (h : Displayed base w (old ++ [⟨place, ⟨x, tag, before⟩⟩]))
    (ha : a.target? = none) : Displayed base w (old ++ [⟨place, ⟨x, tag, before ++ [a]⟩⟩]) := by
  refine h.attribute (d := w.document) (Nat.le_refl _) (fun _ _ _ _ hh => hh)
    (fun _ _ _ hh => hh) ?_
  intro property path hties
  have htarget : a.target? = some property := Binding.target?_of_tied? hties
  rw [ha] at htarget
  cases htarget

theorem Displayed.setProperty (h : Displayed base w (old ++ [⟨place, ⟨x, tag, before⟩⟩]))
    {name : String} (ha : a.target? = some name) (v : Value)
    (htied : ∀ property path, a.tied? = some (property, path) →
      path.get (w.data (base + place)) = .ok v) :
    Displayed base { w with document := w.document.setProperty x name v }
      (old ++ [⟨place, ⟨x, tag, before ++ [a]⟩⟩]) := by
  have hx : x < w.document.nodes.length := h.node_lt ⟨place, ⟨x, tag, before⟩⟩ (by simp)
  have hedit : w.document.edit (.setProperty x name v) =
    .ok (x, w.document.setProperty x name v) := rfl
  refine h.attribute (Document.length_setProperty name v) ?_ ?_ ?_
  · intro y property u hne hholds
    exact hholds.edit hedit (Edit.touches_eq_false (by simp [Edit.target?, Ne.symm hne]) property)
  · intro property u hname hholds
    exact hholds.edit hedit (by simp [Edit.touches, hname name ha])
  · intro property path hties
    have htarget : a.target? = some property := Binding.target?_of_tied? hties
    obtain rfl : name = property := Option.some.inj (ha.symm.trans htarget)
    exact ⟨v, htied name path hties,
      Document.holds_setProperty hx (by simp [Document.sameProperty])⟩

end Displayed

end ReactiveMarkup
