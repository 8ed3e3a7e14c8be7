-- SUMMARY: The sites and instances that every part of a rendering adds.
import ReactiveMarkup.Proofs.Sites

/-!
# What a rendering makes

Every part of a rendering adds sites and leaves the older nodes alone, but for one that it appends
to: `Added` says so, and is proved along the recursion over components and templates. The nodes made
for a template are not changed again while the mount goes on, so what is said of them is said of all
documents that agree with the present one on these nodes, as `Within` puts it. `assembled_mount` is
what follows for a mount.
-/

namespace ReactiveMarkup

variable {σ : Type}

/-! ## Stages of a rendering -/

/-- The nodes of a document are as they were, but for one. -/
structure Document.Leaves (d : Document) (x? : Option NodeId) (d' : Document) : Prop where
  length_le : d.nodes.length ≤ d'.nodes.length
  node : ∀ y < d.nodes.length, x? ≠ some y → d'.node y = d.node y

/-- What holds of all documents that agree with one on the nodes from `lo` on. -/
def Within (lo : NodeId) (d : Document) (P : Document → Prop) : Prop :=
  ∀ d', (∀ y, lo ≤ y → y < d.nodes.length → d'.node y = d.node y) → P d'

section Documents

variable {d d' d'' : Document} {x? : Option NodeId} {lo lo' z : NodeId} {P : Document → Prop}

theorem Document.Leaves.refl (d : Document) (x? : Option NodeId) : d.Leaves x? d :=
  ⟨Nat.le_refl _, fun _ _ _ => rfl⟩

theorem Document.Leaves.of_edit {e : Edit} (h : d.edit e = .ok (z, d')) : d.Leaves e.target? d' :=
  ⟨length_le_of_edit h, fun _ hy hne => node_of_edit h hy hne⟩

theorem Document.Leaves.trans (h : d.Leaves x? d') (h' : d'.Leaves x? d'') : d.Leaves x? d'' where
  length_le := Nat.le_trans h.length_le h'.length_le
  node := fun y hy hne =>
    (h'.node y (Nat.lt_of_lt_of_le hy h.length_le) hne).trans (h.node y hy hne)

theorem Document.Leaves.weaken (h : d.Leaves none d') (x? : Option NodeId) : d.Leaves x? d' :=
  ⟨h.length_le, fun y hy _ => h.node y hy (by simp)⟩

/-- Changing a new node leaves the old ones alone. -/
theorem Document.Leaves.close (h : d.Leaves none d') (hz : d.nodes.length ≤ z)
    (h' : d'.Leaves (some z) d'') : d.Leaves none d'' where
  length_le := Nat.le_trans h.length_le h'.length_le
  node := by
    intro y hy hne
    have hzy : some z ≠ some y := by
      rintro he
      cases he
      exact absurd hy (Nat.not_lt_of_le hz)
    exact (h'.node y (Nat.lt_of_lt_of_le hy h.length_le) hzy).trans (h.node y hy hne)

theorem Within.self (h : Within lo d P) : P d := h d fun _ _ _ => rfl

/-- What is said of the new nodes goes on to hold while only older ones are changed. -/
theorem Within.mono (h : Within lo d P) (hle : lo' ≤ lo) (hd : d.Leaves x? d')
    (hx : ∀ x ∈ x?, x < lo) : Within lo' d' P := by
  intro d'' hagree
  refine h d'' fun y hlo hlt => ?_
  have hne : x? ≠ some y := by
    rintro rfl
    exact absurd (hx y rfl) (Nat.not_lt_of_le hlo)
  rw [hagree y (Nat.le_trans hle hlo) (Nat.lt_of_lt_of_le hlt hd.length_le), hd.node y hlt hne]

end Documents

/-- The selectors and containers of the instances. -/
def Rendering.heads (r : Rendering σ) : List (String × NodeId) :=
  r.instances.map fun i => (i.selector, i.container)

/-- A container holds what was rendered for a component, with the elements as sites. -/
def Fills (reg : Registry σ) (d : Document) (selector : String) (container : NodeId)
    (sites : List Site) : Prop :=
  ∃ c, reg.get? selector = some c ∧ Rendered reg d c.template (d.children container) sites

/-- What a part of a rendering adds for the instance at a place. Old nodes stay as they are, but for
the node that new ones are appended to, and instances made for nested components are complete. -/
structure Added (reg : Registry σ) (base place : Nat) (x? : Option NodeId) (r : Rendering σ)
    (placed new : List Placed) (r' : Rendering σ) : Prop where
  assembled : Assembled base r' (placed ++ new)
  heads : r.heads <+: r'.heads
  leaves : r.world.document.Leaves x? r'.world.document
  places : ∀ p ∈ new, p.place = place ∨ r.instances.length ≤ p.place
  nested : ∀ k selector container, r.instances.length ≤ k →
    r'.heads[k]? = some (selector, container) → r.world.document.nodes.length ≤ container ∧
      Within r.world.document.nodes.length r'.world.document
        (Fills reg · selector container (sitesAt new k))

section Added

variable {reg : Registry σ} {base place : Nat} {x? : Option NodeId} {r r₁ r₂ : Rendering σ}
  {placed new new₁ new₂ : List Placed}

theorem length_le_of_heads (h : r.heads <+: r₁.heads) :
    r.instances.length ≤ r₁.instances.length := by
  simpa [Rendering.heads] using h.length_le

/-- A part that makes neither sites nor instances. -/
theorem Added.none (h : Assembled base r₁ placed) (hheads : r₁.heads = r.heads)
    (hleaves : r.world.document.Leaves x? r₁.world.document) :
    Added reg base place x? r placed [] r₁ where
  assembled := by rwa [List.append_nil]
  heads := hheads ▸ List.prefix_refl _
  leaves := hleaves
  places := by simp
  nested := by
    intro k selector container hk hhead
    rw [hheads, Rendering.heads, List.getElem?_map, List.getElem?_eq_none hk] at hhead
    cases hhead

theorem Added.weaken (h : Added reg base place .none r placed new r₁) (x? : Option NodeId) :
    Added reg base place x? r placed new r₁ :=
  ⟨h.assembled, h.heads, h.leaves.weaken x?, h.places, h.nested⟩

/-- One part after the other. -/
theorem Added.trans (h : Added reg base place x? r placed new₁ r₁)
    (h' : Added reg base place x? r₁ (placed ++ new₁) new₂ r₂) (hplace : place < r.instances.length)
    (hx : ∀ x ∈ x?, x < r.world.document.nodes.length) :
    Added reg base place x? r placed (new₁ ++ new₂) r₂ where
  assembled := by simpa using h'.assembled
  heads := h.heads.trans h'.heads
  leaves := h.leaves.trans h'.leaves
  places := by
    intro p hp
    have hle := length_le_of_heads h.heads
    rcases List.mem_append.1 hp with hp | hp
    · exact h.places p hp
    · exact (h'.places p hp).imp_right (Nat.le_trans hle)
  nested := by
    intro k selector container hk hhead
    have hlen := h.leaves.length_le
    rcases Nat.lt_or_ge k r₁.instances.length with hlt | hge
    · -- An instance of the first part gets nothing from the second.
      have hhead₁ : r₁.heads[k]? = some (selector, container) := by
        obtain ⟨later, hlater⟩ := h'.heads
        rwa [← hlater, List.getElem?_append_left (by simpa [Rendering.heads] using hlt)] at hhead
      have hnone : sitesAt new₂ k = [] := by
        refine sitesAt_eq_nil fun p hp => ?_
        rcases h'.places p hp with heq | hle <;> omega
      obtain ⟨hcontainer, hfills⟩ := h.nested k selector container hk hhead₁
      rw [sitesAt_append, hnone, List.append_nil]
      exact ⟨hcontainer, hfills.mono (Nat.le_refl _) h'.leaves hx⟩
    · have hnone : sitesAt new₁ k = [] := by
        refine sitesAt_eq_nil fun p hp => ?_
        -- An instance of the second part did not exist in the first.
        have hlt := h.assembled.place_lt p (List.mem_append_right _ hp)
        omega
      obtain ⟨hcontainer, hfills⟩ := h'.nested k selector container hge hhead
      rw [sitesAt_append, hnone, List.nil_append]
      refine ⟨Nat.le_trans hlen hcontainer, ?_⟩
      exact hfills.mono hlen (Document.Leaves.refl _ Option.none) (by simp)

end Added

/-! ## Attributes -/

/-- What carrying out attributes of an element leaves as it was. -/
structure Bound (x : NodeId) (content : Bool) (r r' : Rendering σ) : Prop where
  heads : r'.heads = r.heads
  leaves : r.world.document.Leaves (some x) r'.world.document
  kind : (r'.world.document.node x).kind = (r.world.document.node x).kind
  children : (r'.world.document.children x).length =
    if content then 1 else (r.world.document.children x).length

section Attributes

variable {reg : Registry σ} {base place : Nat} {r r' r'' : Rendering σ} {old placed : List Placed}
  {x : NodeId} {tag : String} {before : List Markup.Attribute} {a : Markup.Attribute}

theorem Bound.of_document (hheads : r'.heads = r.heads)
    (hdocument : r'.world.document = r.world.document) : Bound x false r r' where
  heads := hheads
  leaves := hdocument ▸ Document.Leaves.refl _ _
  kind := by rw [hdocument]
  children := by
    rw [hdocument]
    rfl

theorem Bound.trans {content content' : Bool} (h : Bound x content r r')
    (h' : Bound x content' r' r'') : Bound x (content || content') r r'' where
  heads := h'.heads.trans h.heads
  leaves := h.leaves.trans h'.leaves
  kind := h'.kind.trans h.kind
  children := by
    rw [h'.children, h.children]
    cases content <;> cases content' <;> rfl

theorem Bound.setProperty (hx : x < r.world.document.nodes.length) (name : String) (v : Value) :
    Bound x (Document.isContentProperty name) r
      { r with world := { r.world with document := r.world.document.setProperty x name v } } where
  heads := rfl
  leaves := Document.Leaves.of_edit (e := .setProperty x name v) rfl
  kind := Document.kind_of_edit (e := .setProperty x name v) rfl hx
  children := by
    rw [Document.children_setProperty hx]
    cases Document.isContentProperty name <;> rfl

theorem heads_modify (place : Nat) {f : Instance → Instance}
    (hf : ∀ i, ((f i).selector, (f i).container) = (i.selector, i.container)) (w : World σ) :
    Rendering.heads ⟨w, r.instances.modify place f⟩ = r.heads := by
  refine List.ext_getElem? fun k => ?_
  simp only [Rendering.heads, List.getElem?_map, List.getElem?_modify]
  by_cases hk : place = k <;> cases r.instances[k]? <;> simp [hk, hf]

theorem Bound.listening (state : StateId) (node : NodeId) (event : String) (callback : Script σ) :
    Bound x false r (Render.listening place state node event callback r) := by
  refine .of_document ?_ rfl
  refine heads_modify place ?_ _
  exact fun _ => rfl

theorem Bound.subscribed (place : Nat) (state : StateId) (callback : Option Notice → Script σ) :
    Bound x false r (Render.subscribed place state callback r) := by
  refine .of_document ?_ (by simp [Render.subscribed])
  refine heads_modify place ?_ _
  exact fun _ => rfl

theorem Assembled.listening (h : Assembled base r placed) (state : StateId) (node : NodeId)
    (event : String) (callback : Script σ) :
    Assembled base (Render.listening place state node event callback r) placed where
  joined := h.joined.listening state node event callback
  displayed := h.displayed.of_eq rfl fun _ _ => rfl
  place_lt := by simpa [Render.listening] using h.place_lt

/-- An attribute that is not tied to a path needs no subscriber. -/
theorem syncsAt_of_untied (ha : a.tied? = none) :
    syncsAt (old ++ [⟨place, ⟨x, tag, before ++ [a]⟩⟩]) =
      syncsAt (old ++ [⟨place, ⟨x, tag, before⟩⟩]) := by
  funext k
  rw [syncsAt_concat, ha]
  simp

theorem Assembled.noTarget (h : Assembled base r (old ++ [⟨place, ⟨x, tag, before⟩⟩]))
    (ha : a.target? = none) (htied : a.tied? = none) :
    Assembled base r (old ++ [⟨place, ⟨x, tag, before ++ [a]⟩⟩]) where
  joined := by
    rw [syncsAt_of_untied htied]
    exact h.joined
  displayed := h.displayed.noTarget ha
  place_lt := by simpa [or_imp, forall_and] using h.place_lt

theorem Assembled.fixed (h : Assembled base r (old ++ [⟨place, ⟨x, tag, before⟩⟩])) {name : String}
    (ha : a.target? = some name) (htied : a.tied? = none) (v : Value) :
    Assembled base
      { r with world := { r.world with document := r.world.document.setProperty x name v } }
      (old ++ [⟨place, ⟨x, tag, before ++ [a]⟩⟩]) where
  joined := by
    rw [syncsAt_of_untied htied]
    exact h.joined.document _
  displayed := h.displayed.setProperty ha v (by simp [htied])
  place_lt := by simpa [or_imp, forall_and] using h.place_lt

theorem Assembled.tied (h : Assembled base r (old ++ [⟨place, ⟨x, tag, before⟩⟩]))
    {property : String} {path : Path} (ha : a.tied? = some (property, path)) {v : Value}
    (hv : path.get (r.world.data (base + place)) = .ok v) :
    Assembled base
      (Render.subscribed place (base + place) (Render.syncScript x property path)
        { r with world := { r.world with document := r.world.document.setProperty x property v } })
      (old ++ [⟨place, ⟨x, tag, before ++ [a]⟩⟩]) where
  joined := by
    have hplace : place < r.instances.length := h.place_lt ⟨place, ⟨x, tag, before⟩⟩ (by simp)
    refine (h.joined.document (r.world.document.setProperty x property v)).subscribed hplace
      ⟨x, property, path⟩ ?_ ?_
    · rw [syncsAt_concat, if_pos rfl, ha]
      rfl
    · intro k hk
      rw [syncsAt_concat, if_neg (Ne.symm hk), List.append_nil]
  displayed := by
    have hset := h.displayed.setProperty (Binding.target?_of_tied? ha) v (by
      intro property' path' ha'
      rw [ha] at ha'
      cases ha'
      exact hv)
    exact hset.of_eq (by simp [Render.subscribed]) fun _ _ => by simp [Render.subscribed]
  place_lt := by simpa [Render.subscribed, or_imp, forall_and] using h.place_lt

/-- An attribute that is carried out is one more attribute of the site. -/
private theorem assembled_bindAttribute {c : Component σ}
    (h : Assembled base r (old ++ [⟨place, ⟨x, tag, before⟩⟩]))
    (hr : Render.bindAttribute c place (base + place) tag x (.ofAttribute a) r = .ok () r') :
    Assembled base r' (old ++ [⟨place, ⟨x, tag, before ++ [a]⟩⟩]) ∧
      Bound x (a.target?.any Document.isContentProperty) r r' := by
  have hx : x < r.world.document.nodes.length :=
    h.displayed.node_lt ⟨place, ⟨x, tag, before⟩⟩ (by simp)
  -- Two kinds of attributes sync a property, a model and a bound property.
  have hsync : ∀ {property path} {r' : Rendering σ}, a.tied? = some (property, path) →
      Render.sync place (base + place) x property path r = .ok () r' →
      Assembled base r' (old ++ [⟨place, ⟨x, tag, before ++ [a]⟩⟩]) ∧
        Bound x (a.target?.any Document.isContentProperty) r r' := by
    intro property path r' ha hr
    obtain ⟨v, hv, rfl⟩ := Render.sync_ok hr
    have hbound := (Bound.setProperty hx property v).trans
      (Bound.subscribed place (base + place) (Render.syncScript x property path))
    rw [Bool.or_false] at hbound
    refine ⟨h.tied ha hv, ?_⟩
    simpa [Markup.Attribute.target?, Binding.target?_of_tied? ha] using hbound
  cases hb : Binding.ofAttribute a with
  | listen event method =>
    have ha : a.target? = none := by simp [Markup.Attribute.target?, hb, Binding.target?]
    cases hm : c.method? method with
    | none =>
      rw [hb, Render.bindAttribute, hm] at hr
      cases hr
    | some script =>
      rw [hb, Render.bindAttribute, hm] at hr
      obtain rfl := Render.listen_ok hr
      have hlast := h.noTarget ha (by simp [Markup.Attribute.tied?, hb, Binding.tied?])
      rw [ha]
      exact ⟨hlast.listening _ _ _ _, .listening _ _ _ _⟩
  | model path =>
    rw [hb, Render.bindAttribute] at hr
    split at hr
    · obtain ⟨_, r₁, hs, hl⟩ := Render.bind_ok hr
      obtain ⟨hassembled, hbound⟩ := hsync (by simp [Markup.Attribute.tied?, hb, Binding.tied?]) hs
      obtain rfl := Render.listen_ok hl
      refine ⟨hassembled.listening _ _ _ _, ?_⟩
      simpa using hbound.trans (.listening _ _ _ _)
    · cases hr
  | property name path =>
    rw [hb, Render.bindAttribute] at hr
    exact hsync (by simp [Markup.Attribute.tied?, hb, Binding.tied?]) hr
  | fixed name value =>
    rw [hb, Render.bindAttribute] at hr
    obtain ⟨_, r₁, hedit, hr⟩ := Render.bind_ok hr
    obtain ⟨_, rfl⟩ := Render.pure_ok hr
    obtain ⟨d, hd, rfl⟩ := Render.edit_ok hedit
    cases hd
    have ha : a.target? = some name := by simp [Markup.Attribute.target?, hb, Binding.target?]
    refine ⟨h.fixed ha (by simp [Markup.Attribute.tied?, hb, Binding.tied?]) _, ?_⟩
    rw [ha]
    exact .setProperty hx name _

private theorem assembled_bindAll {c : Component σ} {attributes : List Markup.Attribute}
    (h : Assembled base r (old ++ [⟨place, ⟨x, tag, before⟩⟩]))
    (hr : Render.bindAll c place (base + place) tag x attributes r = .ok () r') :
    Assembled base r' (old ++ [⟨place, ⟨x, tag, before ++ attributes⟩⟩]) ∧
      Bound x (setsContent attributes) r r' := by
  induction attributes generalizing r before with
  | nil =>
    obtain ⟨_, rfl⟩ := Render.pure_ok hr
    rw [List.append_nil]
    exact ⟨h, .of_document rfl rfl⟩
  | cons a rest ih =>
    obtain ⟨_, r₁, ha, hrest⟩ := Render.bind_ok hr
    obtain ⟨hassembled, hbound⟩ := assembled_bindAttribute h ha
    obtain ⟨hassembled', hbound'⟩ := ih hassembled hrest
    rw [List.append_assoc] at hassembled'
    exact ⟨hassembled', hbound.trans hbound'⟩

end Attributes

/-! ## Trees of nodes -/

/-- Nodes are appended to a parent, and nothing else happens. -/
structure Appended (parent : NodeId) (nodes : List NodeId) (r r' : Rendering σ) : Prop where
  instances : r'.instances = r.instances
  leaves : r.world.document.Leaves (some parent) r'.world.document
  node : r'.world.document.node parent =
    { r.world.document.node parent with children := r.world.document.children parent ++ nodes }
  listeners : r'.world.listeners = r.world.listeners
  assembled : ∀ base placed, Assembled base r placed → Assembled base r' placed

theorem Registry.get?_selector {reg : Registry σ} {tag : String} {c : Component σ}
    (h : reg.get? tag = some c) : reg.get? c.selector = some c := by
  have hselector := Registry.selector_of_get? h
  unfold Registry.get? at h ⊢
  rwa [c.selector_lower, hselector]

section Trees

variable {reg : Registry σ} {base place : Nat} {r r₀ r₁ r₂ r₃ r' : Rendering σ}
  {placed new : List Placed}
  {x z parent : NodeId} {nodes ids xs : List NodeId} {d : Document} {tag : String}
  {attributes : List Markup.Attribute} {n : Markup.Node} {children ns : List Markup.Node}
  {sites inner : List Site}

theorem Assembled.edit {e : Edit} (h : Assembled base r placed)
    (he : r.world.document.edit e = .ok (z, d)) (ht : ∀ x property, e.touches x property = false) :
    Assembled base { r with world := { r.world with document := d } } placed :=
  ⟨h.joined.document d, h.displayed.edit he ht, h.place_lt⟩

theorem append_ok {child : NodeId} (hp : parent < r.world.document.nodes.length)
    (hr : Render.edit (.append parent child) r = .ok z r') : Appended parent [child] r r' := by
  obtain ⟨d, hd, rfl⟩ := Render.edit_ok hr
  exact ⟨rfl, .of_edit hd, (Document.node_of_append hd hp).2, rfl,
    fun _ _ h => h.edit hd fun _ _ => rfl⟩

theorem appendAll_ok (hp : parent < r.world.document.nodes.length)
    (hr : Render.appendAll parent nodes r = .ok () r') : Appended parent nodes r r' := by
  induction nodes generalizing r with
  | nil =>
    obtain ⟨_, rfl⟩ := Render.pure_ok hr
    exact ⟨rfl, .refl _ _, by rw [List.append_nil]; rfl, rfl, fun _ _ h => h⟩
  | cons child nodes ih =>
    obtain ⟨_, r₁, ha, hr⟩ := Render.bind_ok hr
    have hone := append_ok hp ha
    have hrest := ih (Nat.lt_of_lt_of_le hp hone.leaves.length_le) hr
    refine ⟨hrest.instances.trans hone.instances, hone.leaves.trans hrest.leaves, ?_,
      hrest.listeners.trans hone.listeners,
      fun base placed h => hrest.assembled base placed (hone.assembled base placed h)⟩
    rw [hrest.node, Document.children, hone.node]
    simp

/-- What was rendered for one node, and for those after it. -/
theorem Rendered.cons (h : Rendered reg d [n] [x] sites) (hrest : Rendered reg d ns xs inner) :
    Rendered reg d (n :: ns) (x :: xs) (sites ++ inner) := by
  cases h with
  | text kind rest =>
    cases rest
    exact .text kind hrest
  | nested registered kind rest =>
    cases rest
    exact .nested registered kind hrest
  | element unregistered kind content below inside rest =>
    cases rest
    simpa using Rendered.element unregistered kind content below inside hrest

/-- A text makes no sites. -/
private theorem added_text {content : String} (h : Assembled base r placed)
    (hr : Render.edit (.createText content) r = .ok x r') :
    Added reg base place none r placed [] r' ∧
      Within r.world.document.nodes.length r'.world.document
        (Rendered reg · [.text content] [x] (sitesAt [] place)) := by
  obtain ⟨d, hd, rfl⟩ := Render.edit_ok hr
  obtain ⟨hx, hlen⟩ := Document.length_of_create hd rfl
  refine ⟨.none (h.edit hd fun _ _ => rfl) rfl (.of_edit hd), fun d' hagree => .text ?_ .nil⟩
  have hlt : x < d.nodes.length := by
    rw [hx, hlen]
    exact Nat.lt_succ_self _
  rw [hagree x (Nat.le_of_eq hx.symm) hlt, Document.node_of_createText hd]

/-- An element made to be a container holds nothing until nodes are appended to it. -/
private theorem node_container (hcreate : Render.edit (.createElement tag) r = .ok x r₀)
    (hdocument : r₁.world.document = r₀.world.document)
    (hleaves : r₁.world.document.Leaves none r₂.world.document) (happended : Appended x ids r₂ r₃) :
    x = r.world.document.nodes.length ∧ x < r₁.world.document.nodes.length ∧
      x < r₃.world.document.nodes.length ∧
      r₃.world.document.node x = { kind := .element tag, children := ids } := by
  obtain ⟨d, hd, rfl⟩ := Render.edit_ok hcreate
  have hlt₁ : x < r₁.world.document.nodes.length := by
    rw [hdocument]
    exact Document.lt_length_of_create hd rfl
  refine ⟨(Document.length_of_create hd rfl).1, hlt₁, ?_, ?_⟩
  · exact Nat.lt_of_lt_of_le (Nat.lt_of_lt_of_le hlt₁ hleaves.length_le) happended.leaves.length_le
  · have h₂ : r₂.world.document.node x = { kind := .element tag } := by
      rw [hleaves.node x hlt₁ (by simp), hdocument]
      exact Document.node_of_createElement hd
    rw [happended.node, Document.children, h₂]
    rfl

section Container

variable {c : Component σ} (hcreate : Render.edit (.createElement tag) r = .ok x r₀)
  (hdocument : r₁.world.document = r₀.world.document)
  (hheads : r₁.heads = r₀.heads ++ [(c.selector, x)])
  (hadded : Added reg base r₀.instances.length none r₁ placed new r₂)
  (happended : Appended x ids r₂ r₃)

include hcreate hdocument

private theorem le_container : r.world.document.nodes.length ≤ r₁.world.document.nodes.length := by
  obtain ⟨d, hd, rfl⟩ := Render.edit_ok hcreate
  rw [hdocument]
  exact Document.length_le_of_edit hd

include hheads hadded happended

/-- The instance of a container is filled, and so are those made after it. -/
private theorem nested_container (hget : reg.get? tag = some c)
    (hrendered : Within r₀.world.document.nodes.length r₂.world.document
      (Rendered reg · c.template ids (sitesAt new r₀.instances.length)))
    {k : Nat} {selector : String} {container : NodeId} (hk : r₀.instances.length ≤ k)
    (hhead : r₃.heads[k]? = some (selector, container)) :
    r.world.document.nodes.length ≤ container ∧
      Within r.world.document.nodes.length r₃.world.document
        (Fills reg · selector container (sitesAt new k)) := by
  obtain ⟨hx, hlt₁, hlt₃, hnode⟩ := node_container hcreate hdocument hadded.leaves happended
  have hle := le_container hcreate hdocument
  have hbelow : ∀ y ∈ some x, y < r₁.world.document.nodes.length := by
    rintro _ ⟨⟩
    exact hlt₁
  have hhead₂ : r₂.heads[k]? = some (selector, container) := by
    rwa [Rendering.heads, happended.instances] at hhead
  rcases Nat.lt_or_ge k r₁.instances.length with hlt | hge
  · -- The instance of the container itself, whose sites are those of its template.
    obtain rfl : k = r₀.instances.length := by
      have hl := congrArg List.length hheads
      simp only [Rendering.heads, List.length_map, List.length_append, List.length_singleton] at hl
      omega
    have hself : (c.selector, x) = (selector, container) := by
      obtain ⟨later, hlater⟩ := hadded.heads
      rw [← hlater, hheads, List.append_assoc,
        List.getElem?_append_right (by simp [Rendering.heads])] at hhead₂
      simpa [Rendering.heads] using hhead₂
    cases hself
    refine ⟨Nat.le_of_eq hx.symm, fun d' hagree => ⟨c, Registry.get?_selector hget, ?_⟩⟩
    rw [Document.children, hagree x (Nat.le_of_eq hx.symm) hlt₃, hnode]
    refine (hrendered.mono (hdocument ▸ hle) happended.leaves ?_) d' hagree
    rwa [← hdocument]
  · obtain ⟨hcontainer, hfills⟩ := hadded.nested k selector container hge hhead₂
    exact ⟨Nat.le_trans hle hcontainer, hfills.mono hle happended.leaves hbelow⟩

end Container

/-- The instance in a container is complete when its nodes are appended to the container. -/
private theorem added_container {c : Component σ} (hplace : place < r.instances.length)
    (hget : reg.get? tag = some c) (hcreate : Render.edit (.createElement tag) r = .ok x r₀)
    (hdocument : r₁.world.document = r₀.world.document)
    (hheads : r₁.heads = r₀.heads ++ [(c.selector, x)])
    (hadded : Added reg base r₀.instances.length none r₁ placed new r₂)
    (hrendered : Within r₀.world.document.nodes.length r₂.world.document
      (Rendered reg · c.template ids (sitesAt new r₀.instances.length)))
    (happended : Appended x ids r₂ r₃) :
    Added reg base place none r placed new r₃ ∧
      Within r.world.document.nodes.length r₃.world.document
        (Rendered reg · [.element tag attributes children] [x] (sitesAt new place)) := by
  obtain ⟨hx, -, hlt₃, hnode⟩ := node_container hcreate hdocument hadded.leaves happended
  have hsame : r₀.heads = r.heads ∧ r₀.instances.length = r.instances.length := by
    obtain ⟨d, -, rfl⟩ := Render.edit_ok hcreate
    exact ⟨rfl, rfl⟩
  have hlater : ∀ p ∈ new, r.instances.length ≤ p.place := by
    have hgrown := length_le_of_heads ⟨_, hheads.symm⟩
    intro p hp
    rcases hadded.places p hp with heq | hge <;> omega
  constructor
  case left =>
    constructor
    case assembled => exact happended.assembled base _ hadded.assembled
    case heads =>
      have hfirst : r.heads <+: r₁.heads := ⟨[(c.selector, x)], by rw [hheads, hsame.1]⟩
      have hlast : r₃.heads = r₂.heads := congrArg (List.map _) happended.instances
      exact hfirst.trans (hlast ▸ hadded.heads)
    case leaves =>
      have hcreated : r.world.document.Leaves none r₁.world.document := by
        obtain ⟨d, hd, rfl⟩ := Render.edit_ok hcreate
        rw [hdocument]
        exact .of_edit hd
      exact (hcreated.trans hadded.leaves).close (Nat.le_of_eq hx.symm) happended.leaves
    case places => exact fun p hp => .inr (hlater p hp)
    case nested =>
      intro k selector container hk hhead
      exact nested_container hcreate hdocument hheads hadded happended hget hrendered
        (hsame.2 ▸ hk) hhead
  case right =>
    -- All sites belong to the new instance or to ones made after it.
    have hnone : sitesAt new place = [] :=
      sitesAt_eq_nil fun p hp => Nat.ne_of_gt (Nat.lt_of_lt_of_le hplace (hlater p hp))
    rw [hnone]
    refine fun d' hagree => .nested (by simp [Registry.contains, hget]) ?_ .nil
    rw [hagree x (Nat.le_of_eq hx.symm) hlt₃, hnode]

/-- A new element with its attributes carried out is a site. -/
private theorem assembled_element {c : Component σ} (h : Assembled base r placed)
    (hplace : place < r.instances.length) (hcreate : Render.edit (.createElement tag) r = .ok x r₀)
    (hbind : Render.bindAll c place (base + place) tag x attributes r₀ = .ok () r₁) :
    Assembled base r₁ (placed ++ [⟨place, ⟨x, tag, attributes⟩⟩]) ∧
      Bound x (setsContent attributes) r₀ r₁ := by
  obtain ⟨d, hd, rfl⟩ := Render.edit_ok hcreate
  have hsyncs : syncsAt (placed ++ [⟨place, ⟨x, tag, []⟩⟩]) = syncsAt placed := by
    funext k
    rw [syncsAt_append]
    by_cases hk : place = k <;> simp [syncsAt, sitesAt, hk, Site.syncs]
  have hnew : Assembled base { r with world := { r.world with document := d } }
      (placed ++ [⟨place, ⟨x, tag, []⟩⟩]) := by
    refine ⟨?_, h.displayed.create hd rfl tag, ?_⟩
    · rw [hsyncs]
      exact h.joined.document d
    · simpa [or_imp, forall_and, hplace] using h.place_lt
  exact assembled_bindAll hnew hbind

/-- The elements below an element come after it. -/
private theorem added_element (hplace : place < r.instances.length) (hget : reg.get? tag = none)
    (hcreate : Render.edit (.createElement tag) r = .ok x r₀)
    (hbound : Bound x (setsContent attributes) r₀ r₁)
    (hadded : Added reg base place (some x) r₁ (placed ++ [⟨place, ⟨x, tag, attributes⟩⟩]) new r₂)
    (hnode : r₂.world.document.node x =
      { r₁.world.document.node x with children := r₁.world.document.children x ++ ids })
    (hrendered : Within r₁.world.document.nodes.length r₂.world.document
      (Rendered reg · children ids (sitesAt new place))) :
    Added reg base place none r placed (⟨place, ⟨x, tag, attributes⟩⟩ :: new) r₂ ∧
      Within r.world.document.nodes.length r₂.world.document
        (Rendered reg · [.element tag attributes children] [x]
          (sitesAt (⟨place, ⟨x, tag, attributes⟩⟩ :: new) place)) := by
  obtain ⟨d, hd, rfl⟩ := Render.edit_ok hcreate
  obtain ⟨hx, hlen⟩ := Document.length_of_create hd rfl
  have hlt : x < r₁.world.document.nodes.length := by
    refine Nat.lt_of_lt_of_le ?_ hbound.leaves.length_le
    show x < d.nodes.length
    rw [hx, hlen]
    exact Nat.lt_succ_self _
  have hlt₂ : x < r₂.world.document.nodes.length := Nat.lt_of_lt_of_le hlt hadded.leaves.length_le
  have hle : r.world.document.nodes.length ≤ r₁.world.document.nodes.length :=
    hx ▸ Nat.le_of_lt hlt
  have hlength : r₁.instances.length = r.instances.length := by
    have hl := congrArg List.length hbound.heads
    simpa [Rendering.heads] using hl
  constructor
  case left =>
    constructor
    case assembled =>
      have hassembled := hadded.assembled
      rwa [List.append_assoc] at hassembled
    case heads =>
      have hheads : r₁.heads = r.heads := hbound.heads
      exact hheads ▸ hadded.heads
    case leaves =>
      exact (Document.Leaves.of_edit hd).close (Nat.le_of_eq hx.symm)
        (hbound.leaves.trans hadded.leaves)
    case places =>
      intro p hp
      rcases List.mem_cons.1 hp with rfl | hp
      · exact .inl rfl
      · rw [← hlength]
        exact hadded.places p hp
    case nested =>
      intro k selector container hk hhead
      rw [← hlength] at hk
      obtain ⟨hcontainer, hfills⟩ := hadded.nested k selector container hk hhead
      have hne : place ≠ k := by omega
      have hsites : sitesAt (⟨place, ⟨x, tag, attributes⟩⟩ :: new) k = sitesAt new k := by
        simp [sitesAt, hne]
      rw [hsites]
      exact ⟨Nat.le_trans hle hcontainer, hfills.mono hle (.refl _ none) (by simp)⟩
  case right =>
    have hsites : sitesAt (⟨place, ⟨x, tag, attributes⟩⟩ :: new) place =
        ⟨x, tag, attributes⟩ :: sitesAt new place ++ [] := by
      simp [sitesAt]
    have hcreated : d.node x = { kind := .element tag } := Document.node_of_createElement hd
    rw [hsites]
    intro d' hagree
    -- What agrees on the new nodes agrees on the element.
    have hsame : d'.node x = r₂.world.document.node x := hagree x (Nat.le_of_eq hx.symm) hlt₂
    have hkind : (d'.node x).kind = .element tag := by
      rw [hsame, hnode]
      show (r₁.world.document.node x).kind = _
      rw [hbound.kind]
      exact congrArg NodeData.kind hcreated
    have hcontent : (r₁.world.document.children x).length =
        if setsContent attributes then 1 else 0 := by
      rw [hbound.children]
      show (if setsContent attributes then 1 else (d.children x).length) = _
      rw [Document.children, hcreated]
      rfl
    have hbelow : d'.children x = r₁.world.document.children x ++ ids := by
      rw [Document.children, hsame, hnode]
    exact .element (by simp [Registry.contains, hget]) hkind hcontent hbelow
      (hrendered.mono hle (.refl _ none) (by simp) d' hagree) .nil

/-- A new instance has a state of its own. -/
private theorem assembled_instantiate {c : Component σ} (h : Assembled base r placed)
    (container : NodeId) {p : Nat × StateId} (hr : Render.instantiate c container r = .ok p r₁) :
    p = (r.instances.length, base + r.instances.length) ∧ Assembled base r₁ placed ∧
      r₁.world.document = r.world.document ∧ r₁.heads = r.heads ++ [(c.selector, container)] := by
  cases hr
  have hnew : sitesAt placed r.instances.length = [] :=
    sitesAt_eq_nil fun p hp => Nat.ne_of_lt (h.place_lt p hp)
  refine ⟨Prod.ext rfl h.joined.states, ⟨?_, ?_, ?_⟩, rfl, by simp [Rendering.heads]⟩
  · exact h.joined.instantiate c container (by simp [syncsAt, hnew])
  · refine h.displayed.of_eq rfl fun p hp => ?_
    have hlt : base + p.place < r.world.states.length := by
      rw [h.joined.states]
      exact Nat.add_lt_add_left (h.place_lt p hp) base
    simp [World.data, List.getElem?_append_left hlt]
  · intro p hp
    simpa using Nat.lt_succ_of_lt (h.place_lt p hp)

end Trees

/-! ## Whole renderings -/

theorem renderNode_nested {reg : Registry σ} {stack : List String}
    {c nested : Component σ} {place : Nat}
    {state : StateId} {tag : String} {attributes : List Markup.Attribute}
    {children : List Markup.Node}
    (hget : reg.get? tag = some nested) :
    reg.renderNode stack c place state (.element tag attributes children) = (do
      let container ← Render.edit (.createElement tag)
      let nodes ← reg.renderComponent stack nested (Registry.mem_of_get? hget) container
      Render.appendAll container nodes
      return container) := by
  rw [Registry.renderNode]
  split
  · next other hother =>
    obtain rfl : other = nested := Option.some.inj (hother.symm.trans hget)
    rfl
  · next hnone =>
    rw [hnone] at hget
    cases hget

theorem renderNode_element {reg : Registry σ} {stack : List String} {c : Component σ} {place : Nat}
    {state : StateId} {tag : String} {attributes : List Markup.Attribute}
    {children : List Markup.Node}
    (hget : reg.get? tag = none) :
    reg.renderNode stack c place state (.element tag attributes children) = (do
      let element ← Render.edit (.createElement tag)
      Render.bindAll c place state tag element attributes
      reg.renderChildren stack c place state element children
      return element) := by
  rw [Registry.renderNode]
  split
  · next other hother =>
    rw [hother] at hget
    cases hget
  · rfl

mutual

/-- Rendering a component makes an instance and renders its template for it. -/
theorem added_renderComponent {reg : Registry σ} {base : Nat} {r r' : Rendering σ}
    {placed : List Placed}
    {stack : List String} {c : Component σ} {hc : c ∈ reg.components} {container : NodeId}
    {ids : List NodeId} (h : Assembled base r placed)
    (hr : reg.renderComponent stack c hc container r = .ok ids r') :
    ∃ r₁ new, r₁.world.document = r.world.document ∧
    r₁.heads = r.heads ++ [(c.selector, container)] ∧
      Added reg base r.instances.length none r₁ placed new r' ∧
      Within r.world.document.nodes.length r'.world.document
        (Rendered reg · c.template ids (sitesAt new r.instances.length)) := by
  by_cases hs : stack.contains c.selector = true
  · rw [Registry.renderComponent, dif_pos hs] at hr
    cases hr
  · rw [Registry.renderComponent, dif_neg hs] at hr
    obtain ⟨p, r₁, hinst, hr⟩ := Render.bind_ok hr
    obtain ⟨rfl, hassembled, hdocument, hheads⟩ := assembled_instantiate h container hinst
    have hplace : r.instances.length < r₁.instances.length := by
      have hl := congrArg List.length hheads
      simp only [Rendering.heads, List.length_map, List.length_append, List.length_singleton] at hl
      omega
    obtain ⟨new, hadded, hrendered⟩ := added_renderNodes hassembled hplace hr
    rw [hdocument] at hrendered
    exact ⟨r₁, new, hdocument, hheads, hadded, hrendered⟩
termination_by (reg.unvisited stack, 0)
decreasing_by exact Prod.Lex.left _ _ (Registry.unvisited_cons_lt hc hs)

theorem added_renderNode {reg : Registry σ} {base place : Nat} {r r' : Rendering σ}
    {placed : List Placed}
    {stack : List String} {c : Component σ} {n : Markup.Node} {x : NodeId}
    (h : Assembled base r placed)
    (hplace : place < r.instances.length)
    (hr : reg.renderNode stack c place (base + place) n r = .ok x r') :
    ∃ new, Added reg base place none r placed new r' ∧
      Within r.world.document.nodes.length r'.world.document
        (Rendered reg · [n] [x] (sitesAt new place)) := by
  match n with
  | .text content =>
    rw [Registry.renderNode] at hr
    exact ⟨[], added_text h hr⟩
  | .element tag attributes children =>
    cases hget : reg.get? tag with
    | some nested =>
      rw [renderNode_nested hget] at hr
      obtain ⟨container, r₀, hcreate, hr⟩ := Render.bind_ok hr
      obtain ⟨ids, r₂, hcomponent, hr⟩ := Render.bind_ok hr
      obtain ⟨_, r₃, happend, hr⟩ := Render.bind_ok hr
      obtain ⟨rfl, rfl⟩ := Render.pure_ok hr
      obtain ⟨d, hd, hr₀⟩ := Render.edit_ok hcreate
      have hassembled : Assembled base r₀ placed := hr₀ ▸ h.edit hd fun _ _ => rfl
      obtain ⟨r₁, new, hdocument, hheads, hadded, hrendered⟩ :=
        added_renderComponent hassembled hcomponent
      have hlt : container < r₂.world.document.nodes.length := by
        refine Nat.lt_of_lt_of_le ?_ hadded.leaves.length_le
        rw [hdocument, hr₀]
        exact Document.lt_length_of_create hd rfl
      exact ⟨new, added_container hplace hget hcreate hdocument hheads hadded hrendered
        (appendAll_ok hlt happend)⟩
    | none =>
      rw [renderNode_element hget] at hr
      obtain ⟨element, r₀, hcreate, hr⟩ := Render.bind_ok hr
      obtain ⟨_, r₁, hbind, hr⟩ := Render.bind_ok hr
      obtain ⟨_, r₂, hchildren, hr⟩ := Render.bind_ok hr
      obtain ⟨rfl, rfl⟩ := Render.pure_ok hr
      obtain ⟨hassembled, hbound⟩ := assembled_element h hplace hcreate hbind
      have hplace₁ : place < r₁.instances.length :=
        hassembled.place_lt ⟨place, ⟨element, tag, attributes⟩⟩ (by simp)
      have hlt : element < r₁.world.document.nodes.length :=
        hassembled.displayed.node_lt ⟨place, ⟨element, tag, attributes⟩⟩ (by simp)
      obtain ⟨new, ids, hadded, hnode, hrendered⟩ :=
        added_renderChildren hassembled hplace₁ hlt hchildren
      exact ⟨_, added_element hplace hget hcreate hbound hadded hnode hrendered⟩
termination_by (reg.unvisited stack, sizeOf n)

theorem added_renderChildren {reg : Registry σ} {base place : Nat} {r r' : Rendering σ}
    {placed : List Placed} {stack : List String} {c : Component σ} {element : NodeId}
    {ns : List Markup.Node} (h : Assembled base r placed) (hplace : place < r.instances.length)
    (hlt : element < r.world.document.nodes.length)
    (hr : reg.renderChildren stack c place (base + place) element ns r = .ok () r') :
    ∃ new ids, Added reg base place (some element) r placed new r' ∧
      r'.world.document.node element = { r.world.document.node element with
        children := r.world.document.children element ++ ids } ∧
      Within r.world.document.nodes.length r'.world.document
        (Rendered reg · ns ids (sitesAt new place)) := by
  match ns with
  | [] =>
    rw [Registry.renderChildren] at hr
    obtain ⟨_, rfl⟩ := Render.pure_ok hr
    refine ⟨[], [], .none h rfl (.refl _ _), ?_, fun _ _ => .nil⟩
    rw [List.append_nil]
    rfl
  | n :: rest =>
    rw [Registry.renderChildren] at hr
    obtain ⟨child, r₁, hn, hr⟩ := Render.bind_ok hr
    obtain ⟨_, r₂, happend, hr⟩ := Render.bind_ok hr
    obtain ⟨new₁, hadded₁, hrendered₁⟩ := added_renderNode h hplace hn
    have hlt₁ := Nat.lt_of_lt_of_le hlt hadded₁.leaves.length_le
    have happended := append_ok hlt₁ happend
    have hassembled : Assembled base r₂ (placed ++ new₁) :=
      happended.assembled base _ hadded₁.assembled
    have hheads : r₂.heads = r₁.heads := congrArg (List.map _) happended.instances
    have hplace₂ : place < r₂.instances.length := by
      rw [happended.instances]
      exact Nat.lt_of_lt_of_le hplace (length_le_of_heads hadded₁.heads)
    have hlt₂ := Nat.lt_of_lt_of_le hlt₁ happended.leaves.length_le
    obtain ⟨new₂, ids, hadded₂, hnode, hrendered₂⟩ :=
      added_renderChildren hassembled hplace₂ hlt₂ hr
    have hbelow : ∀ y ∈ some element, y < r.world.document.nodes.length := by
      rintro _ ⟨⟩
      exact hlt
    -- Appending the child makes neither sites nor instances.
    have hadded : Added reg base place (some element) r placed new₁ r₂ := by
      have hmade := (hadded₁.weaken (some element)).trans
        (.none hassembled hheads happended.leaves) hplace hbelow
      rwa [List.append_nil] at hmade
    refine ⟨new₁ ++ new₂, child :: ids, hadded.trans hadded₂ hplace hbelow, ?_, fun d hagree => ?_⟩
    · -- Rendering the child left the element as it was.
      have hkept : r₁.world.document.node element = r.world.document.node element :=
        hadded₁.leaves.node element hlt (by simp)
      rw [hnode, Document.children, happended.node, Document.children, hkept]
      simp [Document.children]
    · rw [sitesAt_append]
      have hle : r.world.document.nodes.length ≤ r₂.world.document.nodes.length :=
        hadded.leaves.length_le
      refine .cons ?_ ?_
      · exact hrendered₁.mono (Nat.le_refl _)
          (happended.leaves.trans hadded₂.leaves) hbelow d hagree
      · exact hrendered₂.mono hle (.refl _ none) (by simp) d hagree
termination_by (reg.unvisited stack, sizeOf ns)

theorem added_renderNodes {reg : Registry σ} {base place : Nat} {r r' : Rendering σ}
    {placed : List Placed} {stack : List String} {c : Component σ} {ns : List Markup.Node}
    {ids : List NodeId} (h : Assembled base r placed) (hplace : place < r.instances.length)
    (hr : reg.renderNodes stack c place (base + place) ns r = .ok ids r') :
    ∃ new, Added reg base place none r placed new r' ∧
      Within r.world.document.nodes.length r'.world.document
        (Rendered reg · ns ids (sitesAt new place)) := by
  match ns with
  | [] =>
    rw [Registry.renderNodes] at hr
    obtain ⟨rfl, rfl⟩ := Render.pure_ok hr
    exact ⟨[], .none h rfl (.refl _ _), fun _ _ => .nil⟩
  | n :: rest =>
    rw [Registry.renderNodes] at hr
    obtain ⟨x, r₁, hn, hr⟩ := Render.bind_ok hr
    obtain ⟨xs, r₂, hrest, hr⟩ := Render.bind_ok hr
    obtain ⟨rfl, rfl⟩ := Render.pure_ok hr
    obtain ⟨new₁, hadded₁, hrendered₁⟩ := added_renderNode h hplace hn
    have hplace₁ := Nat.lt_of_lt_of_le hplace (length_le_of_heads hadded₁.heads)
    obtain ⟨new₂, hadded₂, hrendered₂⟩ := added_renderNodes hadded₁.assembled hplace₁ hrest
    refine ⟨new₁ ++ new₂, hadded₁.trans hadded₂ hplace (by simp), fun d hagree => ?_⟩
    rw [sitesAt_append]
    refine .cons ?_ ?_
    · exact hrendered₁.mono (Nat.le_refl _) hadded₂.leaves (by simp) d hagree
    · exact hrendered₂.mono hadded₁.leaves.length_le (.refl _ none) (by simp) d hagree
termination_by (reg.unvisited stack, sizeOf ns)

end

/-! ## Mounts -/

theorem renderRoot_registered {reg : Registry σ} {root : NodeId} {tag : String} {c : Component σ}
    (hget : reg.get? tag = some c) :
    World.renderRoot reg root tag = (do
      let nodes ← reg.renderComponent [] c (Registry.mem_of_get? hget) root
      Render.appendAll root nodes) := by
  unfold World.renderRoot
  split
  · next hnone =>
    rw [hnone] at hget
    cases hget
  · next other hother =>
    obtain rfl : other = c := Option.some.inj (hother.symm.trans hget)
    rfl

theorem renderRoot_unregistered {reg : Registry σ} {root : NodeId} {tag : String}
    (hget : reg.get? tag = none) : World.renderRoot reg root tag = throw (.unknownRoot tag) := by
  unfold World.renderRoot
  split
  · rfl
  · next other hother =>
    rw [hother] at hget
    cases hget

theorem renderRoot_ok {reg : Registry σ} {root : NodeId} {tag : String} {r r' : Rendering σ}
    (h : World.renderRoot reg root tag r = .ok () r') :
    ∃ c hc ids r₁, reg.get? tag = some c ∧
      reg.renderComponent [] c hc root r = .ok ids r₁ ∧ Render.appendAll root ids r₁ =
        .ok () r' := by
  obtain hget | ⟨c, hget⟩ := Option.eq_none_or_eq_some (reg.get? tag)
  · rw [renderRoot_unregistered hget] at h
    cases h
  · rw [renderRoot_registered hget] at h
    obtain ⟨ids, r₁, hcomponent, happend⟩ := Render.bind_ok h
    exact ⟨c, Registry.mem_of_get? hget, ids, r₁, hget, hcomponent, happend⟩

/-- A mount fails or succeeds as the rendering of its root does. -/
theorem mount_cases (w : World σ) (components : List (Component σ)) (root : NodeId) :
    let registered := Registry.empty.registerAll components w.log
    let tag := Text.lower (w.document.tag root)
    (∃ e r', World.renderRoot registered.1 root tag ⟨{ w with log := registered.2 }, []⟩ =
      .error e r' ∧ w.mount components root = (.error e, r'.world.releaseAll r'.instances)) ∨
    (∃ r', World.renderRoot registered.1 root tag ⟨{ w with log := registered.2 }, []⟩ = .ok () r' ∧
      w.mount components root = (.ok ⟨root, registered.1.selectors, r'.instances⟩,
        r'.world.write (World.mountedRecord tag r'.instances.length))) := by
  intro registered tag
  cases hr : World.renderRoot registered.1 root tag ⟨{ w with log := registered.2 }, []⟩ with
  | error e r' =>
    refine .inl ⟨e, r', rfl, ?_⟩
    simp only [World.mount, registered, tag] at hr ⊢
    rw [hr]
  | ok _ r' =>
    refine .inr ⟨r', rfl, ?_⟩
    simp only [World.mount, registered, tag] at hr ⊢
    rw [hr]

/-- A mount is over when its root is rendered. -/
theorem mount_of_renderRoot {w : World σ} {components : List (Component σ)} {root : NodeId}
    {tag : String} {r' : Rendering σ} (htag : Text.lower (w.document.tag root) = tag)
    (hrender : World.renderRoot (Registry.empty.registerAll components w.log).1 root tag
      ⟨{ w with log := (Registry.empty.registerAll components w.log).2 }, []⟩ = .ok () r') :
    w.mount components root =
      (.ok ⟨root, (Registry.empty.registerAll components w.log).1.selectors, r'.instances⟩,
        r'.world.write (World.mountedRecord tag r'.instances.length)) := by
  subst htag
  obtain ⟨e, r₁, hr, -⟩ | ⟨r₁, hr, hmount⟩ := mount_cases w components root
  · cases hrender.symm.trans hr
  · cases hrender.symm.trans hr
    exact hmount

theorem mount_ok {w w' : World σ} {components : List (Component σ)} {root : NodeId} {md : Module}
    (h : w.mount components root = (.ok md, w')) :
    ∃ log r', World.renderRoot (Registry.empty.registerAll components w.log).1 root
        (Text.lower (w.document.tag root)) ⟨{ w with log }, []⟩ = .ok () r' ∧
      md.instances = r'.instances ∧ ∃ entry, w' = r'.world.write entry := by
  obtain ⟨e, r', _, hmount⟩ | ⟨r', hr, hmount⟩ := mount_cases w components root
  · rw [hmount] at h
    cases h
  · rw [hmount] at h
    cases h
    exact ⟨_, r', hr, rfl, _, rfl⟩

/-- After a mount every instance has its sites: the container holds what was rendered for the
template behind what it held before, the subscribers are those that the sites ask for, and the
properties are in step. -/
theorem assembled_mount {w w' : World σ} {components : List (Component σ)}
    {root : NodeId} {md : Module}
    (hroot : root < w.document.nodes.length) (hmount : w.mount components root = (.ok md, w')) :
    ∃ placed, Assembled w.states.length ⟨w', md.instances⟩ placed ∧
      ∀ k i, md.instances[k]? = some i →
        ∃ c, (Registry.empty.registerAll components w.log).1.get? i.selector = some c ∧
          Rendered (Registry.empty.registerAll components w.log).1 w'.document c.template
            ((w'.document.children i.container).drop (w.document.children i.container).length)
            (sitesAt placed k) := by
  obtain ⟨log, r', hr, hinstances, entry, rfl⟩ := mount_ok hmount
  generalize (Registry.empty.registerAll components w.log).1 = reg at hr ⊢
  obtain ⟨c, hc, ids, r₂, hget, hcomponent, happend⟩ := renderRoot_ok hr
  have hstart : Assembled w.states.length (⟨{ w with log }, []⟩ : Rendering σ) [] :=
    ⟨⟨rfl, by simp, by simp⟩, ⟨by simp, by simp, by simp⟩, by simp⟩
  obtain ⟨r₁, new, hdocument, hheads, hadded, hrendered⟩ := added_renderComponent hstart hcomponent
  have hdocument₁ : r₁.world.document = w.document := hdocument
  have hlt₁ : root < r₁.world.document.nodes.length := hdocument₁ ▸ hroot
  have happended := appendAll_ok (Nat.lt_of_lt_of_le hlt₁ hadded.leaves.length_le) happend
  have hbelow : ∀ y ∈ some root, y < r₁.world.document.nodes.length := by
    rintro _ ⟨⟩
    exact hlt₁
  have hassembled : Assembled w.states.length r' new := happended.assembled _ _ hadded.assembled
  refine ⟨new, ⟨⟨?_, ?_, ?_⟩, hassembled.displayed.of_eq rfl fun _ _ => rfl, ?_⟩, ?_⟩
  · rw [hinstances]
    exact hassembled.joined.states
  · intro k hk
    rw [World.subject_write]
    exact hassembled.joined.subject k (hinstances ▸ hk)
  · rw [hinstances]
    exact hassembled.joined.instances
  · rw [hinstances]
    exact hassembled.place_lt
  · intro k i hi
    have hhead : r₂.heads[k]? = some (i.selector, i.container) := by
      rw [Rendering.heads, ← happended.instances, ← hinstances, List.getElem?_map, hi]
      rfl
    have hlength : r₁.instances.length = 1 := by
      have hl := congrArg List.length hheads
      simpa [Rendering.heads] using hl
    show ∃ c, reg.get? i.selector = some c ∧ Rendered reg r'.world.document c.template
      ((r'.world.document.children i.container).drop (w.document.children i.container).length)
      (sitesAt new k)
    rcases Nat.eq_zero_or_pos k with rfl | hpos
    · -- The root holds what it held before, and then the nodes of its instance.
      obtain ⟨hselector, hcontainer⟩ : c.selector = i.selector ∧ root = i.container := by
        obtain ⟨later, hlater⟩ := hadded.heads
        rw [← hlater, hheads] at hhead
        simpa [Rendering.heads] using hhead
      have hchildren : r'.world.document.children root = w.document.children root ++ ids := by
        have hkept := hadded.leaves.node root hlt₁ (by simp)
        rw [Document.children, happended.node, Document.children, hkept, hdocument₁]
        rfl
      rw [← hselector, ← hcontainer, hchildren, List.drop_left]
      refine ⟨c, Registry.get?_selector hget,
        (hrendered.mono (Nat.le_refl _) happended.leaves ?_).self⟩
      exact hdocument₁ ▸ hbelow
    · obtain ⟨hcontainer, hfills⟩ := hadded.nested k i.selector i.container (by omega) hhead
      have hold : w.document.children i.container = [] := by
        rw [Document.children, Document.node_of_length_le (hdocument₁ ▸ hcontainer)]
      rw [hold]
      exact (hfills.mono (Nat.le_refl _) happended.leaves hbelow).self

end ReactiveMarkup
