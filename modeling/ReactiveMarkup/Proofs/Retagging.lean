-- SUMMARY: Writing tags with other letter case changes nothing but the tags in the result.
import Mathlib.Data.List.GetD
import ReactiveMarkup.Proofs.RenderMoves
import ReactiveMarkup.Proofs.Selection

/-!
# Tags with other letters

Rendering looks at the letters of a tag, and not at their case: to select a component, to tell an
input, and to see whether the tag is a name at all. So when the tags of templates and document are
written in another way, the same happens as before, but for the tags of the elements made and of the
errors. `Render.Recasts` says so of a part of a rendering, and `recasts_renderComponent` proves it
along the recursion over components and templates. The log plays no part in a rendering, and is left
out of the comparison. `mount_by_selectors` is what follows for mounts.
-/

namespace ReactiveMarkup

variable {σ : Type}

/-! ## Letters -/

/-- What is written keeps its letters. -/
def Text.KeepsLetters (f : String → String) : Prop := ∀ tag, Text.lower (f tag) = Text.lower tag

/-- Texts with the same letters compare alike. -/
theorem Text.sameLetters_congr {s s' t t' : String} (hs : Text.lower s = Text.lower s')
    (ht : Text.lower t = Text.lower t') : Text.sameLetters s t = Text.sameLetters s' t' := by
  rw [Bool.eq_iff_iff, Text.sameLetters_iff, Text.sameLetters_iff, hs, ht]

/-- A capital becomes another letter, and every other character stays as it is. -/
theorem Text.toLower_cases (c : Char) :
    c.toLower = c ∨ isAlphabetic c = true ∧ isAlphabetic c.toLower = true := by
  by_cases h : 65 ≤ c.toNat ∧ c.toNat ≤ 90
  · have hletters : ∀ n < 26, isAlphabetic (Char.ofNat (65 + n)) = true ∧
        isAlphabetic (Char.ofNat (65 + n)).toLower = true := by decide
    have hc : Char.ofNat (65 + (c.toNat - 65)) = c := by
      rw [Nat.add_sub_cancel' h.1, Char.ofNat_toNat]
    exact .inr (hc ▸ hletters (c.toNat - 65) (by omega))
  · refine .inl (dif_neg fun hcapital => h ?_)
    have hfirst : 'A'.val.toNat ≤ c.val.toNat := UInt32.le_iff_toNat_le.1 hcapital.1
    have hlast : c.val.toNat ≤ 'Z'.val.toNat := UInt32.le_iff_toNat_le.1 hcapital.2
    exact ⟨hfirst, hlast⟩

/-- Whether a tag is a name depends on its letters. -/
theorem Document.isValidName_lower (tag : String) : isValidName
    (Text.lower tag) = isValidName tag := by
  have hstart (c : Char) :
      (Text.isAlphabetic c.toLower || c.toLower == '_') = (Text.isAlphabetic c || c == '_') := by
    rcases Text.toLower_cases c with hc | ⟨hc, hlower⟩
    · rw [hc]
    · rw [hc, hlower]
      rfl
  have hnext (c : Char) :
      (Text.isAlphabetic c.toLower || Text.isNumeric c.toLower || c.toLower == '-'
        || c.toLower == '_' || c.toLower == '.' || c.toLower == ':') =
        (Text.isAlphabetic c || Text.isNumeric c || c == '-' || c == '_' || c == '.'
          || c == ':') := by
    rcases Text.toLower_cases c with hc | ⟨hc, hlower⟩
    · rw [hc]
    · rw [hc, hlower]
      simp only [Bool.true_or]
  simp only [isValidName, Text.lower, String.toList_ofList]
  cases tag.toList with
  | nil => rfl
  | cons c cs => simp only [List.map_cons, List.all_map, Function.comp_def, hstart, hnext]

theorem Text.KeepsLetters.isValidName {f : String → String} (hf : Text.KeepsLetters f)
    (tag : String) : Document.isValidName (f tag) = Document.isValidName tag := by
  rw [← Document.isValidName_lower, hf, Document.isValidName_lower]

/-! ## Writing tags in another way -/

mutual

/-- The node with its tags written in another way. -/
def Markup.Node.retag (f : String → String) : Markup.Node → Markup.Node
  | .element tag attributes children => .element (f tag) attributes (Markup.retagAll f children)
  | .text content => .text content

/-- The nodes with their tags written in another way. -/
def Markup.retagAll (f : String → String) : List Markup.Node → List Markup.Node
  | [] => []
  | n :: ns => n.retag f :: Markup.retagAll f ns

end

/-- The component with the tags of its template written in another way. -/
def Component.retag (f : String → String) (c : Component σ) : Component σ :=
  { c with template := Markup.retagAll f c.template }

/-- The kind of a node, with the tag written in another way. -/
def NodeKind.retag (f : String → String) : NodeKind → NodeKind
  | .element tag => .element (f tag)
  | .text content => .text content

/-- A node of a document, with the tag written in another way. -/
def NodeData.retag (f : String → String) (n : NodeData) : NodeData :=
  { n with kind := n.kind.retag f }

/-- The document with the tags of its elements written in another way. -/
def Document.retag (f : String → String) (d : Document) : Document :=
  { d with nodes := d.nodes.map (·.retag f) }

/-- The edit with the tag written in another way. -/
def Edit.retag (f : String → String) : Edit → Edit
  | .mountPoint tag => .mountPoint (f tag)
  | .createElement tag => .createElement (f tag)
  | e => e

/-- The refusal with the tag written in another way. -/
def HostError.retag (f : String → String) : HostError → HostError
  | .invalidName tag => .invalidName (f tag)
  | e => e

/-- The error with the tag of an element written in another way. Selectors, and the tag of a root
that is not registered, are in lower case however they were written. -/
def Error.retag (f : String → String) : Error → Error
  | .modelOnNonInput tag => .modelOnNonInput (f tag)
  | .host e => .host (e.retag f)
  | e => e

/-- The world without its log. -/
def World.unlogged (w : World σ) : World σ := { w with log := [] }

/-- The world without its log, and with the tags of its document written in another way. -/
def World.recast (f : String → String) (w : World σ) : World σ :=
  { w with log := [], document := w.document.retag f }

/-- The rendering in the world that is recast. -/
def Rendering.recast (f : String → String) (r : Rendering σ) : Rendering σ :=
  { r with world := r.world.recast f }

/-! ## Edits -/

namespace Document

variable {f : String → String} {d : Document} {x : NodeId}

theorem node_retag (d : Document) (x : NodeId) : (d.retag f).node x = (d.node x).retag f :=
  List.getD_map d.nodes { kind := .text "" } (NodeData.retag f)

private theorem isText_retag : (d.retag f).isText x = d.isText x := by
  simp only [isText, node_retag, NodeData.retag]
  cases (d.node x).kind <;> rfl

/-- The tag of a text stays as it is. -/
theorem lower_tag_retag (hf : Text.KeepsLetters f) : Text.lower ((d.retag f).tag x) = Text.lower
    (d.tag x) := by
  simp only [tag, node_retag, NodeData.retag]
  cases (d.node x).kind with
  | element tag => exact hf tag
  | text content => rfl

theorem add_retag (kind : NodeKind) :
    (d.retag f).add (kind.retag f) = ((d.add kind).1, (d.add kind).2.retag f) := by
  simp [add, retag, NodeData.retag]

/-- What is changed of a node is not its tag. -/
theorem modify_retag {g : NodeData → NodeData} (hg : ∀ n, g (n.retag f) = (g n).retag f) :
    (d.retag f).modify x g = (d.modify x g).retag f := by
  have hnodes : (d.nodes.map (·.retag f)).modify x g = (d.nodes.modify x g).map (·.retag f) :=
    (map_modify (fun n => (hg n).symm) d.nodes x).symm
  rw [modify, retag, hnodes]
  rfl

private theorem setProperty_retag (name : String) (v : Value) :
    (d.retag f).setProperty x name v = (d.setProperty x name v).retag f := by
  unfold setProperty
  split
  · have hadd : (d.count.retag f).add (.text v.text) =
        ((d.count.add (.text v.text)).1, (d.count.add (.text v.text)).2.retag f) :=
          add_retag (.text v.text)
    show ((d.count.retag f).add (.text v.text)).2.modify x
      (fun n => { n with children := [((d.count.retag f).add (.text v.text)).1] }) = _
    rw [hadd]
    exact @modify_retag f _ x _ fun _ => rfl
  · exact @modify_retag f d.count x _ fun _ => rfl

/-- Edits with other tags make the document with other tags, or are refused for the same reason. -/
private theorem edit_retag (hf : Text.KeepsLetters f) (d : Document) (e : Edit) :
    (d.retag f).edit (e.retag f) =
      ((d.edit e).map fun (x, d') => (x, d'.retag f)).mapError (·.retag f) := by
  cases e with
  | mountPoint tag => exact congrArg Except.ok (add_retag (.element tag))
  | createElement tag =>
    simp only [edit, Edit.retag, hf.isValidName]
    split
    · exact congrArg Except.ok (@add_retag f d.count (.element tag))
    · rfl
  | createText content => exact congrArg Except.ok (@add_retag f d.count (.text content))
  | append parent child =>
    simp only [edit, Edit.retag, isText_retag]
    split
    · rfl
    · split
      · rfl
      · exact congrArg (fun d => Except.ok (parent, d))
          (@modify_retag f d.count parent _ fun _ => rfl)
  | setProperty y name v => exact congrArg (fun d => Except.ok (y, d)) (setProperty_retag name v)
  | setValue y text =>
    exact congrArg (fun d => Except.ok (y, d)) (@modify_retag f d y _ fun _ => rfl)

end Document

/-! ## Parts of a rendering -/

namespace Render

variable {α β : Type}

/-- The end of a part of a rendering, recast. -/
def recastResult (f : String → String) :
    EStateM.Result Error (Rendering σ) α → EStateM.Result Error (Rendering σ) α
  | .ok a r => .ok a (r.recast f)
  | .error e r => .error (e.retag f) (r.recast f)

/-- In the world recast, the second part does what the first does. -/
def Recasts (f : String → String) (x y : Render σ α) : Prop :=
  ∀ r, y (r.recast f) = recastResult f (x r)

namespace Recasts

variable {f : String → String}

theorem pure (a : α) : Recasts f (Pure.pure a : Render σ α) (Pure.pure a) := fun _ => rfl

theorem throw (e : Error) : Recasts f (MonadExcept.throw e : Render σ α)
    (MonadExcept.throw (e.retag f)) :=
  fun _ => rfl

theorem bind {x x' : Render σ α} {y y' : α → Render σ β} (hx : Recasts f x x')
    (hy : ∀ a, Recasts f (y a) (y' a)) : Recasts f (x >>= y) (x' >>= y') := by
  intro r
  have hr := hx r
  cases h : x r with
  | ok a r' =>
    rw [h] at hr
    rw [bind_of_ok h, bind_of_ok hr]
    exact hy a r'
  | error e r' =>
    rw [h] at hr
    rw [bind_of_error h, bind_of_error hr]
    rfl

private theorem get_bind {y y' : Rendering σ → Render σ β}
    (hy : ∀ r, Recasts f (y r) (y' (r.recast f))) :
    Recasts f (get >>= y) (get >>= y') := fun r => hy r r

theorem edit (hf : Text.KeepsLetters f) (e : Edit) :
    Recasts f (Render.edit e : Render σ NodeId) (Render.edit (e.retag f)) := by
  intro r
  simp only [Render.edit, World.edit, Rendering.recast, World.recast, Document.edit_retag hf]
  cases r.world.document.edit e <;> rfl

theorem instantiate (c : Component σ) (container : NodeId) :
    Recasts f (Render.instantiate c container) (Render.instantiate (c.retag f) container) :=
      fun _ => rfl

theorem subscribe (place : Nat) (state : StateId) (callback : Option Notice → Script σ) :
    Recasts f (Render.subscribe place state callback) (Render.subscribe place state callback) :=
      fun _ => rfl

theorem listen (place : Nat) (state : StateId) (node : NodeId) (event : String)
    (callback : Script σ) :
    Recasts f (Render.listen place state node event callback)
      (Render.listen place state node event callback) :=
  fun _ => rfl

theorem sync (hf : Text.KeepsLetters f) (place : Nat) (state : StateId) (element : NodeId)
    (property : String)
    (path : Path) : Recasts f (Render.sync place state element property path : Render σ Unit)
      (Render.sync place state element property path) := by
  refine get_bind fun r => ?_
  have hdata : (r.recast f).world.data state = r.world.data state := rfl
  rw [hdata]
  cases path.get (r.world.data state) with
  | error e => exact throw (.path e)
  | ok v => exact (edit hf (.setProperty element property v)).bind fun _ => subscribe place state _

theorem bindAttribute (hf : Text.KeepsLetters f) (c : Component σ) (place : Nat) (state : StateId)
    (tag : String)
    (element : NodeId) (b : Binding) : Recasts f (Render.bindAttribute c place state tag element b)
      (Render.bindAttribute (c.retag f) place state (f tag) element b) := by
  cases b with
  | listen event method =>
    have hmethod : (c.retag f).method? method = c.method? method := rfl
    rw [Render.bindAttribute, Render.bindAttribute, hmethod]
    cases c.method? method with
    | none => exact throw (.unknownMethod c.selector method)
    | some script => exact listen place state element event _
  | model path =>
    have htag : Text.sameLetters (f tag) "input" = Text.sameLetters tag "input" :=
      Text.sameLetters_congr (hf tag) rfl
    rw [Render.bindAttribute, Render.bindAttribute, htag]
    split
    · exact (sync hf place state element "value" path).bind fun _ =>
        listen place state element "input" _
    · exact throw (.modelOnNonInput tag)
  | property property path => exact sync hf place state element property path
  | fixed property value =>
    exact (edit hf (.setProperty element property (.string value))).bind fun _ => pure ()

theorem bindAll (hf : Text.KeepsLetters f) (c : Component σ) (place : Nat) (state : StateId)
    (tag : String) (element : NodeId) (attributes : List Markup.Attribute) :
    Recasts f (Render.bindAll c place state tag element attributes)
      (Render.bindAll (c.retag f) place state (f tag) element attributes) := by
  induction attributes with
  | nil => exact pure ()
  | cons a rest ih => exact (bindAttribute hf c place state tag element _).bind fun _ => ih

theorem appendAll (hf : Text.KeepsLetters f) (parent : NodeId) (children : List NodeId) :
    Recasts f (Render.appendAll parent children : Render σ Unit)
      (Render.appendAll parent children) := by
  induction children with
  | nil => exact pure ()
  | cons child rest ih => exact (edit hf (.append parent child)).bind fun _ => ih

end Recasts

end Render

/-! ## Whole renderings -/

/-- In the second registry a tag selects what the first has for the tag as it was written before. -/
def Registry.SelectsAs (f : String → String) (reg reg' : Registry σ) : Prop :=
  ∀ tag, reg'.get? (f tag) = (reg.get? tag).map (·.retag f)

section Renderings

open Render

variable {f : String → String} {reg reg' : Registry σ}

mutual

theorem recasts_renderComponent (hf : Text.KeepsLetters f) (hreg : reg.SelectsAs f reg')
    {stack : List String}
    {c : Component σ} (hc : c ∈ reg.components) (hc' : c.retag f ∈ reg'.components)
    (container : NodeId) :
    Recasts f (reg.renderComponent stack c hc container)
      (reg'.renderComponent stack (c.retag f) hc' container) := by
  rw [Registry.renderComponent, Registry.renderComponent]
  by_cases hs : stack.contains c.selector = true
  · have hs' : stack.contains (c.retag f).selector = true := hs
    rw [dif_pos hs, dif_pos hs']
    exact .throw (.recursive c.selector)
  · have hs' : ¬ stack.contains (c.retag f).selector = true := hs
    rw [dif_neg hs, dif_neg hs']
    exact (Recasts.instantiate c container).bind fun (place, state) =>
      recasts_renderNodes hf hreg c place state c.template
termination_by (reg.unvisited stack, 0)
decreasing_by exact Prod.Lex.left _ _ (Registry.unvisited_cons_lt hc hs)

theorem recasts_renderNode (hf : Text.KeepsLetters f) (hreg : reg.SelectsAs f reg')
    {stack : List String} (c : Component σ) (place : Nat) (state : StateId) (n : Markup.Node) :
    Recasts f (reg.renderNode stack c place state n)
      (reg'.renderNode stack (c.retag f) place state (n.retag f)) := by
  match n with
  | .text content =>
    rw [Markup.Node.retag, Registry.renderNode, Registry.renderNode]
    exact .edit hf (.createText content)
  | .element tag attributes children =>
    have hget' := hreg tag
    rw [Markup.Node.retag]
    cases hget : reg.get? tag with
    | some nested =>
      rw [hget] at hget'
      rw [renderNode_nested hget, renderNode_nested hget']
      refine (Recasts.edit hf (.createElement tag)).bind fun container => ?_
      refine (recasts_renderComponent hf hreg _ _ container).bind fun nodes => ?_
      exact (Recasts.appendAll hf container nodes).bind fun _ => .pure container
    | none =>
      rw [hget] at hget'
      rw [renderNode_element hget, renderNode_element hget']
      refine (Recasts.edit hf (.createElement tag)).bind fun element => ?_
      refine (Recasts.bindAll hf c place state tag element attributes).bind fun _ => ?_
      exact (recasts_renderChildren hf hreg c place state element children).bind fun _ =>
        .pure element
termination_by (reg.unvisited stack, sizeOf n)

theorem recasts_renderChildren (hf : Text.KeepsLetters f) (hreg : reg.SelectsAs f reg')
    {stack : List String}
    (c : Component σ) (place : Nat) (state : StateId) (element : NodeId) (ns : List Markup.Node) :
    Recasts f (reg.renderChildren stack c place state element ns)
      (reg'.renderChildren stack (c.retag f) place state element (Markup.retagAll f ns)) := by
  match ns with
  | [] =>
    rw [Markup.retagAll, Registry.renderChildren, Registry.renderChildren]
    exact .pure ()
  | n :: rest =>
    rw [Markup.retagAll, Registry.renderChildren, Registry.renderChildren]
    refine (recasts_renderNode hf hreg c place state n).bind fun child => ?_
    refine (Recasts.edit hf (.append element child)).bind fun _ => ?_
    exact recasts_renderChildren hf hreg c place state element rest
termination_by (reg.unvisited stack, sizeOf ns)

theorem recasts_renderNodes (hf : Text.KeepsLetters f) (hreg : reg.SelectsAs f reg')
    {stack : List String}
    (c : Component σ) (place : Nat) (state : StateId) (ns : List Markup.Node) :
    Recasts f (reg.renderNodes stack c place state ns)
      (reg'.renderNodes stack (c.retag f) place state (Markup.retagAll f ns)) := by
  match ns with
  | [] =>
    rw [Markup.retagAll, Registry.renderNodes, Registry.renderNodes]
    exact .pure []
  | n :: rest =>
    rw [Markup.retagAll, Registry.renderNodes, Registry.renderNodes]
    refine (recasts_renderNode hf hreg c place state n).bind fun node => ?_
    refine (recasts_renderNodes hf hreg c place state rest).bind fun nodes => ?_
    exact .pure (node :: nodes)
termination_by (reg.unvisited stack, sizeOf ns)

end

theorem recasts_renderRoot (hf : Text.KeepsLetters f) (hreg : reg.SelectsAs f reg') (root : NodeId)
    (tag : String) :
    Recasts f (World.renderRoot reg root tag) (World.renderRoot reg' root tag) := by
  have hget' : reg'.get? tag = (reg.get? tag).map (·.retag f) := by
    rw [← hreg tag, Registry.get?, Registry.get?, hf]
  cases hget : reg.get? tag with
  | none =>
    rw [hget] at hget'
    rw [renderRoot_unregistered hget, renderRoot_unregistered hget']
    exact .throw (.unknownRoot tag)
  | some c =>
    rw [hget] at hget'
    rw [renderRoot_registered hget, renderRoot_registered hget']
    refine (recasts_renderComponent hf hreg _ _ root).bind fun nodes => ?_
    exact .appendAll hf root nodes

end Renderings

/-! ## Mounts -/

section Mounts

variable {f : String → String} {w w₁ w₂ : World σ} {cs cs₁ cs₂ : List (Component σ)}
  {reg : Registry σ}

private theorem releaseInstance_recast (w : World σ) (i : Instance) :
    (w.recast f).releaseInstance i = (w.releaseInstance i).recast f := by
  have hsubscriptions :
      i.subscriptions.foldl (fun w id => w.unsubscribe (.state i.state) id) (w.recast f) =
      (i.subscriptions.foldl (fun w id => w.unsubscribe (.state i.state) id) w).recast f :=
    List.foldl_hom (World.recast f) fun _ _ => rfl
  have hlisteners (w : World σ) : i.listeners.foldl World.unlisten (w.recast f) =
      (i.listeners.foldl World.unlisten w).recast f :=
        List.foldl_hom (World.recast f) fun _ _ => rfl
  rw [World.releaseInstance, hsubscriptions, hlisteners]
  rfl

theorem releaseAll_recast (w : World σ) (instances : List Instance) :
    (w.recast f).releaseAll instances = (w.releaseAll instances).recast f :=
  List.foldl_hom (World.recast f) releaseInstance_recast

/-- What a mount makes of the end of the rendering of its root. -/
def World.ended (root : NodeId) (selectors : List String) (tag : String) :
    EStateM.Result Error (Rendering σ) Unit → Except Error Module × World σ
  | .error e r => (.error e, r.world.releaseAll r.instances)
  | .ok () r =>
    (.ok ⟨root, selectors, r.instances⟩, r.world.write (mountedRecord tag r.instances.length))

theorem mount_eq_ended (w : World σ) (cs : List (Component σ)) (root : NodeId) :
    w.mount cs root = World.ended root (Registry.empty.registerAll cs w.log).1.selectors
      (Text.lower (w.document.tag root))
        (World.renderRoot (Registry.empty.registerAll cs w.log).1 root
        (Text.lower (w.document.tag root))
          ⟨{ w with log := (Registry.empty.registerAll cs w.log).2 }, []⟩) := by
  simp only [World.mount]
  split <;> simp only [World.ended, *]

/-- The errors are recast alike, or the modules have the same root and instances. The selectors are
those given. -/
inductive EndsAlike (f : String → String) (selectors selectors' : List String) :
    Except Error Module → Except Error Module → Prop
  | error {e e' : Error} (h : e.retag f = e'.retag f) : EndsAlike f selectors selectors'
      (.error e) (.error e')
  | ok (root : NodeId) (instances : List Instance) :
    EndsAlike f selectors selectors' (.ok ⟨root, selectors, instances⟩)
      (.ok ⟨root, selectors', instances⟩)

/-- Renderings that are recast alike end mounts alike. -/
private theorem endsAlike_of_recastResult {x y : EStateM.Result Error (Rendering σ) Unit}
    (h : Render.recastResult f x = Render.recastResult f y) (root : NodeId)
    (selectors selectors' : List String)
    (tag : String) :
    EndsAlike f selectors selectors' (World.ended root selectors tag x).1
      (World.ended root selectors' tag y).1 ∧
      (World.ended root selectors tag x).2.recast f =
        (World.ended root selectors' tag y).2.recast f := by
  cases x with
  | ok _ r =>
    cases y with
    | ok _ r' =>
      have hr : r.recast f = r'.recast f := (EStateM.Result.ok.inj h).2
      have hinstances : r.instances = r'.instances := (congrArg Rendering.instances hr :)
      simp only [World.ended, hinstances]
      exact ⟨.ok root _, congrArg Rendering.world hr⟩
    | error => cases h
  | error e r =>
    cases y with
    | ok => cases h
    | error e' r' =>
      obtain ⟨he, hr⟩ := EStateM.Result.error.inj h
      have hinstances : r.instances = r'.instances := (congrArg Rendering.instances hr :)
      have hworld : r.world.recast f = r'.world.recast f := (congrArg Rendering.world hr :)
      simp only [World.ended, hinstances]
      exact ⟨.error he, by rw [← releaseAll_recast, hworld, releaseAll_recast]⟩

/-- Mounts in worlds that are recast alike end alike when the tags select components that are recast
alike. -/
private theorem mount_recast (hf : Text.KeepsLetters f)
    (h₁ : (Registry.empty.registerAll cs₁ w₁.log).1.SelectsAs f reg)
    (h₂ : (Registry.empty.registerAll cs₂ w₂.log).1.SelectsAs f reg)
    (hw : w₁.recast f = w₂.recast f)
    (root : NodeId) :
    EndsAlike f (Registry.empty.registerAll cs₁ w₁.log).1.selectors
        (Registry.empty.registerAll cs₂ w₂.log).1.selectors (w₁.mount cs₁ root).1
          (w₂.mount cs₂ root).1 ∧
      (w₁.mount cs₁ root).2.recast f = (w₂.mount cs₂ root).2.recast f := by
  have htag : Text.lower (w₁.document.tag root) = Text.lower (w₂.document.tag root) := by
    have hdocument : w₁.document.retag f = w₂.document.retag f := congrArg World.document hw
    rw [← Document.lower_tag_retag hf, hdocument, Document.lower_tag_retag hf]
  have hstart :
      Rendering.recast f ⟨{ w₁ with log := (Registry.empty.registerAll cs₁ w₁.log).2 }, []⟩ =
      Rendering.recast f ⟨{ w₂ with log := (Registry.empty.registerAll cs₂ w₂.log).2 }, []⟩ :=
    congrArg (Rendering.mk · []) hw
  rw [mount_eq_ended, mount_eq_ended, htag]
  apply endsAlike_of_recastResult
  -- Both renderings are recast as the one with the tags and the registry that they have in common.
  rw [← recasts_renderRoot hf h₁, ← recasts_renderRoot hf h₂, hstart]

end Mounts

/-! ## Registrations and tags -/

section Registrations

variable {f : String → String} {cs cs' ks : List (Component σ)} {w w' : World σ}

theorem selectsAs_registerAll (hf : Text.KeepsLetters f) (cs : List (Component σ))
    (log log' : Log) : (Registry.empty.registerAll cs log).1.SelectsAs f
      (Registry.empty.registerAll (cs.map (·.retag f)) log').1 := by
  intro tag
  have hletters :
      ((fun c => Text.sameLetters c.selector (f tag)) ∘ fun c : Component σ => c.retag f) =
      fun c => Text.sameLetters c.selector tag :=
        funext fun c => Text.sameLetters_congr rfl (hf tag)
  rw [Registry.get?_registerAll, Registry.get?_registerAll, ← List.map_reverse,
    List.find?_map, hletters]

private theorem lastOfEach_retag (f : String → String) (cs : List (Component σ)) :
    lastOfEach (cs.map (·.retag f)) = (lastOfEach cs).map (·.retag f) := by
  induction cs with
  | nil => rfl
  | cons c cs ih =>
    have hany :
        (cs.map (·.retag f)).any (fun d => Text.sameLetters d.selector (c.retag f).selector) =
        cs.any fun d => Text.sameLetters d.selector c.selector := by
      rw [List.any_map]
      rfl
    rw [List.map_cons, lastOfEach, hany, lastOfEach, ih]
    split <;> rfl

/-- Which selectors are registered does not depend on the templates. -/
theorem selectors_registerAll (f : String → String) (cs : List (Component σ)) (log : Log) :
    (Registry.empty.registerAll cs log).1.selectors =
      (lastOfEach (cs.map (·.retag f))).map (·.selector) := by
  rw [Registry.selectors, Registry.components_registerAll_empty, lastOfEach_retag, List.map_map]
  rfl

theorem Error.retag_id (e : Error) : e.retag id = e := by
  cases e with
  | host e => cases e <;> rfl
  | _ => rfl

theorem World.recast_id (w : World σ) : w.recast id = w.unlogged := by
  have hnode (n : NodeData) : n.retag id = n := by
    obtain ⟨kind, properties, children⟩ := n
    cases kind <;> rfl
  have hdocument : w.document.retag id = w.document := by
    rw [Document.retag, List.map_congr_left fun n _ => hnode n, List.map_id']
  rw [recast, hdocument, unlogged]

/-- The same error, or modules with the same root and instances. The selectors may come in another
order. -/
inductive SameOutcome : Except Error Module → Except Error Module → Prop
  | error (e : Error) : SameOutcome (.error e) (.error e)
  | ok {m m' : Module} (root : m.root = m'.root) (selectors : m.selectors.Perm m'.selectors)
    (instances : m.instances = m'.instances) : SameOutcome (.ok m) (.ok m')

/-- A mount depends on the last registration of each selector alone, in whatever order. Tags count
by their letters: when the tags of templates and document are written with other capitals, the
outcome is the same but for the way in which tags of elements are written. -/
theorem mount_by_selectors (hks : ks.Perm (lastOfEach cs))
    (hcs : cs.map (·.retag Text.lower) = cs'.map (·.retag Text.lower))
    (hw : w.recast Text.lower = w'.recast Text.lower) (root : NodeId) :
    (SameOutcome (w.mount ks root).1 (w.mount cs root).1 ∧
        (w.mount ks root).2.unlogged = (w.mount cs root).2.unlogged) ∧
      ((w'.mount cs' root).1.mapError (·.retag Text.lower) =
        (w.mount cs root).1.mapError (·.retag Text.lower) ∧
        (w'.mount cs' root).2.recast Text.lower = (w.mount cs root).2.recast Text.lower) ∧
      ∀ tag tag', Text.sameLetters tag tag' = true →
        (Registry.empty.registerAll cs w.log).1.get? tag =
            cs.reverse.find? (fun c => Text.sameLetters c.selector tag') ∧
          (Registry.empty.registerAll ks w.log).1.get? tag =
            cs.reverse.find? (fun c => Text.sameLetters c.selector tag') := by
  have hlower : Text.KeepsLetters Text.lower := Text.lower_lower
  have hperm := Registry.components_registerAll_perm hks w.log w.log
  refine ⟨?_, ?_, fun tag tag' htag => ?_⟩
  · have hselects := selectsAs_registerAll (f := id) (fun _ => rfl) cs w.log []
    obtain ⟨hends, hworld⟩ := mount_recast (f := id) (fun _ => rfl)
      (fun tag => by rw [hselects tag, Registry.get?_perm hperm]) hselects
        (Eq.refl (w.recast id)) root
    rw [World.recast_id, World.recast_id] at hworld
    refine ⟨?_, hworld⟩
    generalize (w.mount ks root).1 = outcome at hends
    generalize (w.mount cs root).1 = outcome' at hends
    cases hends with
    | @error e e' h =>
      rw [Error.retag_id, Error.retag_id] at h
      exact h ▸ .error e
    | ok root instances => exact .ok rfl (hperm.map _) rfl
  · have hselects := selectsAs_registerAll hlower cs w.log []
    have hselects' := selectsAs_registerAll hlower cs' w'.log []
    rw [← hcs] at hselects'
    obtain ⟨hends, hworld⟩ := mount_recast hlower hselects' hselects hw.symm root
    rw [selectors_registerAll Text.lower, selectors_registerAll Text.lower, hcs] at hends
    refine ⟨?_, hworld⟩
    generalize (w.mount cs root).1 = outcome at hends
    generalize (w'.mount cs' root).1 = outcome' at hends
    cases hends with
    | error h => exact congrArg Except.error h
    | ok root instances => rfl
  · have hletters (c : Component σ) : Text.sameLetters c.selector tag =
        Text.sameLetters c.selector tag' :=
      Text.sameLetters_congr rfl (Text.sameLetters_iff.1 htag)
    rw [Registry.get?_perm hperm, Registry.get?_registerAll]
    simp only [hletters, and_self]

/-- A list item with a bold text, with the tag as given. -/
def boldItem (tag : String) : Component Unit where
  selector := "item"
  template := [.element tag [] [.text "x"]]
  initial := .empty
  selector_lower := rfl

/-- A page of one list item, with the tag as given. -/
def itemPage (tag : String) : Component Unit where
  selector := "page"
  template := [.element tag [] []]
  initial := .empty
  selector_lower := rfl

/-- A list item that is registered twice, and a page, with the tags in their templates as given. -/
def itemRegistrations (first page last : String) : List (Component Unit) :=
  [boldItem first, itemPage page, boldItem last]

/-- A world with a root that has the tag as given. -/
def rootedWorld (tag : String) : World Unit :=
  { memory := (), document := { nodes := [{ kind := .element tag }] } }

/-- The registration that lasts may come before that of the page, and all tags may have other
capitals. -/
theorem mount_by_selectors_item :
    [boldItem "B", itemPage "ITEM"].Perm (lastOfEach (itemRegistrations "I" "ITEM" "B")) ∧
      (itemRegistrations "I" "ITEM" "B").map (·.retag Text.lower) =
        (itemRegistrations "i" "Item" "b").map (·.retag Text.lower) ∧
      (rootedWorld "Page").recast Text.lower = (rootedWorld "PAGE").recast Text.lower ∧
      SameOutcome ((rootedWorld "Page").mount [boldItem "B", itemPage "ITEM"] 0).1
        ((rootedWorld "Page").mount (itemRegistrations "I" "ITEM" "B") 0).1 ∧
      ((rootedWorld "PAGE").mount (itemRegistrations "i" "Item" "b") 0).2.recast Text.lower =
        ((rootedWorld "Page").mount (itemRegistrations "I" "ITEM" "B") 0).2.recast Text.lower := by
  have hks : [boldItem "B", itemPage "ITEM"].Perm (lastOfEach (itemRegistrations "I" "ITEM" "B")) :=
    .swap _ _ _
  have hi : Text.lower "I" = Text.lower "i" := by decide
  have hitem : Text.lower "ITEM" = Text.lower "Item" := by decide
  have hb : Text.lower "B" = Text.lower "b" := by decide
  have hpage : Text.lower "Page" = Text.lower "PAGE" := by decide
  have hcs : (itemRegistrations "I" "ITEM" "B").map (·.retag Text.lower) =
      (itemRegistrations "i" "Item" "b").map (·.retag Text.lower) := by
    simp only [itemRegistrations, List.map_cons, List.map_nil, Component.retag, boldItem, itemPage,
      Markup.retagAll, Markup.Node.retag, hi, hitem, hb]
  have hw : (rootedWorld "Page").recast Text.lower = (rootedWorld "PAGE").recast Text.lower := by
    simp only [rootedWorld, World.recast, Document.retag, List.map_cons, List.map_nil,
      NodeData.retag, NodeKind.retag, hpage]
  have hmount := mount_by_selectors hks hcs hw 0
  exact ⟨hks, hcs, hw, hmount.1.1, hmount.2.1.2⟩

end Registrations

end ReactiveMarkup
