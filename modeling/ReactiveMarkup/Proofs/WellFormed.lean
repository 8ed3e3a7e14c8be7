-- SUMMARY: A mount succeeds exactly if the components that it reaches are well-formed.
import Mathlib.Data.List.Nodup
import ReactiveMarkup.Proofs.RenderMoves

/-!
# When a mount succeeds

Components use each other by the tags in their templates. A component is `WellFormed` if none of
those that it leads to leads back to itself, and if the template of each of them is `Sound`: its
elements have names, and its attributes fit the component. `World.mount_succeeds_iff` says that a
mount succeeds exactly for such a component.

Rendering does not look at the components as a whole. It keeps a stack of selectors, and fails when
it gets to one that is on it; `Renders` is what it finds. `renders_iff` says that this comes to the
same.
-/

namespace ReactiveMarkup

variable {σ : Type}

/-! ## Well-formed components -/

/-- A template has the element, and not below the tag of a component. -/
inductive Visited (reg : Registry σ) (tag : String) (attributes : List Markup.Attribute) :
    List Markup.Node → Prop
  | here (children ns : List Markup.Node) :
      Visited reg tag attributes (.element tag attributes children :: ns)
  | inside {outer : String} {others : List Markup.Attribute} {children ns : List Markup.Node}
      (unregistered : reg.get? outer = none) (child : Visited reg tag attributes children) :
      Visited reg tag attributes (.element outer others children :: ns)
  | after {n : Markup.Node} {ns : List Markup.Node} (rest : Visited reg tag attributes ns) :
      Visited reg tag attributes (n :: ns)

/-- The template of one component has the tag of the other. -/
def Uses (reg : Registry σ) (c d : Component σ) : Prop :=
  ∃ tag attributes, Visited reg tag attributes c.template ∧ reg.get? tag = some d

/-- The component has what the binding refers to, on an element with the tag. -/
def Binding.Fits (c : Component σ) (tag : String) : Binding → Prop
  | .listen _ method => ∃ script, c.method? method = some script
  | .model path => Text.sameLetters tag "input" = true ∧ ∃ v, path.get c.initial = .ok v
  | .property _ path => ∃ v, path.get c.initial = .ok v
  | .fixed _ _ => True

/-- The elements of a template have names, and what their attributes refer to is there. The
attributes at the tag of a component do not count. -/
structure Component.Sound (reg : Registry σ) (c : Component σ) : Prop where
  names : ∀ tag attributes, Visited reg tag attributes c.template → Document.isValidName tag = true
  bindings : ∀ tag attributes, Visited reg tag attributes c.template → reg.get? tag = none →
    ∀ a ∈ attributes, (Binding.ofAttribute a).Fits c tag

/-- All components that a component leads to are sound, and none of them leads to itself. -/
structure WellFormed (reg : Registry σ) (top : Component σ) : Prop where
  acyclic : ∀ c, Relation.ReflTransGen (Uses reg) top c → ¬ Relation.TransGen (Uses reg) c c
  sound : ∀ c, Relation.ReflTransGen (Uses reg) top c → c.Sound reg

/-- What rendering a component finds, with a stack of selectors that it is not to get to. -/
inductive Renders (reg : Registry σ) : List String → Component σ → Prop
  | intro {stack : List String} {c : Component σ} (fresh : ¬ stack.contains c.selector = true)
      (sound : c.Sound reg) (below : ∀ d, Uses reg c d → Renders reg (c.selector :: stack) d) :
      Renders reg stack c

section Stack

variable {reg : Registry σ} {stack : List String} {c d top : Component σ}

theorem Uses.mem (h : Uses reg c d) : d ∈ reg.components := by
  obtain ⟨tag, attributes, _, hget⟩ := h
  exact Registry.mem_of_get? hget

private theorem Registry.eq_of_selector (hc : c ∈ reg.components) (hd : d ∈ reg.components)
    (h : c.selector = d.selector) : c = d :=
  List.inj_on_of_nodup_map reg.distinct hc hd h

theorem Renders.fresh (h : Renders reg stack c) : ¬ stack.contains c.selector = true := by
  cases h with
  | intro fresh _ _ => exact fresh

theorem Renders.sound (h : Renders reg stack c) (hr : Relation.ReflTransGen (Uses reg) c d) :
    d.Sound reg := by
  induction hr using Relation.ReflTransGen.head_induction_on generalizing stack with
  | refl =>
    cases h with
    | intro _ sound _ => exact sound
  | head huse _ ih =>
    cases h with
    | intro _ _ below => exact ih (below _ huse)

/-- Rendering gets to all that a component leads to, and then the component is on the stack. -/
theorem Renders.of_transGen (h : Renders reg stack c) (hr : Relation.TransGen (Uses reg) c d) :
    ∃ stack', Renders reg stack' d ∧ stack'.contains c.selector = true := by
  -- What is on the stack stays on it.
  have hstays : ∀ {stack : List String} {b : Component σ} {s : String}, Renders reg stack b →
      stack.contains s = true → Relation.ReflTransGen (Uses reg) b d →
      ∃ stack', Renders reg stack' d ∧ stack'.contains s = true := by
    intro stack b s hb hs hpath
    induction hpath using Relation.ReflTransGen.head_induction_on generalizing stack with
    | refl => exact ⟨stack, hb, hs⟩
    | head huse _ ih =>
      cases hb with
      | intro _ _ below =>
        exact ih (below _ huse) (by simp only [List.contains_cons, hs, Bool.or_true])
  obtain ⟨b, huse, hpath⟩ := Relation.TransGen.head'_iff.1 hr
  cases h with
  | intro _ _ below => exact hstays (below b huse) (by simp) hpath

/-- Where components are well-formed, the stack holds only those that lead to the one at hand. -/
theorem WellFormed.renders {stack : List String} {c : Component σ} (h : WellFormed reg top)
    (hc : c ∈ reg.components) (hr : Relation.ReflTransGen (Uses reg) top c)
    (hstack : ∀ s ∈ stack, ∃ b ∈ reg.components, b.selector = s ∧
      Relation.TransGen (Uses reg) b c) :
    Renders reg stack c := by
  have hfresh : ¬ stack.contains c.selector = true := by
    intro hs
    obtain ⟨b, hb, hselector, hpath⟩ := hstack c.selector (List.contains_iff_mem.1 hs)
    obtain rfl := Registry.eq_of_selector hb hc hselector
    exact h.acyclic b hr hpath
  refine .intro hfresh (h.sound c hr) fun d huse => ?_
  refine WellFormed.renders h huse.mem (hr.tail huse) fun s hs => ?_
  rcases List.mem_cons.1 hs with rfl | hs
  · exact ⟨c, hc, rfl, .single huse⟩
  · obtain ⟨b, hb, hselector, hpath⟩ := hstack s hs
    exact ⟨b, hb, hselector, hpath.tail huse⟩
termination_by reg.unvisited stack
decreasing_by exact Registry.unvisited_cons_lt hc hfresh

theorem renders_iff (htop : top ∈ reg.components) : Renders reg [] top ↔ WellFormed reg top := by
  constructor
  · intro h
    refine ⟨fun c hr hcycle => ?_, fun c hr => h.sound hr⟩
    -- A component that leads to itself would be found on the stack.
    obtain ⟨stack, hrenders⟩ : ∃ stack, Renders reg stack c := by
      rcases Relation.reflTransGen_iff_eq_or_transGen.1 hr with rfl | hpath
      · exact ⟨[], h⟩
      · obtain ⟨stack, hrenders, _⟩ := h.of_transGen hpath
        exact ⟨stack, hrenders⟩
    obtain ⟨stack', hrenders', hself⟩ := hrenders.of_transGen hcycle
    exact hrenders'.fresh hself
  · intro h
    exact h.renders htop .refl fun s hs => absurd hs List.not_mem_nil

end Stack

/-! ## What the nodes of a template ask for -/

/-- The nodes can be rendered for the component, with a stack of selectors not to get to. -/
def Allows (reg : Registry σ) (stack : List String) (c : Component σ)
    (ns : List Markup.Node) : Prop :=
  ∀ tag attributes, Visited reg tag attributes ns →
    Document.isValidName tag = true ∧ (∀ d, reg.get? tag = some d → Renders reg stack d) ∧
      (reg.get? tag = none → ∀ a ∈ attributes, (Binding.ofAttribute a).Fits c tag)

section Allows

variable {reg : Registry σ} {stack : List String} {c d : Component σ} {tag : String}
  {attributes : List Markup.Attribute} {n : Markup.Node} {children ns : List Markup.Node}

theorem not_visited_nil : ¬ Visited reg tag attributes [] := nofun

theorem visited_cons_iff :
    Visited reg tag attributes (n :: ns) ↔ Visited reg tag attributes [n] ∨
    Visited reg tag attributes ns := by
  constructor
  · intro h
    cases h with
    | here children ns => exact .inl (.here children [])
    | inside unregistered child => exact .inl (.inside unregistered child)
    | after rest => exact .inr rest
  · rintro (h | h)
    · cases h with
      | here children _ => exact .here children ns
      | inside unregistered child => exact .inside unregistered child
      | after rest => exact absurd rest not_visited_nil
    · exact .after h

theorem visited_element_iff {outer : String} {others : List Markup.Attribute} :
    Visited reg tag attributes [.element outer others children] ↔
      (tag = outer ∧ attributes = others) ∨
      (reg.get? outer = none ∧ Visited reg tag attributes children) := by
  constructor
  · intro h
    cases h with
    | here _ _ => exact .inl ⟨rfl, rfl⟩
    | inside unregistered child => exact .inr ⟨unregistered, child⟩
    | after rest => exact absurd rest not_visited_nil
  · rintro (⟨rfl, rfl⟩ | ⟨unregistered, child⟩)
    · exact .here children []
    · exact .inside unregistered child

theorem allows_nil : Allows reg stack c [] := fun _ _ h => absurd h not_visited_nil

theorem allows_text {content : String} : Allows reg stack c [.text content] := by
  intro tag attributes h
  cases h with
  | after rest => exact absurd rest not_visited_nil

theorem allows_cons_iff : Allows reg stack c (n :: ns) ↔ Allows reg stack c [n] ∧
    Allows reg stack c ns := by
  constructor
  · intro h
    exact ⟨fun tag attributes hv => h tag attributes (visited_cons_iff.2 (.inl hv)),
      fun tag attributes hv => h tag attributes (visited_cons_iff.2 (.inr hv))⟩
  · rintro ⟨h, h'⟩ tag attributes hv
    rcases visited_cons_iff.1 hv with hv | hv
    · exact h tag attributes hv
    · exact h' tag attributes hv

theorem allows_nested_iff (hget : reg.get? tag = some d) :
    Allows reg stack c [.element tag attributes children] ↔
      Document.isValidName tag = true ∧ Renders reg stack d := by
  constructor
  · intro h
    obtain ⟨hname, hnested, _⟩ := h tag attributes (.here children [])
    exact ⟨hname, hnested d hget⟩
  · rintro ⟨hname, hrenders⟩ t as hv
    rcases visited_element_iff.1 hv with ⟨rfl, rfl⟩ | ⟨hnone, _⟩
    · refine ⟨hname, fun d' hd' => ?_, fun hnone => ?_⟩
      · obtain rfl := Option.some.inj (hget.symm.trans hd')
        exact hrenders
      · rw [hget] at hnone
        cases hnone
    · rw [hget] at hnone
      cases hnone

theorem allows_element_iff (hget : reg.get? tag = none) :
    Allows reg stack c [.element tag attributes children] ↔
      Document.isValidName tag = true ∧ (∀ a ∈ attributes, (Binding.ofAttribute a).Fits c tag) ∧
        Allows reg stack c children := by
  constructor
  · intro h
    obtain ⟨hname, _, hfits⟩ := h tag attributes (.here children [])
    exact ⟨hname, hfits hget, fun t as hv => h t as (.inside hget hv)⟩
  · rintro ⟨hname, hfits, hbelow⟩ t as hv
    rcases visited_element_iff.1 hv with ⟨rfl, rfl⟩ | ⟨_, hv⟩
    · refine ⟨hname, fun d hd => ?_, fun _ => hfits⟩
      rw [hget] at hd
      cases hd
    · exact hbelow t as hv

theorem allows_template_iff :
    Allows reg stack c c.template ↔ c.Sound reg ∧ ∀ d, Uses reg c d → Renders reg stack d := by
  constructor
  · intro h
    refine ⟨⟨fun tag attributes hv => (h tag attributes hv).1,
      fun tag attributes hv => (h tag attributes hv).2.2⟩, ?_⟩
    rintro d ⟨tag, attributes, hv, hget⟩
    exact (h tag attributes hv).2.1 d hget
  · rintro ⟨hsound, hbelow⟩ tag attributes hv
    exact ⟨hsound.names tag attributes hv, fun d hget => hbelow d ⟨tag, attributes, hv, hget⟩,
      hsound.bindings tag attributes hv⟩

theorem renders_iff_allows :
    Renders reg stack c ↔
      ¬ stack.contains c.selector = true ∧ Allows reg (c.selector :: stack) c c.template := by
  rw [allows_template_iff]
  constructor
  · rintro ⟨hfresh, hsound, hbelow⟩
    exact ⟨hfresh, hsound, hbelow⟩
  · rintro ⟨hfresh, hsound, hbelow⟩
    exact .intro hfresh hsound hbelow

end Allows

/-! ## Parts that come to an end -/

namespace Render

/-- The part of a rendering is done without an error. -/
def Done {α : Type} (x : Render σ α) (r : Rendering σ) : Prop := ∃ a r', x r = .ok a r'

section Done

variable {α β : Type} {r : Rendering σ} {c : Component σ} {place : Nat}
  {state : StateId} {x : NodeId} {tag : String}

private theorem done_pure (a : α) : Done (pure a : Render σ α) r := ⟨a, r, rfl⟩

theorem not_done_throw (e : Error) : ¬ Done (throw e : Render σ α) r := by
  rintro ⟨a, r', h⟩
  cases h

/-- What two parts ask for, the second wherever the first has got to. -/
theorem done_bind_iff {x : Render σ α} {f : α → Render σ β} {P Q : Prop} (hx : Done x r ↔ P)
    (hf : ∀ a r', x r = .ok a r' → (Done (f a) r' ↔ Q)) : Done (x >>= f) r ↔ P ∧ Q := by
  rw [← hx]
  constructor
  · rintro ⟨b, r'', h⟩
    obtain ⟨a, r', ha, hb⟩ := bind_ok h
    exact ⟨⟨a, r', ha⟩, (hf a r' ha).1 ⟨b, r'', hb⟩⟩
  · rintro ⟨⟨a, r', ha⟩, hq⟩
    obtain ⟨b, r'', hb⟩ := (hf a r' ha).2 hq
    exact ⟨b, r'', (bind_of_ok ha).trans hb⟩

theorem done_edit_iff {e : Edit} : Done (edit e) r ↔ ∃ p, r.world.document.edit e = .ok p := by
  constructor
  · rintro ⟨z, r', h⟩
    obtain ⟨d, hd, _⟩ := edit_ok h
    exact ⟨(z, d), hd⟩
  · rintro ⟨p, hp⟩
    exact ⟨p.1, { r with world := { r.world with document := p.2 } },
      by simp only [edit, World.edit, hp]⟩

theorem done_createElement_iff : Done (edit (.createElement tag)) r ↔
    Document.isValidName tag = true := by
  rw [done_edit_iff]
  cases hname : Document.isValidName tag <;> simp [Document.edit, hname]

theorem done_append_iff {parent child : NodeId} (hne : parent ≠ child) :
    Done (edit (.append parent child)) r ↔ r.world.document.isText parent = false := by
  rw [done_edit_iff]
  cases htext : r.world.document.isText parent <;> simp [Document.edit, hne, htext]

theorem done_sync_iff (hready : Ready c place state r) {property : String} {path : Path} :
    Done (sync place state x property path) r ↔ ∃ v, path.get c.initial = .ok v := by
  rw [← hready.data]
  constructor
  · rintro ⟨_, r', h⟩
    obtain ⟨v, hv, _⟩ := sync_ok h
    exact ⟨v, hv⟩
  · rintro ⟨v, hv⟩
    have hget : (get : Render σ (Rendering σ)) r = .ok r r := rfl
    refine ⟨(), subscribed place state (syncScript x property path)
      { r with world := { r.world with document := r.world.document.setProperty x property v } },
      ?_⟩
    unfold sync
    rw [bind_of_ok hget, hv]
    rfl

private theorem done_listen (event : String) (callback : Script σ) : Done
    (listen place state x event callback) r :=
  ⟨(), listening place state x event callback r, rfl⟩

theorem done_bindAttribute_iff (hready : Ready c place state r) {b : Binding} :
    Done (bindAttribute c place state tag x b) r ↔ b.Fits c tag := by
  cases b with
  | listen event method =>
    cases hm : c.method? method with
    | none =>
      have hnot : ¬ (Binding.listen event method).Fits c tag := by simp [Binding.Fits, hm]
      rw [bindAttribute, hm]
      exact iff_of_false (not_done_throw _) hnot
    | some script =>
      rw [bindAttribute, hm]
      exact iff_of_true (done_listen event (script state)) ⟨script, hm⟩
  | model path =>
    unfold bindAttribute Binding.Fits
    cases hinput : Text.sameLetters tag "input" with
    | false => simpa using not_done_throw (.modelOnNonInput tag)
    | true =>
      have hsync : Done (sync place state x "value" path) r ↔ ∃ v, path.get c.initial = .ok v :=
        done_sync_iff hready
      have hlisten : ∀ r' : Rendering σ,
          Done (listen place state x "input" (inputScript x state path)) r' ↔ True :=
        fun _ => iff_true_intro (done_listen "input" _)
      simpa using done_bind_iff hsync fun _ r' _ => hlisten r'
  | property property path => exact done_sync_iff hready
  | fixed property value =>
    exact iff_true_intro ⟨(),
      { r with world := { r.world
        with document := r.world.document.setProperty x property (.string value) } }, rfl⟩

theorem done_bindAll_iff {attributes : List Markup.Attribute} (hready : Ready c place state r)
    (hlt : x < r.world.document.nodes.length) :
    Done (bindAll c place state tag x attributes) r ↔
    ∀ a ∈ attributes, (Binding.ofAttribute a).Fits c tag := by
  induction attributes generalizing r with
  | nil => exact iff_of_true (done_pure ()) fun a ha => absurd ha List.not_mem_nil
  | cons a rest ih =>
    rw [List.forall_mem_cons]
    apply done_bind_iff (done_bindAttribute_iff hready)
    intro _ r₁ h
    have hkeeps := keeps_bindAttribute hready.owner hlt h
    exact ih (hready.keeps hkeeps) (Nat.lt_of_lt_of_le hlt hkeeps.length_le)

theorem Keeps.isText {may : NodeId → Prop} {r' : Rendering σ} (h : Keeps may r r')
    (hlt : x < r.world.document.nodes.length) :
    r'.world.document.isText x = r.world.document.isText x := by
  simp only [Document.isText, h.kind x hlt]

/-- Only a text refuses nodes, and it does not refuse none. -/
theorem done_appendAll_iff {ids : List NodeId} (hlt : x < r.world.document.nodes.length)
    (hne : ∀ y ∈ ids, x ≠ y) :
    Done (appendAll x ids) r ↔ (r.world.document.isText x = true → ids = []) := by
  induction ids generalizing r with
  | nil => exact iff_of_true (done_pure ()) fun _ => rfl
  | cons child rest ih =>
    obtain ⟨hchild, hrest⟩ := List.forall_mem_cons.1 hne
    have hseq : Done (appendAll x (child :: rest)) r ↔
        r.world.document.isText x = false ∧ (r.world.document.isText x = true → rest = []) := by
      apply done_bind_iff (done_append_iff hchild)
      intro _ r₁ h
      have hkeeps := keeps_edit h
      rw [← hkeeps.isText hlt]
      exact ih (Nat.lt_of_lt_of_le hlt hkeeps.length_le) hrest
    rw [hseq]
    cases r.world.document.isText x <;> simp

/-- A new element takes nodes. -/
theorem created_ok {r' : Rendering σ} (hr : edit (.createElement tag) r = .ok x r') :
    x = r.world.document.nodes.length ∧ x < r'.world.document.nodes.length ∧
      r'.world.document.isText x = false := by
  obtain ⟨d, hd, rfl⟩ := edit_ok hr
  refine ⟨(Document.length_of_create hd rfl).1, Document.lt_length_of_create hd rfl, ?_⟩
  simp only [Document.isText, Document.node_of_createElement hd]

end Done

end Render

/-! ## Whole renderings -/

open Render

mutual

theorem done_renderComponent_iff {reg : Registry σ} {r : Rendering σ} {stack : List String}
    {c : Component σ} {hc : c ∈ reg.components} {container : NodeId} :
    Done (reg.renderComponent stack c hc container) r ↔ Renders reg stack c := by
  by_cases hs : stack.contains c.selector = true
  · rw [Registry.renderComponent, dif_pos hs]
    exact iff_of_false (not_done_throw _) fun h => h.fresh hs
  · have hsame : Done (reg.renderComponent stack c hc container) r ↔
        Done (reg.renderNodes
          (c.selector :: stack) c r.instances.length r.world.states.length c.template)
          (instantiated c container r) := by
      simp only [Done, renderComponent_fresh hs]
    rw [hsame, renders_iff_allows, and_iff_right hs]
    exact done_renderNodes_iff (ready_instantiated c container r)
termination_by (reg.unvisited stack, 0)
decreasing_by exact Prod.Lex.left _ _ (Registry.unvisited_cons_lt hc hs)

theorem done_renderNode_iff {reg : Registry σ} {r : Rendering σ} {stack : List String}
    {c : Component σ}
    {place : Nat} {state : StateId} {n : Markup.Node} (hready : Ready c place state r) :
    Done (reg.renderNode stack c place state n) r ↔ Allows reg stack c [n] := by
  match n with
  | .text content =>
    rw [Registry.renderNode]
    exact iff_of_true (done_edit_iff.2 ⟨_, rfl⟩) allows_text
  | .element tag attributes children =>
    cases hget : reg.get? tag with
    | some nested =>
      rw [renderNode_nested hget, allows_nested_iff hget]
      apply done_bind_iff done_createElement_iff
      intro x r₀ hcreate
      obtain ⟨_, hlt, htext⟩ := created_ok hcreate
      rw [← and_true (Renders reg stack nested)]
      apply done_bind_iff done_renderComponent_iff
      intro ids r₁ hcomponent
      have hkeeps := keeps_renderComponent hcomponent
      obtain ⟨_, hnew⟩ := renderComponent_new hcomponent
      -- The nodes that were made for the component are newer than the container.
      have happend : Done (appendAll x ids) r₁ := by
        refine (done_appendAll_iff (Nat.lt_of_lt_of_le hlt hkeeps.length_le) fun y hy => ?_).2 ?_
        · exact Nat.ne_of_lt (Nat.lt_of_lt_of_le hlt (hnew y hy))
        · rw [hkeeps.isText hlt, htext]
          exact fun h => absurd h Bool.false_ne_true
      rw [← true_and True]
      exact done_bind_iff (iff_true_intro happend) fun _ _ _ => iff_true_intro (done_pure x)
    | none =>
      rw [renderNode_element hget, allows_element_iff hget]
      apply done_bind_iff done_createElement_iff
      intro x r₀ hcreate
      obtain ⟨_, hlt, htext⟩ := created_ok hcreate
      have hready₀ := hready.keeps (keeps_edit hcreate)
      apply done_bind_iff (done_bindAll_iff hready₀ hlt)
      intro _ r₁ hbind
      have hkeeps := keeps_bindAll hready₀.owner hlt hbind
      rw [← and_true (Allows reg stack c children)]
      apply done_bind_iff
      · apply done_renderChildren_iff (hready₀.keeps hkeeps)
          (Nat.lt_of_lt_of_le hlt hkeeps.length_le)
        rw [hkeeps.isText hlt, htext]
      · exact fun _ _ _ => iff_true_intro (done_pure x)
termination_by (reg.unvisited stack, sizeOf n)

theorem done_renderChildren_iff {reg : Registry σ} {r : Rendering σ} {stack : List String}
    {c : Component σ} {place : Nat} {state : StateId} {element : NodeId} {ns : List Markup.Node}
    (hready : Ready c place state r) (hlt : element < r.world.document.nodes.length)
    (htext : r.world.document.isText element = false) :
    Done (reg.renderChildren stack c place state element ns) r ↔ Allows reg stack c ns := by
  match ns with
  | [] =>
    rw [Registry.renderChildren]
    exact iff_of_true (done_pure ()) allows_nil
  | n :: rest =>
    rw [Registry.renderChildren, allows_cons_iff]
    apply done_bind_iff (done_renderNode_iff hready)
    intro child r₁ hn
    have hkeeps := keeps_renderNode hready.owner hn
    have hlt₁ := Nat.lt_of_lt_of_le hlt hkeeps.length_le
    have hne : element ≠ child := Nat.ne_of_lt (Nat.lt_of_lt_of_le hlt (renderNode_new hn))
    have htext₁ : r₁.world.document.isText element = false := (hkeeps.isText hlt).trans htext
    rw [← true_and (Allows reg stack c rest)]
    apply done_bind_iff (iff_true_intro ((done_append_iff hne).2 htext₁))
    intro _ r₂ happend
    have hkeeps₂ := keeps_edit happend
    exact done_renderChildren_iff ((hready.keeps hkeeps).keeps hkeeps₂)
      (Nat.lt_of_lt_of_le hlt₁ hkeeps₂.length_le) ((hkeeps₂.isText hlt₁).trans htext₁)
termination_by (reg.unvisited stack, sizeOf ns)

theorem done_renderNodes_iff {reg : Registry σ} {r : Rendering σ} {stack : List String}
    {c : Component σ}
    {place : Nat} {state : StateId} {ns : List Markup.Node} (hready : Ready c place state r) :
    Done (reg.renderNodes stack c place state ns) r ↔ Allows reg stack c ns := by
  match ns with
  | [] =>
    rw [Registry.renderNodes]
    exact iff_of_true (done_pure []) allows_nil
  | n :: rest =>
    rw [Registry.renderNodes, allows_cons_iff]
    apply done_bind_iff (done_renderNode_iff hready)
    intro x r₁ hn
    rw [← and_true (Allows reg stack c rest)]
    apply done_bind_iff (done_renderNodes_iff (hready.keeps (keeps_renderNode hready.owner hn)))
    exact fun xs _ _ => iff_true_intro (done_pure (x :: xs))
termination_by (reg.unvisited stack, sizeOf ns)

end

/-! ## Mounts -/

theorem Registry.get?_lower {reg : Registry σ} (tag : String) : reg.get?
    (Text.lower tag) = reg.get? tag := by
  simp [Registry.get?]

theorem mount_ok_iff {w : World σ} {components : List (Component σ)} {root : NodeId} :
    (∃ md, (w.mount components root).1 = .ok md) ↔
      Done (World.renderRoot (Registry.empty.registerAll components w.log).1 root
          (Text.lower (w.document.tag root)))
        ⟨{ w with log := (Registry.empty.registerAll components w.log).2 }, []⟩ := by
  obtain ⟨e, r', hr, hmount⟩ | ⟨r', hr, hmount⟩ := mount_cases w components root
  · refine iff_of_false ?_ ?_
    · rintro ⟨md, h⟩
      rw [hmount] at h
      cases h
    · rintro ⟨_, r, h⟩
      rw [hr] at h
      cases h
  · exact iff_of_true ⟨_, congrArg Prod.fst hmount⟩ ⟨(), r', hr⟩

/-- A mount renders the component for the tag of the root, and appends something to a root that is a
text only if the template is empty. -/
theorem mount_renders_iff {w : World σ} {components : List (Component σ)} {root : NodeId}
    (hroot : root < w.document.nodes.length) :
    (∃ md, (w.mount components root).1 = .ok md) ↔
      ∃ top, (Registry.empty.registerAll components w.log).1.get? (w.document.tag root) = some top ∧
        Renders (Registry.empty.registerAll components w.log).1 [] top ∧
        (w.document.isText root = true → top.template = []) := by
  rw [mount_ok_iff]
  generalize (Registry.empty.registerAll components w.log).1 = reg
  rw [← Registry.get?_lower]
  obtain hget | ⟨top, hget⟩ :=
    Option.eq_none_or_eq_some (reg.get? (Text.lower (w.document.tag root)))
  · rw [renderRoot_unregistered hget, hget]
    exact iff_of_false (not_done_throw _) nofun
  · rw [renderRoot_registered hget, hget]
    have hdone : Done (do
          let nodes ← reg.renderComponent [] top (Registry.mem_of_get? hget) root
          appendAll root nodes)
        ⟨{ w with log := (Registry.empty.registerAll components w.log).2 }, []⟩ ↔
        Renders reg [] top ∧ (w.document.isText root = true → top.template = []) := by
      apply done_bind_iff done_renderComponent_iff
      intro ids r₁ hcomponent
      have hkeeps := keeps_renderComponent hcomponent
      obtain ⟨hlength, hnew⟩ := renderComponent_new hcomponent
      rw [done_appendAll_iff (Nat.lt_of_lt_of_le hroot hkeeps.length_le) fun y hy =>
        Nat.ne_of_lt (Nat.lt_of_lt_of_le hroot (hnew y hy)), hkeeps.isText hroot]
      rw [← List.length_eq_zero_iff, hlength, List.length_eq_zero_iff]
    rw [hdone]
    constructor
    · exact fun h => ⟨top, rfl, h⟩
    · rintro ⟨_, ⟨⟩, h⟩
      exact h

/-- A mount comes to an end whatever the components are, also where they use each other. It succeeds
exactly if there is a component for the tag of the root and that is well-formed. A text takes no
nodes, so a mount into it asks for an empty template as well. -/
theorem World.mount_succeeds_iff {w : World σ} (components : List (Component σ)) {root : NodeId}
    (hroot : root < w.document.nodes.length) :
    let reg := (Registry.empty.registerAll components w.log).1
    (∃ md, (w.mount components root).1 = .ok md) ↔
      ∃ top, reg.get? (w.document.tag root) = some top ∧ WellFormed reg top ∧
        (w.document.isText root = true → top.template = []) := by
  intro reg
  rw [mount_renders_iff hroot]
  refine exists_congr fun top => and_congr_right fun hget => ?_
  rw [renders_iff (Registry.mem_of_get? hget)]

/-- A component with a template of one element. -/
def badge : Component Unit where
  selector := "badge"
  template := [.element "b" [⟨"textContent", "new"⟩] []]
  initial := .empty
  selector_lower := by decide +kernel

/-- A component that has an input tied to a path and to a method, and uses another component. -/
def greeter : Component Unit where
  selector := "page"
  template :=
    [.element "input" [⟨"class", "wide"⟩, ⟨"bind-model", "name"⟩, ⟨"on-click", "greet()"⟩] [],
      .element "badge" [] [.text "old"], .text "Hello"]
  initial := .object [("name", .string "you")]
  methods := [("greet", fun _ => .done)]
  selector_lower := by decide +kernel

/-- A component for the same tag that leads back to the one that uses it. -/
def echo : Component Unit where
  selector := "badge"
  template := [.element "page" [] []]
  initial := .empty
  selector_lower := by decide +kernel

/-- A document with an element to mount into. -/
def emptyPage : World Unit :=
  { memory := (), document := { nodes := [{ kind := .element "page" }] } }

theorem bindings_greeter :
    Binding.ofAttribute ⟨"class", "wide"⟩ = .fixed "className" "wide" ∧
      Binding.ofAttribute ⟨"bind-model", "name"⟩ = .model ⟨["name"]⟩ ∧
      Binding.ofAttribute ⟨"on-click", "greet()"⟩ = .listen "click" "greet" := by
  decide +kernel

theorem binding_badge : Binding.ofAttribute ⟨"textContent", "new"⟩ =
    .fixed "textContent" "new" := by
  decide +kernel

theorem renders_greeter : Renders (Registry.empty.registerAll [greeter, badge] []).1
    [] greeter := by
  have hb : (Registry.empty.registerAll [greeter, badge] []).1.get? "b" = none := rfl
  have hinput : (Registry.empty.registerAll [greeter, badge] []).1.get? "input" = none := rfl
  have hbadge : (Registry.empty.registerAll [greeter, badge] []).1.get? "badge" = some badge := rfl
  have hname : ∀ tag ∈ ["b", "badge", "input"], Document.isValidName tag = true := by decide +kernel
  have hrenders : Renders (Registry.empty.registerAll [greeter, badge] []).1 ["page"] badge := by
    refine renders_iff_allows.2 ⟨by decide +kernel,
      (allows_element_iff hb).2 ⟨hname "b" (by simp), ?_, allows_nil⟩⟩
    rw [List.forall_mem_singleton, binding_badge]
    trivial
  refine renders_iff_allows.2 ⟨by decide +kernel,
    allows_cons_iff.2 ⟨?_, allows_cons_iff.2 ⟨?_, allows_text⟩⟩⟩
  · refine (allows_element_iff hinput).2 ⟨hname "input" (by simp), ?_, allows_nil⟩
    have hsame : Text.sameLetters "input" "input" = true := by decide +kernel
    obtain ⟨hclass, hmodel, hclick⟩ := bindings_greeter
    simp only [List.forall_mem_cons, hclass, hmodel, hclick]
    exact ⟨trivial, ⟨hsame, .string "you", rfl⟩, ⟨_, rfl⟩, nofun⟩
  · exact (allows_nested_iff hbadge).2 ⟨hname "badge" (by simp), hrenders⟩

/-- A mount succeeds with components one of which uses the other, and fails when they use each
other. -/
theorem World.mount_succeeds_iff_greeter :
    0 < emptyPage.document.nodes.length ∧ (∃ md, (emptyPage.mount [greeter, badge] 0).1 = .ok md) ∧
      ¬ ∃ md, (emptyPage.mount [greeter, echo] 0).1 = .ok md := by
  refine ⟨Nat.one_pos, ?_, ?_⟩
  · have hget : (Registry.empty.registerAll [greeter, badge] []).1.get? "page" = some greeter := rfl
    refine (World.mount_succeeds_iff [greeter, badge] Nat.one_pos).2 ⟨greeter, hget, ?_, nofun⟩
    exact (renders_iff (Registry.mem_of_get? hget)).1 renders_greeter
  · intro hok
    obtain ⟨top, hget, hwell, _⟩ := (World.mount_succeeds_iff [greeter, echo] Nat.one_pos).1 hok
    have hgreeter : (Registry.empty.registerAll [greeter, echo] []).1.get? "page" =
      some greeter := rfl
    obtain rfl : greeter = top := Option.some.inj (hgreeter.symm.trans hget)
    have hto : Uses (Registry.empty.registerAll [greeter, echo] []).1 greeter echo :=
      ⟨"badge", [], .after (.here _ _), rfl⟩
    have hback : Uses (Registry.empty.registerAll [greeter, echo] []).1 echo greeter :=
      ⟨"page", [], .here _ _, hgreeter⟩
    exact hwell.acyclic greeter .refl (.head hto (.single hback))

/-- A component for texts. -/
def caption : Component Unit where
  selector := "#text"
  template := [.element "p" [] []]
  initial := .empty
  selector_lower := by decide +kernel

/-- A document with a text. -/
def textPage : World Unit := { memory := (), document := { nodes := [{ kind := .text "x" }] } }

/-- A text has a tag and so may have a component, which may be well-formed, but it refuses the
nodes. -/
theorem World.mount_text_refused :
    0 < textPage.document.nodes.length ∧
      ¬ ((∃ md, (textPage.mount [caption] 0).1 = .ok md) ↔
        ∃ top, (Registry.empty.registerAll [caption] textPage.log).1.get?
          (textPage.document.tag 0) = some top ∧
          WellFormed (Registry.empty.registerAll [caption] textPage.log).1 top) := by
  have hget : (Registry.empty.registerAll [caption] []).1.get? "#text" = some caption := rfl
  have hp : (Registry.empty.registerAll [caption] []).1.get? "p" = none := rfl
  have hrenders : Renders (Registry.empty.registerAll [caption] []).1 [] caption :=
    renders_iff_allows.2 ⟨by decide +kernel,
      (allows_element_iff hp).2 ⟨by decide +kernel, nofun, allows_nil⟩⟩
  refine ⟨Nat.one_pos, fun hiff => ?_⟩
  have hmount := hiff.2 ⟨caption, hget, (renders_iff (Registry.mem_of_get? hget)).1 hrenders⟩
  obtain ⟨top, htop, _, hempty⟩ := (mount_renders_iff Nat.one_pos).1 hmount
  obtain rfl : caption = top := Option.some.inj (hget.symm.trans htop)
  cases hempty rfl

end ReactiveMarkup
