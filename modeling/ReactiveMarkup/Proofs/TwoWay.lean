-- SUMMARY: Inputs of a mounted module make the round trip from text to tree and back.
import ReactiveMarkup.Proofs.Instances
import ReactiveMarkup.Proofs.Typing
import ReactiveMarkup.Proofs.Unmounting

/-!
# Two-way bindings

What a mount leaves behind for its bindings is a panel at rest: each instance has its elements with
the listeners that their attributes ask for, and the properties of the elements are in tune. So an
input whose value is tied to a path makes the round trip whenever something can be written at the
path (`World.typing_round_trip`).
-/

namespace ReactiveMarkup

variable {σ : Type}

/-! ## The elements of a template and their listeners -/

theorem Rendered.length_eq {reg : Registry σ} {d : Document} {ns : List Markup.Node}
    {xs : List NodeId}
    {sites : List Site} (h : Rendered reg d ns xs sites) : xs.length = ns.length := by
  induction h with
  | nil => rfl
  | text _ _ ih => exact congrArg (· + 1) ih
  | nested _ _ _ ih => exact congrArg (· + 1) ih
  | element _ _ _ _ _ _ _ ih => exact congrArg (· + 1) ih

/-- The attributes at the elements are those that are read when the template is rendered. -/
private theorem Rendered.mem_attributesIn {reg : Registry σ} {d : Document} {ns : List Markup.Node}
    {xs : List NodeId}
    {sites : List Site} (h : Rendered reg d ns xs sites) {x : Site} (hx : x ∈ sites)
    {a : Markup.Attribute}
    (ha : a ∈ x.attributes) : a ∈ Markup.attributesIn reg ns := by
  induction h with
  | nil => cases hx
  | text _ _ ih => exact List.mem_append_right _ (ih hx)
  | nested _ _ _ ih => exact List.mem_append_right _ (ih hx)
  | element unregistered _ _ _ _ _ ihInside ihRest =>
    rw [Markup.attributesIn, Markup.Node.attributesWithin, if_neg (by simp [unregistered])]
    rcases List.mem_append.1 hx with hx | hx
    · rcases List.mem_cons.1 hx with rfl | hx
      · exact List.mem_append_left _ (List.mem_append_left _ ha)
      · exact List.mem_append_left _ (List.mem_append_right _ (ihInside hx))
    · exact List.mem_append_right _ (ihRest hx)

namespace Built

variable {reg : Registry σ} {clean : Prop} {w : World σ} {lo hi : NodeId} {c : Component σ}
  {state : StateId} {ns : List Markup.Node} {xs : List NodeId} {hosts : List (Host σ)}

theorem length_eq (h : Built reg clean w lo hi c state ns xs hosts) : xs.length = ns.length := by
  induction h with
  | nil => rfl
  | text _ _ _ ih => exact congrArg (· + 1) ih
  | nested _ _ _ _ _ _ _ ih => exact congrArg (· + 1) ih
  | element _ _ _ _ _ _ _ _ _ _ ih => exact congrArg (· + 1) ih

/-- The elements of a template are new, and have the listeners that their attributes ask for. -/
private theorem duties_eq (h : Built reg clean w lo hi c state ns xs hosts) {sites : List Site}
    (hr : Rendered reg w.document ns xs sites) {x : Site} (hx : x ∈ sites) :
    lo ≤ x.node ∧
    (clean → (w.listenersAt x.node).map Listener.duty = c.duties state x.node x.attributes) := by
  induction h generalizing sites x with
  | nil =>
    cases hr
    cases hx
  | text new _ _ ih =>
    cases hr with
    | text _ rest =>
      obtain ⟨hle, hduties⟩ := ih rest hx
      exact ⟨Nat.le_trans (Nat.le_succ_of_le new) hle, hduties⟩
  | nested registered new _ _ inside _ _ ihRest =>
    cases hr with
    | nested _ _ rest =>
      obtain ⟨hle, hduties⟩ := ihRest rest hx
      exact ⟨Nat.le_trans (Nat.le_trans (Nat.le_succ_of_le new) inside.le) hle, hduties⟩
    | element unregistered => simp [Registry.contains, registered] at unregistered
  | element unregistered new _ listeners before _ filled inside _ ihInside ihRest =>
    cases hr with
    | nested registered => simp [Registry.contains, unregistered] at registered
    | element _ _ _ below inside' rest =>
      have hfirst := Nat.le_trans new (Nat.le_of_lt before)
      rcases List.mem_append.1 hx with hx | hx
      · rcases List.mem_cons.1 hx with rfl | hx
        · exact ⟨new, listeners⟩
        · -- Behind the texts of the element stand the nodes made for its children.
          have hsame :=
            List.append_inj' (filled.symm.trans below)
              (inside.length_eq.trans inside'.length_eq.symm)
          obtain ⟨hle, hduties⟩ := ihInside (hsame.2 ▸ inside') hx
          exact ⟨Nat.le_trans hfirst hle, hduties⟩
      · obtain ⟨hle, hduties⟩ := ihRest rest hx
        exact ⟨Nat.le_trans (Nat.le_trans hfirst inside.le) hle, hduties⟩

end Built

/-- The host is new, and it was filled with what was built for its component. -/
structure Host.Filled (reg : Registry σ) (clean : Prop) (w : World σ) (lo : NodeId)
    (g : Host σ) : Prop where
  new : lo ≤ g.container
  registered : reg.get? g.component.selector = some g.component
  built : ∃ first hi below, lo ≤ first ∧
    Built reg clean w first hi g.component g.state g.component.template
      (w.document.children g.container) below

theorem Host.Filled.mono {reg : Registry σ} {clean : Prop} {w : World σ}
    {lo lo' : NodeId} {g : Host σ}
    (h : g.Filled reg clean w lo) (hle : lo' ≤ lo) : g.Filled reg clean w lo' := by
  obtain ⟨first, hi, below, hfirst, hbuilt⟩ := h.built
  exact ⟨Nat.le_trans hle h.new, h.registered, first, hi, below, Nat.le_trans hle hfirst, hbuilt⟩

/-- The hosts that were made for a template were filled. -/
theorem Built.filled {reg : Registry σ} {clean : Prop} {w : World σ} {lo hi : NodeId}
    {c : Component σ}
    {state : StateId} {ns : List Markup.Node} {xs : List NodeId} {hosts : List (Host σ)}
    (h : Built reg clean w lo hi c state ns xs hosts) {g : Host σ} (hg : g ∈ hosts) :
    g.Filled reg clean w lo := by
  induction h with
  | nil => cases hg
  | text new _ _ ih => exact (ih hg).mono (Nat.le_succ_of_le new)
  | nested registered new _ filled inside _ ihInside ihRest =>
    have hlo := Nat.le_succ_of_le new
    rcases List.mem_append.1 hg with hg | hg
    · rcases List.mem_cons.1 hg with rfl | hg
      · exact ⟨new, Registry.get?_selector registered, _, _, _, hlo, filled ▸ inside⟩
      · exact (ihInside hg).mono hlo
    · exact (ihRest hg).mono (Nat.le_trans hlo inside.le)
  | element _ new _ _ before _ _ inside _ ihInside ihRest =>
    have hfirst := Nat.le_trans new (Nat.le_of_lt before)
    rcases List.mem_append.1 hg with hg | hg
    · exact (ihInside hg).mono hfirst
    · exact (ihRest hg).mono (Nat.le_trans hfirst inside.le)

/-! ### Listeners for input -/

/-- What a binding does on input, unless it calls a method, is to write the value of the element. -/
private theorem input_duty (c : Component σ) (state : StateId) (x : NodeId) {b : Binding}
    (h : ∀ method, b ≠ .listen "input" method) :
    ((c.duty? state x b).filter (·.1 == "input")).map (·.2.2) =
      b.model?.map (Render.inputScript x state) := by
  cases b with
  | listen event method =>
    have hevent : event ≠ "input" := fun he => h method (he ▸ rfl)
    cases hm : c.method? method <;> simp [Component.duty?, Binding.model?, hm, hevent]
  | model path => rfl
  | property name path => rfl
  | fixed name value => rfl

private theorem input_duties (c : Component σ) (state : StateId) (x : NodeId)
    {attributes : List Markup.Attribute}
    (h : ∀ a ∈ attributes, ∀ method, Binding.ofAttribute a ≠ .listen "input" method) :
    ((c.duties state x attributes).filter (·.1 == "input")).map (·.2.2) =
      (attributes.filterMap fun a => (Binding.ofAttribute a).model?).map
        (Render.inputScript x state) := by
  rw [Component.duties, List.filter_filterMap, List.map_filterMap, List.map_filterMap]
  exact List.filterMap_congr fun a ha => input_duty c state x (h a ha)

private theorem callback_listenersFor (w : World σ) (x : NodeId) (event : String) :
    (w.listenersFor x event).map (·.callback) =
      (((w.listenersAt x).map Listener.duty).filter (·.1 == event)).map (·.2.2) := by
  rw [World.listenersFor, List.filter_map, List.map_map]
  rfl

/-- An attribute that alone writes the value of an element alone ties it to a path. -/
private theorem Site.models_of_ties {x : Site} {before after : List Markup.Attribute}
    {a : Markup.Attribute} {path : Path}
    (h : x.Ties before a after "value" path) (ha : Binding.ofAttribute a = .model path) :
    x.models = [path] := by
  have hnone (attributes : List Markup.Attribute) (hsub : ∀ b ∈ attributes, b ∈ before ++ after) :
      attributes.filterMap (fun a => (Binding.ofAttribute a).model?) = [] := by
    refine List.filterMap_eq_nil_iff.2 fun b hb => ?_
    cases hmodel : Binding.ofAttribute b with
    | model other =>
      have htarget : b.target? = some "value" := congrArg Binding.target? hmodel
      exact absurd (h.sole b (hsub b hb) "value" htarget) (by decide)
    | listen | property | fixed => rfl
  rw [Site.models, h.attributes, List.filterMap_append, List.filterMap_cons, ha,
    hnone before fun _ => List.mem_append_left _, hnone after fun _ => List.mem_append_right _]
  rfl

/-! ## The panel of a mount -/

section Mounted

variable {w w' : World σ} {components : List (Component σ)} {root : NodeId} {md : Module}

/-- What an instance holds behind what was there before was built for its component. -/
private theorem filled_mount (hroot : root < w.document.nodes.length)
    (hmount : w.mount components root = (.ok md, w')) {i : Instance} (hi : i ∈ md.instances) :
    let reg := (Registry.empty.registerAll components w.log).1
    ∃ c first hi below, reg.get? i.selector = some c ∧ w.document.nodes.length ≤ first ∧
      Built reg w.ListensWithin w' first hi c i.state c.template
        ((w'.document.children i.container).drop
          (w.document.children i.container).length) below := by
  intro reg
  obtain ⟨c, ids, hosts, hget, hbuilt, hchildren, htallies⟩ := built_mount hroot hmount
  obtain ⟨g, hg, htally⟩ := List.mem_map.1 (htallies ▸ List.mem_map_of_mem (f := Instance.tally) hi)
  obtain ⟨hselector, hcontainer, hstate⟩ : g.component.selector = i.selector ∧
    g.container = i.container ∧ g.state = i.state :=
    ⟨congrArg Tally.selector htally, congrArg Tally.container htally, congrArg Tally.state htally⟩
  rw [← hselector, ← hcontainer, ← hstate]
  rcases List.mem_cons.1 hg with rfl | hg
  · have hdrop : (w'.document.children root).drop (w.document.children root).length = ids := by
      rw [hchildren, List.drop_left]
    exact ⟨c, _, _, hosts, Registry.get?_selector hget, Nat.le_refl _, hdrop.symm ▸ hbuilt⟩
  · obtain ⟨hnew, hregistered, first, hi, below, hfirst, hinside⟩ := hbuilt.filled hg
    have hempty : w.document.children g.container = [] := by
      rw [Document.children, Document.node_of_length_le hnew]
    refine ⟨g.component, first, hi, below, hregistered, hfirst, ?_⟩
    rw [hempty]
    exact hinside

/-- What a mount leaves behind, if these are the sites of its instances. -/
def Module.panel (md : Module) (w w' : World σ) (placed : List Placed) : Panel where
  states := md.instances.map (·.state)
  sites s := if w.states.length ≤ s then sitesAt placed (s - w.states.length) else []
  made := .madeBetween w w'

theorem wiring_panel (md : Module) (w w' : World σ) (placed : List Placed) :
    (md.panel w w' placed).wiring = wiringOf w.states.length placed := by
  funext s
  simp only [Panel.wiring, Module.panel, wiringOf, syncsAt]
  split <;> rfl

theorem sites_panel (md : Module) (w w' : World σ) (placed : List Placed) (k : Nat) :
    (md.panel w w' placed).sites (w.states.length + k) = sitesAt placed k := by
  simp [Module.panel]

/-- The states of the module have neither watchers nor a hook, and its templates name no method for
input. -/
structure Module.Passive (md : Module) (reg : Registry σ) (w : World σ) : Prop where
  watchers : ∀ i ∈ md.instances, (w.behavior i.state).watchers = []
  hook : ∀ i ∈ md.instances, (w.behavior i.state).hook? = none
  methods : ∀ i ∈ md.instances, ∀ c, reg.get? i.selector = some c →
    ∀ a ∈ c.attributes reg, ∀ method, Binding.ofAttribute a ≠ .listen "input" method

section Panel

variable {placed : List Placed}

theorem mem_states_panel (hassembled : Assembled w.states.length ⟨w', md.instances⟩ placed)
    {s : StateId} : s ∈ (md.panel w w' placed).states ↔
      ∃ k i, md.instances[k]? = some i ∧ i.state = s ∧ s = w.states.length + k := by
  simp only [Module.panel, List.mem_map]
  constructor
  · rintro ⟨i, hi, rfl⟩
    obtain ⟨k, hk⟩ := List.mem_iff_getElem?.1 hi
    exact ⟨k, i, hk, rfl, (hassembled.joined.instances k i hk).1⟩
  · rintro ⟨k, i, hk, hstate, -⟩
    exact ⟨i, List.mem_of_getElem? hk, hstate⟩

/-- What stands in the container of an instance was rendered for its component, with the sites. -/
def Module.Placed (md : Module) (reg : Registry σ) (w w' : World σ) (placed : List Placed) : Prop :=
  ∀ k i, md.instances[k]? = some i → ∃ c, reg.get? i.selector = some c ∧
  Rendered reg w'.document c.template
    ((w'.document.children i.container).drop (w.document.children i.container).length)
      (sitesAt placed k)

/-- The sites of an instance are new, and listen to input as their attributes say. -/
theorem sites_mount (hroot : root < w.document.nodes.length) (hl : w.ListensWithin)
    (hmount : w.mount components root = (.ok md, w'))
    (hpassive : md.Passive (Registry.empty.registerAll components w.log).1 w')
    (hplaced : md.Placed (Registry.empty.registerAll components w.log).1 w w' placed) {k : Nat}
    {i : Instance}
    (hk : md.instances[k]? = some i) {x : Site} (hx : x ∈ sitesAt placed k) :
    w.document.nodes.length ≤ x.node ∧ (w'.listenersFor x.node "input").map (·.callback) =
      x.models.map (Render.inputScript x.node i.state) := by
  obtain ⟨c, hget, hrendered⟩ := hplaced k i hk
  obtain ⟨c', first, hi, below, hget', hfirst, hbuilt⟩ :=
    filled_mount hroot hmount (List.mem_of_getElem? hk)
  obtain rfl := Option.some.inj (hget.symm.trans hget')
  obtain ⟨hnew, hduties⟩ := hbuilt.duties_eq hrendered hx
  refine ⟨Nat.le_trans hfirst hnew, ?_⟩
  rw [callback_listenersFor, hduties hl]
  exact input_duties c i.state x.node fun a ha =>
    hpassive.methods i (List.mem_of_getElem? hk) c hget a (hrendered.mem_attributesIn hx ha)

/-- After a mount of a passive module everything is at rest. -/
private theorem rests_mount (hroot : root < w.document.nodes.length) (hl : w.ListensWithin)
    (hmount : w.mount components root = (.ok md, w'))
    (hpassive : md.Passive (Registry.empty.registerAll components w.log).1 w')
    (hassembled : Assembled w.states.length ⟨w', md.instances⟩ placed)
    (hplaced : md.Placed (Registry.empty.registerAll components w.log).1 w w' placed) :
    (md.panel w w' placed).Rests w' := by
  have hsubject (k : Nat) (hk : k < md.instances.length) :
      w'.subject (.state (w.states.length + k)) = Sync.subject (syncsAt placed k) :=
    hassembled.joined.subject k hk
  constructor
  case named =>
    intro s hs
    obtain ⟨k, i, hk, -, rfl⟩ := (mem_states_panel hassembled).1 hs
    have hlt := (List.getElem?_eq_some_iff.1 hk).1
    have hstates : w'.states.length = w.states.length + md.instances.length :=
      hassembled.joined.states
    have hmade : w.states.length + k < w'.states.length := hstates ▸ Nat.add_lt_add_left hlt _
    exact hmade
  case attended =>
    intro s hs
    obtain ⟨k, i, hk, -, rfl⟩ := (mem_states_panel hassembled).1 hs
    rw [hsubject k (List.getElem?_eq_some_iff.1 hk).1]
    refine ⟨fun id hid => ⟨Nat.le_add_right _ _, ?_⟩, [], ?_, nofun⟩
    · rw [hsubject k (List.getElem?_eq_some_iff.1 hk).1]
      rwa [wiring_panel, wiringOf_add] at hid
    · rw [wiring_panel, wiringOf_add, List.append_nil]
      rfl
  case idle =>
    intro s hs
    obtain ⟨k, i, hk, -, rfl⟩ := (mem_states_panel hassembled).1 hs
    rw [hsubject k (List.getElem?_eq_some_iff.1 hk).1]
    exact Sync.idle_subject _
  case watchers =>
    intro s hs
    obtain ⟨i, hi, rfl⟩ := List.mem_map.1 hs
    exact hpassive.watchers i hi
  case hook =>
    intro s hs
    obtain ⟨i, hi, rfl⟩ := List.mem_map.1 hs
    exact hpassive.hook i hi
  case owns =>
    rintro _ ⟨s, hs, x, hx, rfl⟩ l hlistener
    obtain ⟨k, i, hk, -, rfl⟩ := (mem_states_panel hassembled).1 hs
    rw [sites_panel] at hx
    obtain ⟨hnew, -⟩ := sites_mount hroot hl hmount hpassive hplaced hk hx
    obtain ⟨haccounts, hholds⟩ := accounts_mount hmount
    obtain ⟨made, hmade, hheld⟩ := haccounts.listeners
    simp only [World.listenersFor, World.listenersAt, List.mem_filter, beq_iff_eq] at hlistener
    obtain ⟨⟨hmem, hnode⟩, -⟩ := hlistener
    rcases List.mem_append.1 (hmade ▸ hmem) with hold | hadded
    · -- A listener that was there before stands at a node that was there before.
      exact absurd (hnode ▸ hl l hold) (Nat.not_lt_of_le hnew)
    · exact (hholds.listeners l.id).1 (hheld l hadded)
  case rendered =>
    intro s hs x hx
    obtain ⟨k, i, hk, -, rfl⟩ := (mem_states_panel hassembled).1 hs
    rw [sites_panel] at hx
    exact hassembled.displayed.node_lt _ (mem_sitesAt.1 hx)
  case controls =>
    intro s hs x hx
    obtain ⟨k, i, hk, hstate, rfl⟩ := (mem_states_panel hassembled).1 hs
    rw [sites_panel] at hx
    rw [← hstate]
    exact (sites_mount hroot hl hmount hpassive hplaced hk hx).2

/-- A property that one attribute alone ties to a path is watched, and in tune after the mount. -/
theorem watches_mount (hassembled : Assembled w.states.length ⟨w', md.instances⟩ placed)
    {s : StateId} (hs : s ∈ (md.panel w w' placed).states)
    (hplain : ∀ b ∈ (md.panel w w' placed).wiring s, b.path.isPlain = true) {x : Site}
    (hx : x ∈ (md.panel w w' placed).sites s) {before after : List Markup.Attribute}
    {a : Markup.Attribute}
    {property : String} {path : Path} (hties : x.Ties before a after property path) :
    (md.panel w w' placed).Watches s ⟨x.node, property, path⟩ ∧
      (md.panel w w' placed).InTune s w' ⟨x.node, property, path⟩ := by
  obtain ⟨k, i, hk, -, rfl⟩ := (mem_states_panel hassembled).1 hs
  rw [sites_panel] at hx
  obtain ⟨v, hv, hholds⟩ :=
    hassembled.displayed.inStep _ (mem_sitesAt.1 hx) before a after property path hties
  have hread : path.valueOrNull (w'.data (w.states.length + k)) = v := by
    rw [Path.valueOrNull, hv]
  have hsole := hassembled.displayed.sole hx hties
  rw [← wiring_panel md w w'] at hsole
  have hmem : ⟨x.node, property, path⟩ ∈ (md.panel w w' placed).wiring (w.states.length + k) := by
    obtain ⟨id, hid, -⟩ := hsole
    exact List.mem_of_getElem? hid
  exact ⟨⟨hs, hsole, Path.isProper_of_get hv, hplain _ hmem⟩, v, hholds, .inl hread.symm⟩

end Panel

end Mounted

/-! ## A form -/

/-- A component with an input for a name, and a place that shows the name and the first name in
it. -/
def form : Component Unit where
  selector := "page"
  template := [.element "input" [⟨"bind-model", "name"⟩] [],
    .element "p" [⟨"bind-title", "name"⟩, ⟨"bind-lang", "name.first"⟩] []]
  initial := .object [("name", .object [("first", .string "a")])]
  selector_lower := greeter.selector_lower

/-- What mounting the form leaves behind. -/
def formPage : World Unit where
  memory := ()
  log := [World.mountedRecord "page" 1]
  states := [{
    data := form.initial
    changes := Sync.subject
      [⟨2, "value", ⟨["name"]⟩⟩, ⟨3, "title", ⟨["name"]⟩⟩, ⟨3, "lang", ⟨["name", "first"]⟩⟩] }]
  document :=
    { nodes := [{ kind := .element "page", children := [1, 2, 3] }, { kind := .text "x" },
        { kind := .element "input", properties := [("value", .object [("first", .string "a")])] },
        { kind := .element "p"
          properties := [("lang", .string "a"), ("title", .object [("first", .string "a")])] }]
      mutations := 7 }
  listeners :=
    [⟨0, 0, "click", none, .done⟩, ⟨1, 2, "input", some 0, Render.inputScript 2 0 ⟨["name"]⟩⟩]
  nextListener := 2

private theorem bindings_form : Binding.ofAttribute ⟨"bind-model", "name"⟩ = .model ⟨["name"]⟩ ∧
    Binding.ofAttribute ⟨"bind-title", "name"⟩ = .property "title" ⟨["name"]⟩ ∧
    Binding.ofAttribute ⟨"bind-lang", "name.first"⟩ = .property "lang" ⟨["name", "first"]⟩ := by
  refine ⟨?_, ?_, ?_⟩ <;> decide +kernel

open Render in
/-- The rendering when the input of the form has been bound. -/
def formInput : Rendering Unit :=
  let input : NodeData :=
    { kind := .element "input", properties := [("value", .object [("first", .string "a")])] }
  listening 0 0 2 "input" (inputScript 2 0 ⟨["name"]⟩)
    (subscribed 0 0 (syncScript 2 "value" ⟨["name"]⟩)
      { instantiated form 0 ⟨busyPage, []⟩ with
        world.document := { nodes := busyPage.document.nodes ++ [input], mutations := 2 } })

/-- The rendering when all of the form has been bound. -/
def formBound : Rendering Unit where
  world := { formPage with
    log := []
    document :=
      { nodes := { kind := .element "page", children := [1] } :: formPage.document.nodes.drop 1
        mutations := 5 } }
  instances := [⟨"page", 0, 0, [0, 1, 2], [1]⟩]

open Render in
private theorem renderNode_form_input {reg : Registry Unit} (hinput : reg.get? "input" = none) :
    reg.renderNode ["page"] form 0 0 (.element "input" [⟨"bind-model", "name"⟩] [])
      (instantiated form 0 ⟨busyPage, []⟩) = .ok 2 formInput := by
  have hsame : Text.sameLetters "input" "input" = true := by decide +kernel
  simp only [renderNode_element hinput, Registry.renderChildren, bindAll, bindings_form.1,
    bindAttribute, hsame, if_true, bind, EStateM.bind]
  rfl

open Render in
private theorem renderNode_form_p {reg : Registry Unit} (hp : reg.get? "p" = none) :
    reg.renderNode ["page"] form 0 0
      (.element "p" [⟨"bind-title", "name"⟩, ⟨"bind-lang", "name.first"⟩] [])
      formInput = .ok 3 formBound := by
  obtain ⟨-, htitle, hlang⟩ := bindings_form
  simp only [renderNode_element hp, Registry.renderChildren, bindAll, htitle, hlang,
    bindAttribute, bind, EStateM.bind]
  rfl

open Render in
private theorem mount_form : busyPage.mount [form] 0 =
    (.ok ⟨0, ["page"], [⟨"page", 0, 0, [0, 1, 2], [1]⟩]⟩, formPage) := by
  have hpage : (Registry.empty.registerAll [form] []).1.get? "page" = some form := rfl
  have hinput : (Registry.empty.registerAll [form] []).1.get? "input" = none := rfl
  have hp : (Registry.empty.registerAll [form] []).1.get? "p" = none := rfl
  have htag : Text.lower (busyPage.document.tag 0) = "page" := by decide +kernel
  have htemplate : form.template = [.element "input" [⟨"bind-model", "name"⟩] [],
    .element "p" [⟨"bind-title", "name"⟩, ⟨"bind-lang", "name.first"⟩] []] := rfl
  have hcomponent : (Registry.empty.registerAll [form] []).1.renderComponent [] form
      (Registry.mem_of_get? hpage) 0 ⟨busyPage, []⟩ = .ok [2, 3] formBound := by
    rw [renderComponent_fresh (by decide +kernel), htemplate, Registry.renderNodes,
      Registry.renderNodes, Registry.renderNodes]
    exact (bind_of_ok (renderNode_form_input hinput)).trans
      (bind_of_ok (bind_of_ok (renderNode_form_p hp)))
  have happend : appendAll 0 [2, 3] formBound =
      .ok () ⟨{ formPage with log := [] }, [⟨"page", 0, 0, [0, 1, 2], [1]⟩]⟩ := rfl
  have hrender : World.renderRoot (Registry.empty.registerAll [form] []).1 0 "page" ⟨busyPage, []⟩ =
      .ok () ⟨{ formPage with log := [] }, [⟨"page", 0, 0, [0, 1, 2], [1]⟩]⟩ := by
    rw [renderRoot_registered hpage, bind_of_ok hcomponent, happend]
  exact mount_of_renderRoot htag hrender

/-- The elements of the form. -/
private theorem rendered_form {reg : Registry Unit} (hinput : reg.get? "input" = none)
    (hp : reg.get? "p" = none)
    {sites : List Site} (h : Rendered reg formPage.document form.template [2, 3] sites) :
    sites = [⟨2, "input", [⟨"bind-model", "name"⟩]⟩,
      ⟨3, "p", [⟨"bind-title", "name"⟩, ⟨"bind-lang", "name.first"⟩]⟩] := by
  cases h with
  | nested registered => simp [Registry.contains, hinput] at registered
  | element _ _ _ _ inside rest =>
    cases inside
    cases rest with
    | nested registered => simp [Registry.contains, hp] at registered
    | element _ _ _ _ inside rest =>
      cases inside
      cases rest
      rfl

private theorem attributes_form {reg : Registry Unit} (hinput : reg.get? "input" = none)
    (hp : reg.get? "p" = none) :
    form.attributes reg =
      [⟨"bind-model", "name"⟩, ⟨"bind-title", "name"⟩, ⟨"bind-lang", "name.first"⟩] := by
  have htemplate : form.template = [.element "input" [⟨"bind-model", "name"⟩] [],
    .element "p" [⟨"bind-title", "name"⟩, ⟨"bind-lang", "name.first"⟩] []] := rfl
  simp [Component.attributes, htemplate, Markup.attributesIn, Markup.Node.attributesWithin,
    Registry.contains, hinput, hp]

private theorem passive_form : Module.Passive ⟨0, ["page"], [⟨"page", 0, 0, [0, 1, 2], [1]⟩]⟩
    (Registry.empty.registerAll [form] []).1 formPage := by
  have hpage : (Registry.empty.registerAll [form] []).1.get? "page" = some form := rfl
  have hinput : (Registry.empty.registerAll [form] []).1.get? "input" = none := rfl
  have hp : (Registry.empty.registerAll [form] []).1.get? "p" = none := rfl
  obtain ⟨hmodel, htitle, hlang⟩ := bindings_form
  refine ⟨by simp [formPage, World.behavior], by simp [formPage, World.behavior], ?_⟩
  intro i hi c hget a ha method
  obtain rfl := List.mem_singleton.1 hi
  obtain rfl : form = c := Option.some.inj (hpage.symm.trans hget)
  rw [attributes_form hinput hp] at ha
  simp only [List.mem_cons, List.not_mem_nil, or_false] at ha
  rcases ha with rfl | rfl | rfl
  · simp [hmodel]
  · simp [htitle]
  · simp [hlang]

/-- A run that writes another name into the form. -/
def formRenamed : Machine Unit :=
  Machine.run 18 ⟨formPage,
    [.run (.set 0 ⟨["name"]⟩ (.object [("first", .string "b")]) fun _ => .done)]⟩

private theorem stack_formRenamed : formRenamed.stack = [] := List.isEmpty_iff.1 (by decide +kernel)

private theorem data_formRenamed :
    formRenamed.world.data 0 = .object [("name", .object [("first", .string "b")])] := rfl

/-! ## The round trip of a mounted input -/

/-- Typing makes a round trip. In a mounted module without watchers, hooks and methods for input,
take an element with `bind-model` that has no other attribute for its value. From the mount on there
may have been writes to the states and typing into the inputs, at paths that spell numbers plainly
and do not lead below a bound path of the instance, and scripts that are quiet. If something can be
written at the path of the element, then typing a text into it writes the text there: what is tied
to the path shows the text, what is tied to a path below it shows null, and a change is emitted
unless the text was there before. Another input event at the element changes nothing and emits
nothing. -/
theorem World.typing_round_trip {w w' : World σ} {components : List (Component σ)}
    {root : NodeId} {md : Module} (hroot : root < w.document.nodes.length) (hl : w.ListensWithin)
    (hmount : w.mount components root = (.ok md, w'))
    (hpassive : md.Passive (Registry.empty.registerAll components w.log).1 w') :
    let reg := (Registry.empty.registerAll components w.log).1
    ∃ P : Panel, P.states = md.instances.map (·.state) ∧ P.made = .madeBetween w w' ∧
      (∀ i ∈ md.instances, ∃ c, reg.get? i.selector = some c ∧ Rendered reg w'.document c.template
        ((w'.document.children i.container).drop (w.document.children i.container).length)
          (P.sites i.state)) ∧
      ∀ i ∈ md.instances, (∀ b ∈ P.wiring i.state, b.path.isPlain = true) →
        ∀ x ∈ P.sites i.state, ∀ before a after p, x.Ties before a after "value" p →
          Binding.ofAttribute a = .model p →
          ∀ w₁, P.Usage i.state w' w₁ → ∀ slot, p.slot (w₁.data i.state) = .ok slot →
          ∀ text : String, ∃ t w₂, Machine.Reaches ⟨w₁, [.run (.typing x.node text)]⟩ t ⟨w₂, []⟩ ∧
              (∃ previous, p.set (w₁.data i.state) (.string text) =
                .ok (previous, w₂.data i.state) ∧ (previous = .string text → Silent t) ∧
                (previous ≠ .string text →
                  emissions (Machine.atSubject (.state i.state) t) =
                    [.change ⟨p, previous, .string text⟩] ∧
                  ∀ source, source ≠ .state i.state →
                  emissions (Machine.atSubject source t) = [])) ∧
              (∀ y ∈ P.sites i.state, ∀ before a after property q,
                y.Ties before a after property q →
                (q = p → w₂.document.Shows y.node property (.string text)) ∧
                (p.isAbove q = true → w₂.document.Shows y.node property .null)) ∧
              ∃ u, Machine.Reaches ⟨w₂, [.run (.dispatch x.node "input" fun _ => .done)]⟩ u
                ⟨w₂, []⟩ ∧ Silent u := by
  intro reg
  obtain ⟨placed, hassembled, hplaced⟩ := assembled_mount hroot hmount
  have hstate {k : Nat} {i : Instance} (hk : md.instances[k]? = some i) :
      i.state = w.states.length + k :=
    (hassembled.joined.instances k i hk).1
  refine ⟨md.panel w w' placed, rfl, rfl, fun i hi => ?_, ?_⟩
  · obtain ⟨k, hk⟩ := List.mem_iff_getElem?.1 hi
    rw [hstate hk, sites_panel]
    exact hplaced k i hk
  intro i hi hplain x hx before a after p hties hmodel w₁ husage slot hslot text
  have hs : i.state ∈ (md.panel w w' placed).states := List.mem_map_of_mem hi
  obtain ⟨hrests, htunes⟩ := husage.keeps (rests_mount hroot hl hmount hpassive hassembled hplaced)
  obtain ⟨hwatches, -⟩ := watches_mount hassembled hs hplain hx hties
  obtain ⟨t, w₂, htrip⟩ :=
    hrests.roundTrip hs hx (Site.models_of_ties hties hmodel) hwatches hslot text
  refine ⟨t, w₂, htrip.ends, htrip.writes, ?_, htrip.again⟩
  intro y hy before a after property q hties'
  obtain ⟨hwatches', htune⟩ := watches_mount hassembled hs hplain hy hties'
  have hshows := htrip.shows _ hwatches' (htunes _ hwatches' htune)
  refine ⟨fun hq => ?_, fun habove => ?_⟩
  · subst hq
    exact (hshows .blank (Path.after?_self q)).shows
  · cases hafter : p.after? q with
    | none => simp [Path.isAbove, hafter] at habove
    | some rest =>
      obtain ⟨next, ways, hrest⟩ := List.exists_cons_of_ne_nil (l := rest.segments) (by
        simpa [Path.isAbove, hafter] using habove)
      have hnull := hshows rest hafter
      rw [hrest] at hnull
      exact hnull.shows

/-- A name is written into the form, and then another one is typed. -/
theorem World.typing_round_trip_form :
    let w₁ := formRenamed.world
    ∃ t w₂, Machine.Reaches ⟨w₁, [.run (.typing 2 "c")]⟩ t ⟨w₂, []⟩ ∧
      emissions (Machine.atSubject (.state 0) t) =
        [.change ⟨⟨["name"]⟩, .object [("first", .string "b")], .string "c"⟩] ∧
      w₂.document.Shows 2 "value" (.string "c") ∧ w₂.document.Shows 3 "title" (.string "c") ∧
      w₂.document.Shows 3 "lang" .null := by
  intro w₁
  obtain ⟨hmodel, htitle, hlang⟩ := bindings_form
  have hlistens : busyPage.ListensWithin := by
    intro l hl
    obtain rfl := List.mem_singleton.1 hl
    exact Nat.succ_pos 1
  obtain ⟨P, hstates, -, hsites, htrip⟩ :=
    World.typing_round_trip (show 0 < 2 by decide) hlistens mount_form passive_form
  obtain ⟨c, hget, hrendered⟩ := hsites _ List.mem_cons_self
  obtain rfl : form = c := Option.some.inj (Eq.trans rfl hget)
  have hform : P.sites 0 = _ := rendered_form rfl rfl hrendered
  have hwiring : P.wiring 0 =
      [⟨2, "value", ⟨["name"]⟩⟩, ⟨3, "title", ⟨["name"]⟩⟩, ⟨3, "lang", ⟨["name", "first"]⟩⟩] := by
    have hsyncs : P.wiring 0 = (P.sites 0).flatMap Site.syncs := rfl
    rw [hsyncs, hform]
    simp [Site.syncs, Markup.Attribute.tied?, Binding.tied?, hmodel, htitle, hlang]
  have hplain : ∀ b ∈ P.wiring 0, b.path.isPlain = true := by
    rw [hwiring]
    decide +kernel
  have hallowed : P.Allows 0 ⟨["name"]⟩ := by
    refine ⟨by decide +kernel, ?_⟩
    rw [hwiring]
    decide +kernel
  have hends : Machine.Reaches _ _ ⟨w₁, []⟩ := Machine.reaches_run stack_formRenamed
  have husage : P.Usage 0 formPage w₁ :=
    .write .start (hstates ▸ List.mem_cons_self) (fun _ => hallowed) hends
  obtain ⟨slot, hslot, hcontent⟩ : ∃ slot, Path.slot ⟨["name"]⟩ (w₁.data 0) = .ok slot ∧
      slot.content = .object [("first", .string "b")] := by
    rw [data_formRenamed]
    exact ⟨_, rfl, rfl⟩
  have hvalue :
      (⟨2, "input", [⟨"bind-model", "name"⟩]⟩ : Site).Ties [] ⟨"bind-model", "name"⟩ [] "value"
      ⟨["name"]⟩ := ⟨rfl, congrArg Binding.tied? hmodel, by simp⟩
  have hshown : (⟨3, "p", [⟨"bind-title", "name"⟩, ⟨"bind-lang", "name.first"⟩]⟩ : Site).Ties []
      ⟨"bind-title", "name"⟩ [⟨"bind-lang", "name.first"⟩] "title" ⟨["name"]⟩ :=
    ⟨rfl, congrArg Binding.tied? htitle, by decide +kernel⟩
  have hbelow : (⟨3, "p", [⟨"bind-title", "name"⟩, ⟨"bind-lang", "name.first"⟩]⟩ : Site).Ties
      [⟨"bind-title", "name"⟩] ⟨"bind-lang", "name.first"⟩ [] "lang" ⟨["name", "first"]⟩ :=
    ⟨rfl, congrArg Binding.tied? hlang, by decide +kernel⟩
  obtain ⟨t, w₂, hreaches, ⟨previous, hset, -, hwritten⟩, hshows, -⟩ :=
    htrip _ List.mem_cons_self hplain _
      (hform ▸ List.mem_cons_self) _ _ _ _ hvalue hmodel w₁ husage slot hslot "c"
  have hp : ⟨3, "p", [⟨"bind-title", "name"⟩, ⟨"bind-lang", "name.first"⟩]⟩ ∈ P.sites 0 :=
    hform ▸ List.mem_cons_of_mem _ List.mem_cons_self
  obtain ⟨found, hfound, hprevious, -⟩ := Path.slot_of_set hset
  obtain rfl : found = slot := Except.ok.inj (hfound.symm.trans hslot)
  rw [hcontent] at hprevious
  subst hprevious
  refine ⟨t, w₂, hreaches, (hwritten (by simp)).1, ?_, ?_, ?_⟩
  · exact (hshows _ (hform ▸ List.mem_cons_self) _ _ _ _ _ hvalue).1 rfl
  · exact (hshows _ hp _ _ _ _ _ hshown).1 rfl
  · exact (hshows _ hp _ _ _ _ _ hbelow).2 (by decide +kernel)

end ReactiveMarkup
