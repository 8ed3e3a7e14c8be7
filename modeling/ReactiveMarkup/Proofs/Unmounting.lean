-- SUMMARY: Unmounting takes away what the mount has registered, and nothing else.
import ReactiveMarkup.Proofs.Freshness
import ReactiveMarkup.Proofs.Release
import ReactiveMarkup.Proofs.Sessions

/-!
# Unmounting

A module holds the numbers of exactly those listeners and subscribers that its mount registered, so
unmounting takes these away and nothing else, whatever has been done in between. A dispatch or a
delivery that is going on meanwhile keeps those of them in line that it has seen registered: they
may still be called, and no others are.
-/

namespace ReactiveMarkup

variable {σ : Type}

instance (w w' : World σ) : DecidablePred (Callbacks.madeBetween w w').Has
  | .listener id _ => inferInstanceAs (Decidable (w.nextListener ≤ id ∧ id < w'.nextListener))
  | .subscriber (.state s) id =>
    inferInstanceAs (Decidable (w.states.length ≤ s ∧ id < (w'.subject (.state s)).nextId))
  | .subscriber (.own _) _ => .isFalse id
  | .watcher _ _ | .hook _ _ | .task => .isFalse id

/-! ## What a module holds -/

namespace Render

/-- The instances hold the numbers of the listeners that were registered since the world was as
given. -/
structure Holds (w : World σ) (r : Rendering σ) : Prop where
  numbers_le : w.nextListener ≤ r.world.nextListener
  listeners : ∀ id, (∃ i ∈ r.instances, id ∈ i.listeners) ↔
    w.nextListener ≤ id ∧ id < r.world.nextListener

section Holds

variable {w : World σ} {r r' : Rendering σ} {may : NodeId → Prop}

private theorem holds_start (log : Log) : Holds w ⟨{ w with log }, []⟩ where
  numbers_le := Nat.le_refl _
  listeners id := by
    refine ⟨nofun, fun ⟨hge, hlt⟩ => ?_⟩
    exact absurd hge (Nat.not_le_of_lt hlt)

/-- When the instance at a place comes to hold more listeners, the instances hold these besides the
others. -/
theorem exists_listener_modify {l : List Instance} {place : Nat} {i : Instance}
    {f : Instance → Instance} {added : List ListenerId} (hplace : l[place]? = some i)
    (hf : ∀ i, (f i).listeners = i.listeners ++ added) (id : ListenerId) :
    (∃ i ∈ l.modify place f, id ∈ i.listeners) ↔ (∃ i ∈ l, id ∈ i.listeners) ∨ id ∈ added := by
  constructor
  · rintro ⟨i, hi, hid⟩
    obtain hi | ⟨j, hj, rfl⟩ := mem_modify hi
    · exact .inl ⟨i, hi, hid⟩
    · rw [hf, List.mem_append] at hid
      exact hid.imp_left fun hid => ⟨j, hj, hid⟩
  · rintro (⟨i, hi, hid⟩ | hid)
    · obtain ⟨j, hj, rfl | rfl⟩ := exists_mem_modify hi
      · exact ⟨_, hj, hid⟩
      · exact ⟨_, hj, hf i ▸ List.mem_append_left _ hid⟩
    · exact ⟨_, mem_modify_self hplace, hf i ▸ List.mem_append_right _ hid⟩

theorem Holds.move (h : Holds w r) (hm : Move may r r') : Holds w r' := by
  cases hm with
  | edit _ _ => exact ⟨h.numbers_le, h.listeners⟩
  | instantiate c container =>
    refine ⟨h.numbers_le, fun id => ?_⟩
    simpa [instantiated, Component.instantiate, World.newState] using h.listeners id
  | subscribe callback owner =>
    obtain ⟨i, hi, -⟩ := owner
    refine ⟨h.numbers_le, fun id => ?_⟩
    refine Iff.trans (@exists_listener_modify _ _ _ _ [] hi ?_ id) ?_
    · exact fun j => (List.append_nil j.listeners).symm
    · rw [h.listeners]
      exact or_iff_left List.not_mem_nil
  | listen event callback owner _ _ =>
    obtain ⟨i, hi, -⟩ := owner
    refine ⟨Nat.le_succ_of_le h.numbers_le, fun id => ?_⟩
    refine Iff.trans (exists_listener_modify hi (fun _ => rfl) id) ?_
    have hnew : id = r.world.nextListener → w.nextListener ≤ id := fun he => he ▸ h.numbers_le
    rw [h.listeners, List.mem_singleton, ← and_iff_right_of_imp hnew, ← and_or_left]
    exact and_congr_right fun _ => Nat.lt_succ_iff_lt_or_eq.symm

theorem Holds.moves (h : Holds w r) (hm : Moves may r r') : Holds w r' := by
  induction hm with
  | refl => exact h
  | tail _ last ih => exact ih.move last

end Holds

end Render

section Mounted

variable {w w' v : World σ} {components : List (Component σ)} {root : NodeId} {md : Module}

/-- A mount accounts for everything that it registers, and its instances hold the numbers of it. -/
theorem accounts_mount (hmount : w.mount components root = (.ok md, w')) :
    Render.Accounts w ⟨w', md.instances⟩ ∧ Render.Holds w ⟨w', md.instances⟩ := by
  obtain ⟨log, r', hmoves, ⟨e, hfailed⟩ | ⟨md', entry, hok, hinstances⟩⟩ :=
    moves_mount w components root
  · cases hfailed.symm.trans hmount
  · obtain ⟨rfl, rfl⟩ : md' = md ∧ r'.world.write entry = w' := by
      cases hok.symm.trans hmount
      exact ⟨rfl, rfl⟩
    have haccounts := (Render.accounts_start log).moves hmoves
    have hholds := (Render.holds_start log).moves hmoves
    rw [hinstances]
    exact ⟨{ haccounts with }, ⟨hholds.numbers_le, hholds.listeners⟩⟩

/-- Each instance has a state of its own and holds the numbers of all that have subscribed to it. -/
theorem subscriptions_mount (hroot : root < w.document.nodes.length)
    (hmount : w.mount components root = (.ok md, w')) {k : Nat} {i : Instance}
    (hk : md.instances[k]? = some i) :
    i.state = w.states.length + k ∧
    i.subscriptions = List.range (w'.subject (.state i.state)).nextId := by
  obtain ⟨placed, hassembled, -⟩ := assembled_mount hroot hmount
  obtain ⟨hstate, hids⟩ := hassembled.joined.instances k i hk
  have hsubject := hassembled.joined.subject k (List.getElem?_eq_some_iff.1 hk).1
  refine ⟨hstate, ?_⟩
  rw [hstate, hsubject]
  exact hids

/-- The subscriptions of the instances at a source are the numbers that it gave out during the
mount. -/
theorem mem_subscriptionsAt_mount (hroot : root < w.document.nodes.length)
    (hmount : w.mount components root = (.ok md, w')) (source : SubjectId) (id : Nat) :
    id ∈ World.subscriptionsAt source md.instances ↔
    (Callbacks.madeBetween w w').subscriber source id := by
  rw [World.subscriptionsAt, List.mem_flatMap]
  constructor
  · rintro ⟨i, hi, hid⟩
    split at hid
    · next he =>
      obtain ⟨k, hk⟩ := List.mem_iff_getElem?.1 hi
      obtain ⟨hstate, hids⟩ := subscriptions_mount hroot hmount hk
      rw [← he]
      exact ⟨hstate ▸ Nat.le_add_right _ _, List.mem_range.1 (hids ▸ hid)⟩
    · cases hid
  · cases source with
    | own number => exact False.elim
    | state s =>
      rintro ⟨hge, hlt⟩
      obtain ⟨k, rfl⟩ := Nat.exists_eq_add_of_le hge
      -- A state that the mount did not make has given out no number.
      have hk : k < md.instances.length := by
        refine Nat.lt_of_not_le fun hle => ?_
        obtain ⟨placed, hassembled, -⟩ := assembled_mount hroot hmount
        have hnone : w'.states[w.states.length + k]? = none :=
          List.getElem?_eq_none (hassembled.joined.states ▸ Nat.add_le_add_left hle _)
        rw [World.subject, hnone] at hlt
        exact Nat.not_lt_zero _ hlt
      obtain ⟨hstate, hids⟩ := subscriptions_mount hroot hmount (List.getElem?_eq_getElem hk)
      refine ⟨md.instances[k], List.getElem_mem hk, ?_⟩
      rw [hids, hstate, if_pos rfl]
      exact List.mem_range.2 hlt

/-- The listeners with numbers from the mount are those that came with it. -/
private theorem mem_listeners_mount (hl : w.ListenersNumbered)
    (hmount : w.mount components root = (.ok md, w'))
    (hv : w'.Follows v) {l : Listener σ} (hmem : l ∈ v.listeners) :
    (Callbacks.madeBetween w w').listener l.id ↔ l ∈ w'.listeners ∧ l ∉ w.listeners := by
  obtain ⟨haccounts, hholds⟩ := accounts_mount hmount
  constructor
  · rintro ⟨hge, hlt⟩
    refine ⟨?_, fun hold => Nat.not_le_of_lt (hl l hold) hge⟩
    exact (hv.listeners l hmem).resolve_right fun ⟨hnew, _⟩ => Nat.not_le_of_lt hlt hnew
  · rintro ⟨hmounted, hnew⟩
    obtain ⟨made, hmade, hheld⟩ := haccounts.listeners
    rcases List.mem_append.1 (hmade ▸ hmounted) with hold | hadded
    · exact absurd hold hnew
    · exact (hholds.listeners l.id).1 (hheld l hadded)

/-- The subscribers with numbers from the mount are those that came with it. -/
private theorem mem_subscribers_mount (hroot : root < w.document.nodes.length)
    (hmount : w.mount components root = (.ok md, w')) (hv : w'.Follows v) {source : SubjectId}
    {sub : Subscriber σ} (hmem : sub ∈ (v.subject source).subscribers) :
    (Callbacks.madeBetween w w').subscriber source sub.id ↔
      sub ∈ (w'.subject source).subscribers ∧ sub ∉ (w.subject source).subscribers := by
  obtain ⟨haccounts, -⟩ := accounts_mount hmount
  have hold {s : StateId} (hs : w.states.length ≤ s) : (w.subject (.state s)).subscribers = [] := by
    rw [World.subject, List.getElem?_eq_none hs]
    rfl
  constructor
  · intro hmade
    cases source with
    | own number => exact hmade.elim
    | state s =>
      refine ⟨?_, by simp [hold hmade.1]⟩
      exact (hv.subscribers _ sub hmem).resolve_right fun hnew => Nat.not_le_of_lt hmade.2 hnew
  · rintro ⟨hmounted, hnew⟩
    cases source with
    | own number =>
      have hsame : w'.subject (.own number) = w.subject (.own number) := by
        have hsubjects : w'.subjects = w.subjects := haccounts.subjects
        rw [World.subject, hsubjects]
        rfl
      exact absurd (hsame ▸ hmounted) hnew
    | state s =>
      rcases Nat.lt_or_ge s w.states.length with hlt | hge
      · have hsame : w'.subject (.state s) = w.subject (.state s) := by
          have hstate : w'.states[s]? = w.states[s]? := haccounts.states s hlt
          rw [World.subject, hstate]
          rfl
        exact absurd (hsame ▸ hmounted) hnew
      · obtain ⟨i, hi, rfl, hid⟩ := haccounts.subscribers s hge sub hmounted
        refine (mem_subscriptionsAt_mount hroot hmount _ _).1 (List.mem_flatMap.2 ⟨i, hi, ?_⟩)
        rwa [if_pos rfl]

end Mounted

/-! ## Taking callbacks away -/

/-- The callbacks are not registered any more. All others still are, in their order, and the
document is as it was. -/
structure World.TakenAway (g : Callbacks) [DecidablePred g.Has] (w w' : World σ) : Prop where
  listeners : w'.listeners = w.listeners.filter fun l => ¬ g.Has (.listener l.id l.owner)
  subject : ∀ source, w'.subject source = { w.subject source with
    subscribers := (w.subject source).subscribers.filter fun sub =>
      ¬ g.Has (.subscriber source sub.id) }
  document : w'.document = w.document

section TakenAway

variable {w w' v : World σ} {components : List (Component σ)} {root : NodeId} {md : Module}

/-- Unmounting takes away what the mount has registered. -/
theorem takenAway_unmount (hroot : root < w.document.nodes.length)
    (hmount : w.mount components root = (.ok md, w')) (v : World σ) :
    v.TakenAway (Callbacks.madeBetween w w') (v.unmount md) := by
  obtain ⟨-, hholds⟩ := accounts_mount hmount
  constructor
  case listeners =>
    rw [World.unmount, World.listeners_releaseAll]
    refine List.filter_congr fun l _ => ?_
    have hl : (md.instances.any fun i => i.listeners.contains l.id) = true ↔
        (Callbacks.madeBetween w w').Has (.listener l.id l.owner) := by
      simp only [List.any_eq_true, List.contains_iff_mem]
      exact hholds.listeners l.id
    rw [Bool.eq_iff_iff, Bool.not_eq_true', decide_eq_true_iff, ← hl, Bool.not_eq_true]
  case subject =>
    intro source
    by_cases hs : v.HasSource source
    · rw [World.subject_unmount hs, Subject.foldl_remove]
      congr 1
      refine List.filter_congr fun sub _ => ?_
      have hsub := mem_subscriptionsAt_mount hroot hmount source sub.id
      rw [Bool.eq_iff_iff, Bool.not_eq_true', decide_eq_true_iff, List.contains_eq_mem,
        decide_eq_false_iff_not, hsub]
      exact Iff.rfl
    · have hempty {u : World σ} (hu : ¬ u.HasSource source) : u.subject source = {} := by
        cases source with
        | own number =>
          have hge : u.subjects.length ≤ number := Nat.le_of_not_lt hu
          simp [World.subject, List.getD_eq_getElem?_getD, List.getElem?_eq_none hge]
        | state s =>
          have hge : u.states.length ≤ s := Nat.le_of_not_lt hu
          simp [World.subject, List.getElem?_eq_none hge]
      rw [hempty hs, hempty (mt (World.hasSource_unmount md source).1 hs)]
      rfl
  case document => exact World.document_unmount md

/-- What was taken away does not come back. -/
theorem World.TakenAway.without {u : World σ}
    (h : v.TakenAway (Callbacks.madeBetween w w') u) (hv : w'.Follows v) (hu : v.Follows u) :
    u.Without (Callbacks.madeBetween w w') where
  listeners l hl := by
    rw [h.listeners] at hl
    have hnot : ¬ (Callbacks.madeBetween w w').Has (.listener l.id l.owner) :=
      of_decide_eq_true (List.mem_filter.1 hl).2
    exact hnot
  later id hle hmade :=
    Nat.not_le_of_lt hmade.2 (Nat.le_trans (hv.trans hu).nextListener_le hle)
  subscribers source sub hsub := by
    rw [h.subject] at hsub
    have hnot : ¬ (Callbacks.madeBetween w w').Has (.subscriber source sub.id) :=
      of_decide_eq_true (List.mem_filter.1 hsub).2
    exact hnot
  joining source id hle hmade := by
    cases source with
    | own number => exact hmade
    | state s => exact Nat.not_le_of_lt hmade.2 (Nat.le_trans ((hv.trans hu).nextId_le _) hle)

end TakenAway

/-! ## A component that unmounts itself -/

/-- The module of the component below, mounted into the busy page. -/
def leaverModule : Module := ⟨0, ["page"], [⟨"page", 0, 0, [0], [1, 2]⟩]⟩

/-- A component whose input is listened to twice. The first listener unmounts the module. -/
def leaver : Component Unit where
  selector := "page"
  template := [.element "input" [⟨"on-input", "leave()"⟩, ⟨"bind-model", "name"⟩] []]
  initial := .object [("name", .string "a")]
  methods := [("leave", fun _ => .unmount leaverModule .done)]
  selector_lower := greeter.selector_lower

/-- What mounting it leaves behind. -/
def leaverPage : World Unit where
  memory := ()
  log := [World.mountedRecord "page" 1]
  states := [{ data := leaver.initial, changes := Sync.subject [⟨2, "value", ⟨["name"]⟩⟩] }]
  document :=
    { nodes := [{ kind := .element "page", children := [1, 2] }, { kind := .text "x" },
        { kind := .element "input", properties := [("value", .string "a")] }]
      mutations := 3 }
  listeners := [⟨0, 0, "click", none, .done⟩, ⟨1, 2, "input", some 0, .unmount leaverModule .done⟩,
    ⟨2, 2, "input", some 0, Render.inputScript 2 0 ⟨["name"]⟩⟩]
  nextListener := 3

open Render in
/-- The rendering when its input has been bound. -/
def leaverBound : Rendering Unit :=
  let input : NodeData := { kind := .element "input", properties := [("value", .string "a")] }
  listening 0 0 2 "input" (inputScript 2 0 ⟨["name"]⟩)
    (subscribed 0 0 (syncScript 2 "value" ⟨["name"]⟩)
      (listening 0 0 2 "input" (.unmount leaverModule .done)
        { instantiated leaver 0 ⟨busyPage, []⟩ with
          world.document := { nodes := busyPage.document.nodes ++ [input], mutations := 2 } }))

open Render in
private theorem renderNode_leaver {reg : Registry Unit} (hinput : reg.get? "input" = none) :
    reg.renderNode ["page"] leaver 0 0 (.element "input" [⟨"on-input", "leave()"⟩,
      ⟨"bind-model", "name"⟩] []) (instantiated leaver 0 ⟨busyPage, []⟩) = .ok 2 leaverBound := by
  have hlisten : Binding.ofAttribute ⟨"on-input", "leave()"⟩ = .listen "input" "leave" :=
    by decide +kernel
  have hmodel : Binding.ofAttribute ⟨"bind-model", "name"⟩ = .model ⟨["name"]⟩ := by decide +kernel
  have hsame : Text.sameLetters "input" "input" = true := by decide +kernel
  have hmethod : leaver.method? "leave" = some fun _ => .unmount leaverModule .done := rfl
  simp only [renderNode_element hinput, Registry.renderChildren, bindAll, hlisten, hmodel,
    bindAttribute, hsame, hmethod, if_true, bind, EStateM.bind]
  rfl

open Render in
private theorem mount_leaver : busyPage.mount [leaver] 0 = (.ok leaverModule, leaverPage) := by
  have hpage : (Registry.empty.registerAll [leaver] []).1.get? "page" = some leaver := rfl
  have hinput : (Registry.empty.registerAll [leaver] []).1.get? "input" = none := rfl
  have htag : Text.lower (busyPage.document.tag 0) = "page" := by decide +kernel
  have htemplate : leaver.template =
      [.element "input" [⟨"on-input", "leave()"⟩, ⟨"bind-model", "name"⟩] []] := rfl
  have hcomponent : (Registry.empty.registerAll [leaver] []).1.renderComponent [] leaver
      (Registry.mem_of_get? hpage) 0 ⟨busyPage, []⟩ = .ok [2] leaverBound := by
    rw [renderComponent_fresh (by decide +kernel), htemplate, Registry.renderNodes]
    refine (bind_of_ok (renderNode_leaver hinput)).trans ?_
    rw [Registry.renderNodes]
    rfl
  have happend : appendAll 0 [2] leaverBound =
      .ok () ⟨{ leaverPage with log := [] }, leaverModule.instances⟩ := rfl
  have hrender :
      World.renderRoot (Registry.empty.registerAll [leaver] []).1 0 "page" ⟨busyPage, []⟩ =
      .ok () ⟨{ leaverPage with log := [] }, leaverModule.instances⟩ := by
    rw [renderRoot_registered hpage, bind_of_ok hcomponent, happend]
  exact mount_of_renderRoot htag hrender

/-! ## Unmounting in a session -/

namespace Machine

variable {w w' : World σ} {components : List (Component σ)} {root : NodeId} {md : Module}
  {stack₀ stack : List (Frame σ)} {called₀ : List Callee} {m : Machine σ} {next : Script σ}

theorem step_unmount (hm : m.stack = .run (.unmount md next) :: stack) :
    m.step = ⟨m.world.unmount md, .run next :: stack⟩ := by
  rw [step, hm]
  rfl

/-- Unmounting leaves in line whoever is in line. -/
theorem line_unmount (hm : m.stack = .run (.unmount md next) :: stack) :
    m.step.line = stack.flatMap Frame.line := by
  rw [step_unmount hm]
  rfl

/-- After unmounting, the callbacks of the module are not registered. -/
theorem without_unmount (hroot : root < w.document.nodes.length)
    (hmount : w.mount components root = (.ok md, w')) (hs : Session ⟨w', stack₀⟩ called₀ m)
    (hm : m.stack = .run (.unmount md next) :: stack) :
    m.step.world.Without (Callbacks.madeBetween w w') := by
  rw [step_unmount hm]
  exact (takenAway_unmount hroot hmount m.world).without hs.follows (.unmount md)

/-- Unmounting a module while nobody is in line in a dispatch or a delivery takes away the listeners
and subscribers that its mount has registered, and leaves all others and the document as they are.
None of what was taken away is registered or called again, whatever the session goes on to do. -/
theorem unmount_releases (hroot : root < w.document.nodes.length) (hl : w.ListenersNumbered)
    (hmount : w.mount components root = (.ok md, w')) (hs : Session ⟨w', stack₀⟩ called₀ m)
    (hm : m.stack = .run (.unmount md next) :: stack) (hidle : ∀ f ∈ stack, f.line = []) :
    let made := Callbacks.madeBetween w w'
    (∀ l ∈ m.world.listeners, made.listener l.id ↔ l ∈ w'.listeners ∧ l ∉ w.listeners) ∧
      (∀ source, ∀ sub ∈ (m.world.subject source).subscribers, made.subscriber source sub.id ↔
        sub ∈ (w'.subject source).subscribers ∧ sub ∉ (w.subject source).subscribers) ∧
      m.world.TakenAway made m.step.world ∧
      ∀ called m', Session m.step called m' → m'.world.Without made ∧
      ∀ c ∈ called, ¬ made.Has c := by
  intro made
  refine ⟨fun l => mem_listeners_mount hl hmount hs.follows,
    fun source sub => mem_subscribers_mount hroot hmount hs.follows, ?_, fun called m' hs' => ?_⟩
  · rw [step_unmount hm]
    exact takenAway_unmount hroot hmount m.world
  · have hwithout := without_unmount hroot hmount hs hm
    have hline : m.step.line = [] := (line_unmount hm).trans (List.flatMap_eq_nil_iff.2 hidle)
    have hsub := hs'.sublist hwithout
    rw [hline] at hsub
    refine ⟨hwithout.follows hs'.follows, fun c hc => ?_⟩
    simpa using List.filter_eq_nil_iff.1 (List.sublist_nil.1 hsub) c (List.mem_append_left _ hc)

/-- Subscribes to the state and listens to the input, and unmounts the module. -/
def visit : Script Unit :=
  .subscribe (.state 0) (fun _ => .done) fun _ => .listen 2 "input" .done fun _ =>
    .unmount leaverModule .done

/-- What others have registered at the state and at the input stays. -/
theorem unmount_releases_leaver :
    let m := run 4 ⟨leaverPage, [.run visit]⟩
    let made := Callbacks.madeBetween busyPage leaverPage
    0 < busyPage.document.nodes.length ∧ busyPage.ListenersNumbered ∧
      busyPage.mount [leaver] 0 = (.ok leaverModule, leaverPage) ∧
      m.stack = [.run (.unmount leaverModule .done)] ∧
      m.world.listeners.map (·.id) = [0, 1, 2, 3] ∧ m.step.world.listeners.map (·.id) = [0, 3] ∧
      (m.world.subject (.state 0)).subscribers.map (·.id) = [0, 1] ∧
      (m.step.world.subject (.state 0)).subscribers.map (·.id) = [1] ∧
      ∀ called m', Session m.step called m' → ∀ c ∈ called, ¬ made.Has c := by
  intro m made
  have hl : busyPage.ListenersNumbered := List.forall_mem_singleton.2 Nat.one_pos
  have hvisit : Session ⟨leaverPage, []⟩ (callees 4 ⟨leaverPage, [.run visit]⟩) m :=
    (Session.refl.start visit).run 4
  obtain ⟨-, -, htaken, hgone⟩ :=
    unmount_releases (show 0 < 2 by decide) hl mount_leaver hvisit rfl (List.forall_mem_nil _)
  refine ⟨by decide, hl, mount_leaver, rfl, rfl, ?_, rfl, ?_,
    fun called m' hs => (hgone called m' hs).2⟩
  · rw [htaken.listeners]
    decide +kernel
  · rw [htaken.subject]
    decide +kernel

/-- Of the callbacks of a module that has been unmounted, those are started that were in line in a
dispatch or a delivery at the time: each at most once for every place in it, in its order. -/
theorem unmounted_called (hroot : root < w.document.nodes.length)
    (hmount : w.mount components root = (.ok md, w')) (hs : Session ⟨w', stack₀⟩ called₀ m)
    (hm : m.stack = .run (.unmount md next) :: stack) {called : List Callee} {m' : Machine σ}
    (hs' : Session m.step called m') :
    (called.filter ((Callbacks.madeBetween w w').Has ·)).Sublist
      ((stack.flatMap Frame.line).filter ((Callbacks.madeBetween w w').Has ·)) := by
  have hsub := hs'.sublist (without_unmount hroot hmount hs hm)
  rw [line_unmount hm, List.filter_append] at hsub
  exact (List.sublist_append_left _ _).trans hsub

/-- Types into the input. -/
def typing : Script Unit := .edit (.setValue 2 "b") fun _ => .dispatch 2 "input" fun _ => .done

/-- Only the listener is called that waits behind the one that unmounts the module. -/
theorem unmounted_called_leaver :
    let m := run 3 ⟨leaverPage, [.run typing]⟩
    0 < busyPage.document.nodes.length ∧
      busyPage.mount [leaver] 0 = (.ok leaverModule, leaverPage) ∧
      (∃ stack, m.stack = .run (.unmount leaverModule .done) :: stack) ∧
      ∀ called m', Session m.step called m' →
        (called.filter ((Callbacks.madeBetween busyPage leaverPage).Has ·)).Sublist
          [.listener 2 (some 0)] := by
  intro m
  have htyping : Session ⟨leaverPage, []⟩ (callees 3 ⟨leaverPage, [.run typing]⟩) m :=
    (Session.refl.start typing).run 3
  refine ⟨by decide, mount_leaver, ⟨_, rfl⟩, fun called m' hs => ?_⟩
  exact unmounted_called (show 0 < 2 by decide) mount_leaver htyping rfl hs

/-- The dispatch goes on when its first listener has unmounted the module, and its second one writes
the text to the state. -/
theorem called_after_unmount :
    let m := run 3 ⟨leaverPage, [.run typing]⟩
    (∃ stack, m.stack = .run (.unmount leaverModule .done) :: stack) ∧
      (Callbacks.madeBetween busyPage leaverPage).Has (.listener 2 (some 0)) ∧
      m.step.world.listeners.map (·.id) = [0] ∧
      callees 20 m.step = [.listener 2 (some 0)] ∧ (run 20 m.step).stack = [] ∧
      m.step.world.data 0 = .object [("name", .string "a")] ∧
      (run 20 m.step).world.data 0 = .object [("name", .string "b")] := by
  refine ⟨⟨_, rfl⟩, by decide, by decide +kernel, ?_, List.isEmpty_iff.1 (by decide +kernel),
    rfl, ?_⟩
  · rfl
  · rfl

end Machine

end ReactiveMarkup
