-- SUMMARY: Bound properties show what their paths read whenever no delivery is in progress.
import ReactiveMarkup.Proofs.Rendering

/-!
# Bindings are fresh

After a mount, whatever scripts write to the states of its instances, and from wherever they do,
every property that a template ties to a path shows what the path reads, at every moment at which no
delivery of the state is in progress. `World.bindings_fresh` puts together what a mount leaves
behind and what the subscribers that it leaves behind go on to do.
-/

namespace ReactiveMarkup

variable {σ : Type}

/-! ## The subscribers of a mount -/

/-- The subscribers that the sites ask for, by state. -/
def wiringOf (base : Nat) (placed : List Placed) : Wiring :=
  fun s => if base ≤ s then syncsAt placed (s - base) else []

theorem wiringOf_add (base : Nat) (placed : List Placed) (k : Nat) :
    wiringOf base placed (base + k) = syncsAt placed k := by
  simp [wiringOf]

/-- Whether the callee is a subscriber of the module. -/
def Module.owns (md : Module) : Callee → Bool
  | .subscriber (.state s) id => md.instances.any fun i =>
    i.state == s && i.subscriptions.contains id
  | _ => false

namespace Site

theorem mem_syncs {s : Site} {b : Sync} :
    b ∈ s.syncs ↔ ∃ a ∈ s.attributes, a.tied? = some (b.property, b.path) ∧ b.element = s.node := by
  simp only [syncs, List.mem_filterMap, Option.map_eq_some_iff]
  constructor
  · rintro ⟨a, ha, ⟨property, path⟩, ht, rfl⟩
    exact ⟨a, ha, ht, rfl⟩
  · rintro ⟨a, ha, ht, he⟩
    exact ⟨a, ha, _, ht, by rw [← he]⟩

/-- A property that only one attribute writes has one subscriber. -/
private theorem syncs_of_ties {s : Site} {before after : List Markup.Attribute}
    {a : Markup.Attribute}
    {property : String} {path : Path} (h : s.Ties before a after property path) :
    ∃ l l', s.syncs = l ++ ⟨s.node, property, path⟩ :: l' ∧
      ∀ b ∈ l ++ l', Document.sameProperty b.property property = false := by
  have hother : ∀ (attributes : List Markup.Attribute), (∀ b ∈ attributes, b ∈ before ++ after) →
      ∀ b ∈ syncs ⟨s.node, s.tag, attributes⟩, Document.sameProperty b.property property =
        false := by
    intro attributes hsub b hb
    obtain ⟨other, hmem, ht, _⟩ := mem_syncs.1 hb
    exact h.sole other (hsub other hmem) b.property (Binding.target?_of_tied? ht)
  refine ⟨syncs ⟨s.node, s.tag, before⟩, syncs ⟨s.node, s.tag, after⟩, ?_, ?_⟩
  · simp [syncs, h.attributes, h.tied]
  · intro b hb
    rcases List.mem_append.1 hb with hb | hb
    · exact hother before (fun _ => List.mem_append_left _) b hb
    · exact hother after (fun _ => List.mem_append_right _) b hb

end Site

private theorem site_of_mem_syncsAt {placed : List Placed} {k : Nat} {b : Sync}
    (h : b ∈ syncsAt placed k) : ∃ p ∈ placed, b.element = p.site.node := by
  obtain ⟨s, hs, hb⟩ := List.mem_flatMap.1 h
  obtain ⟨_, _, _, he⟩ := Site.mem_syncs.1 hb
  exact ⟨⟨k, s⟩, mem_sitesAt.1 hs, he⟩

/-- What stands at an index of a list is the marked item or one of the others. -/
private theorem eq_length_or_mem {α : Type} {l l' : List α} {a b : α} {i : Nat}
    (h : (l ++ a :: l')[i]? = some b) : i = l.length ∨ b ∈ l ++ l' := by
  rcases Nat.lt_trichotomy i l.length with hlt | heq | hgt
  · rw [List.getElem?_append_left hlt] at h
    exact .inr (List.mem_append_left _ (List.mem_of_getElem? h))
  · exact .inl heq
  · rw [List.getElem?_append_right (Nat.le_of_lt hgt), List.getElem?_cons,
      if_neg (Nat.sub_ne_zero_of_lt hgt)] at h
    exact .inr (List.mem_append_right _ (List.mem_of_getElem? h))

section Assembled

variable {base k : Nat} {r : Rendering σ} {placed : List Placed} {s : Site}
  {before after : List Markup.Attribute} {a : Markup.Attribute} {property : String} {path : Path}

/-- A property that only one attribute writes is written by one subscriber of the mount. -/
theorem Displayed.sole {w : World σ} (h : Displayed base w placed) (hs : s ∈ sitesAt placed k)
    (ht : s.Ties before a after property path) :
    ∃ id, (wiringOf base placed (base + k))[id]? = some ⟨s.node, property, path⟩ ∧
      (wiringOf base placed).Sole (base + k) id ⟨s.node, property, path⟩ := by
  obtain ⟨left, right, rfl⟩ := List.append_of_mem (mem_sitesAt.1 hs)
  -- No other site has the element, so no other site has a subscriber that writes to it.
  have hne : ∀ p ∈ left ++ right, p.site.node ≠ s.node := by
    intro p hp he
    have hnodup := h.nodup
    rw [List.map_append, List.map_cons, List.nodup_append, List.nodup_cons] at hnodup
    rcases List.mem_append.1 hp with hp | hp
    · exact hnodup.2.2 _ (List.mem_map_of_mem hp) _ List.mem_cons_self he
    · exact hnodup.2.1.1 (he ▸ List.mem_map_of_mem hp)
  obtain ⟨l, l', hsyncs, hsole⟩ := Site.syncs_of_ties ht
  -- The subscriber stands between those of the attributes before and after.
  have hat : syncsAt (left ++ ⟨k, s⟩ :: right) k =
      (syncsAt left k ++ l) ++ ⟨s.node, property, path⟩ :: (l' ++ syncsAt right k) := by
    have hself : syncsAt [⟨k, s⟩] k = s.syncs := by simp [syncsAt, sitesAt]
    rw [← List.singleton_append, syncsAt_append, syncsAt_append, hself, hsyncs]
    simp
  refine ⟨(syncsAt left k ++ l).length, ?_, ?_⟩
  · rw [wiringOf_add, hat]
    simp
  · intro s' id' b' hb' helement hproperty
    -- A subscriber of another site writes to another element.
    have hoff : ∀ k', b' ∈ syncsAt left k' ++ syncsAt right k' → False := by
      intro k' hmem
      rw [← syncsAt_append] at hmem
      obtain ⟨p, hp, he⟩ := site_of_mem_syncsAt hmem
      exact hne p hp (he ▸ helement)
    unfold wiringOf at hb'
    split at hb'
    · next hle =>
      by_cases hk : s' - base = k
      · rw [hk, hat] at hb'
        rcases eq_length_or_mem hb' with hid | hmem
        · refine ⟨?_, hid⟩
          rw [← hk]
          exact (Nat.add_sub_cancel' hle).symm
        · -- A subscriber of another attribute writes another property.
          have hours : b' ∉ l ++ l' := by
            intro hl
            simp [hsole b' hl] at hproperty
          exfalso
          rcases List.mem_append.1 hmem with hmem | hmem <;>
            rcases List.mem_append.1 hmem with hmem | hmem
          · exact hoff k (List.mem_append_left _ hmem)
          · exact hours (List.mem_append_left _ hmem)
          · exact hours (List.mem_append_right _ hmem)
          · exact hoff k (List.mem_append_right _ hmem)
      · have hself : syncsAt [⟨k, s⟩] (s' - base) = [] := by simp [syncsAt, sitesAt, Ne.symm hk]
        rw [← List.singleton_append, syncsAt_append, syncsAt_append, hself, List.nil_append] at hb'
        exact absurd (List.mem_of_getElem? hb') (hoff _)
    · cases hb'

private theorem lt_of_syncsAt_ne_nil (h : Assembled base r placed) (hne : syncsAt placed k ≠ []) :
    k < r.instances.length := by
  obtain ⟨b, hb⟩ := List.exists_mem_of_ne_nil _ hne
  obtain ⟨s, hs, _⟩ := List.mem_flatMap.1 hb
  exact h.place_lt ⟨k, s⟩ (mem_sitesAt.1 hs)

/-- Only instances of the rendering have subscribers in the wiring. -/
theorem Assembled.place_of_wiringOf (h : Assembled base r placed) {state : StateId}
    (hne : wiringOf base placed state ≠ []) :
    ∃ k < r.instances.length, state = base + k ∧ wiringOf base placed state = syncsAt placed k := by
  unfold wiringOf at hne ⊢
  split at hne
  · next hle =>
    refine ⟨state - base, lt_of_syncsAt_ne_nil h hne, (Nat.add_sub_cancel' hle).symm, if_pos hle⟩
  · exact absurd rfl hne

theorem Assembled.wired (h : Assembled base r placed) : r.world.Wired (wiringOf base placed) where
  named := by
    intro state hne
    obtain ⟨k, hk, rfl, _⟩ := h.place_of_wiringOf hne
    have hlt : base + k < r.world.states.length := by
      rw [h.joined.states]
      exact Nat.add_lt_add_left hk base
    exact hlt
  subject := by
    intro state hne
    obtain ⟨k, hk, rfl, hsyncs⟩ := h.place_of_wiringOf hne
    rw [hsyncs]
    exact h.joined.subject k hk

/-- The subscriptions that the instances keep are those of the wiring. -/
theorem owns_eq {w : World σ} {md : Module} (h : Assembled base ⟨w, md.instances⟩ placed) :
    md.owns = (wiringOf base placed).owns := by
  funext callee
  match callee with
  | .watcher _ _ | .hook _ _ | .listener _ _ | .task | .subscriber (.own _) _ => rfl
  | .subscriber (.state state) id =>
    rw [Bool.eq_iff_iff]
    simp only [Module.owns, Wiring.owns, List.any_eq_true, Bool.and_eq_true, beq_iff_eq,
      List.contains_eq_mem, decide_eq_true_eq]
    constructor
    · rintro ⟨i, hi, hstate, hid⟩
      obtain ⟨k, hk⟩ := List.mem_iff_getElem?.1 hi
      obtain ⟨hplace, hids⟩ := h.joined.instances k i hk
      rw [hids, List.mem_range] at hid
      rwa [← hstate, hplace, wiringOf_add]
    · intro hid
      have hne : wiringOf base placed state ≠ [] :=
        List.ne_nil_of_length_pos (Nat.zero_lt_of_lt hid)
      obtain ⟨k, hk, rfl, hsyncs⟩ := h.place_of_wiringOf hne
      obtain ⟨hplace, hids⟩ := h.joined.instances k _ (List.getElem?_eq_getElem hk)
      refine ⟨md.instances[k], List.getElem_mem hk, hplace, ?_⟩
      rw [hids, List.mem_range, ← hsyncs]
      exact hid

end Assembled

/-! ## Every run after a mount -/

namespace World

open Machine

/-- While a module stays mounted, and nobody writes a bound property by hand, its bindings are
fresh: the sites of an instance are the elements of its template, and where no other attribute
writes the same property, a property of a site that is tied to a path shows what the path reads in
the tree of the instance, or null where it leads nowhere, whenever no delivery of the state is in
progress. The writes may be made from anywhere, but not below the place that the path names, and the
paths spell numbers plainly. -/
theorem bindings_fresh {w w' : World σ} {components : List (Component σ)}
    {root : NodeId} {md : Module}
    (hroot : root < w.document.nodes.length) (hmount : w.mount components root = (.ok md, w'))
    {i : Instance} (hi : i ∈ md.instances) :
    let reg := (Registry.empty.registerAll components w.log).1
    ∃ c sites, reg.get? i.selector = some c ∧
      Rendered reg w'.document c.template
        ((w'.document.children i.container).drop (w.document.children i.container).length) sites ∧
      ∀ (script : Script σ) (n : Nat),
        let t := trace n ⟨w', [.run script]⟩
        let m := run n ⟨w', [.run script]⟩
        ∀ s ∈ sites, ∀ before a after property path, s.Ties before a after property path →
          path.isPlain = true →
          (∀ q ∈ written (atState i.state t), q.isPlain = true ∧ path.isAbove q = false) →
          (∀ id ∈ i.subscriptions, SubjectEvent.left id ∉ atSubject (.state i.state) t) →
          (∀ k < n, editsByHand md.owns s.node property (run k ⟨w', [.run script]⟩) = false) →
          (m.world.subject (.state i.state)).delivering = false →
          m.world.document.Shows s.node property (path.valueOrNull (m.world.data i.state)) := by
  intro reg
  obtain ⟨placed, hassembled, hfilled⟩ := assembled_mount hroot hmount
  obtain ⟨k, hk⟩ := List.mem_iff_getElem?.1 hi
  obtain ⟨c, hget, hrendered⟩ := hfilled k i hk
  refine ⟨c, sitesAt placed k, hget, hrendered, ?_⟩
  intro script n t m s hs before a after property path hties hplain hwritten hleft hhand hidle
  obtain ⟨hstate, hids⟩ := hassembled.joined.instances k i hk
  have hplaced : ⟨k, s⟩ ∈ placed := mem_sitesAt.1 hs
  obtain ⟨v, hv, hholds⟩ := hassembled.displayed.inStep _ hplaced before a after property path hties
  obtain ⟨id, hid, hsole⟩ := hassembled.displayed.sole hs hties
  -- After the mount the element shows what the path reads, and a run keeps it so.
  have hstart : w'.document.Holds s.node property (path.valueOrNull (w'.data i.state)) := by
    rw [hstate, Path.valueOrNull, hv]
    exact hholds
  have hsub : id ∈ i.subscriptions := by
    rw [hids, List.mem_range, ← wiringOf_add w.states.length]
    exact (List.getElem?_eq_some_iff.1 hid).1
  rw [← hstate] at hid hsole
  refine shows_run hassembled.wired script hid hsole (Path.isProper_of_get hv) hplain hstart n ?_
    hwritten (hleft id hsub) hidle
  rw [← owns_eq hassembled]
  exact hhand

/-- A component with one property tied to a path. -/
def counter : Component Unit where
  selector := "app"
  template := [.element "p" [⟨"bind-title", "count"⟩] []]
  initial := .object [("count", .integer 0)]
  selector_lower := by decide +kernel

/-- A document with an element to mount the counter into. -/
def blankPage : World Unit :=
  { memory := (), document := { nodes := [{ kind := .element "app" }] } }

/-- What mounting the counter leaves behind. -/
def counterPage : World Unit :=
  { memory := ()
    log := [mountedRecord "app" 1]
    states := [{ data := counter.initial, changes := Sync.subject [⟨1, "title", ⟨["count"]⟩⟩] }]
    document :=
      { nodes := [{ kind := .element "app", children := [1] },
          { kind := .element "p", properties := [("title", .integer 0)] }]
        mutations := 3 } }

/-- Writes 1 at `count`, which a subscriber answers by writing 2 while the 1 is delivered. -/
def countTwice : Script Unit :=
  .subscribe (.state 0)
    (fun
      | some (.change ⟨_, _, .integer 1⟩) => .set 0 ⟨["count"]⟩ (.integer 2) fun _ => .done
      | _ => .done)
    fun _ => .set 0 ⟨["count"]⟩ (.integer 1) fun _ => .done

private theorem get?_counter (log : Log) :
    (Registry.empty.registerAll [counter] log).1.get? "app" = some counter := by
  have hlower : Text.lower "app" = "app" := by decide +kernel
  simp [Registry.registerAll, Registry.register, Registry.get?, Registry.empty,
    Registry.others, counter, hlower]

private theorem mount_counter : blankPage.mount [counter] 0 =
    (.ok ⟨0, ["app"], [⟨"app", 0, 0, [0], []⟩]⟩, counterPage) := by
  have hlower : Text.lower "p" = "p" := by decide +kernel
  have hnone : (Registry.empty.registerAll [counter] blankPage.log).1.get? "p" = none := by
    simp [Registry.registerAll, Registry.register, Registry.get?, Registry.empty,
      Registry.others, counter, hlower]
  have hbinding : Binding.ofAttribute ⟨"bind-title", "count"⟩ = .property "title" ⟨["count"]⟩ := by
    decide +kernel
  have hselector : counter.selector = "app" := rfl
  have htemplate : counter.template = [.element "p" [⟨"bind-title", "count"⟩] []] := rfl
  have hrender : renderRoot (Registry.empty.registerAll [counter] blankPage.log).1 0 "app"
      ⟨{ blankPage with log := (Registry.empty.registerAll [counter] blankPage.log).2 }, []⟩ =
      .ok () ⟨{ counterPage with log := [] }, [⟨"app", 0, 0, [0], []⟩]⟩ := by
    rw [renderRoot_registered (get?_counter _)]
    simp only [Registry.renderComponent, hselector, htemplate, Registry.renderNodes,
      renderNode_element hnone, Registry.renderChildren, Render.bindAll, hbinding,
      Render.bindAttribute, bind, EStateM.bind]
    rfl
  have htag : Text.lower (blankPage.document.tag 0) = "app" := by decide +kernel
  unfold mount
  simp only [htag, hrender]
  rfl

theorem bindings_fresh_counter :
    let t := atState 0 (trace 40 ⟨counterPage, [.run countTwice]⟩)
    let m := run 40 ⟨counterPage, [.run countTwice]⟩
    blankPage.mount [counter] 0 = (.ok ⟨0, ["app"], [⟨"app", 0, 0, [0], []⟩]⟩, counterPage) ∧
      (effective t).length = 2 ∧ m.stack = [] ∧
      m.world.document.Shows 1 "title" (Path.valueOrNull ⟨["count"]⟩ (m.world.data 0)) := by
  intro t m
  obtain ⟨c, sites, hget, hrendered, hfresh⟩ :=
    bindings_fresh (show 0 < 1 by decide) mount_counter (i := ⟨"app", 0, 0, [0], []⟩) (by simp)
  obtain rfl : counter = c := Option.some.inj ((get?_counter _).symm.trans hget)
  have hsite : (⟨1, "p", [⟨"bind-title", "count"⟩]⟩ : Site) ∈ sites := by
    have hone : Rendered (Registry.empty.registerAll [counter] []).1 counterPage.document
        [.element "p" [⟨"bind-title", "count"⟩] []] [1] sites := hrendered
    cases hone with
    | nested registered _ _ =>
      exact absurd registered (by decide +kernel)
    | element _ _ _ _ _ _ => simp
  have hstays : (atSubject (.state 0) (trace 40 ⟨counterPage, [.run countTwice]⟩)).all
      (fun e => e.isServed || e.emitted?.isSome || e.joined?.isSome) = true := by decide +kernel
  refine ⟨mount_counter, by decide +kernel, List.isEmpty_iff.1 (by decide +kernel), ?_⟩
  refine hfresh countTwice 40 _ hsite [] ⟨"bind-title", "count"⟩ [] "title" ⟨["count"]⟩
    ⟨rfl, by decide +kernel, by simp⟩ (by decide +kernel) (by decide +kernel) ?_ (by decide +kernel)
    (by decide +kernel)
  intro id _ hmem
  exact absurd (List.all_eq_true.1 hstays _ hmem) (by simp [SubjectEvent.isServed,
    SubjectEvent.emitted?, SubjectEvent.joined?])

end World

end ReactiveMarkup
