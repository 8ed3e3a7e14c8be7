-- SUMMARY: What typing into an input does to a panel of bindings.
import ReactiveMarkup.Proofs.Panels

/-!
# Typing into inputs

The listeners of an input write what the input shows to the paths that its value is tied to. A
property of a panel is in tune if it shows what its path reads; an input shows what was typed also
where nothing could be written at its path, and is in tune then until something can be. Quiet
scripts, writes and typing keep the panel at rest and its properties in tune (`Panel.Usage.keeps`),
and in such a world typing makes the round trip from the input to the tree and back to the
properties (`Panel.Rests.roundTrip`).
-/

namespace ReactiveMarkup

variable {σ : Type}

theorem Sync.heard_change (b : Sync) (u : Value) (change? : Option Change) :
    b.heard u (change?.map .change) = (change?.bind (·.valueAt? b.path)).getD u := by
  cases change? <;> rfl

namespace Panel

variable {P : Panel} {w w' w₁ : World σ} {s other : StateId} {q : Path} {v : Value}
  {b : Sync} {id : Nat} {t : List (Event σ)} {text : String}

/-! ## Properties in tune -/

/-- The property shows what its path reads. Where nothing can be written at the path, and no other
path of the panel leads to the way there, it may show a text that was typed. -/
def InTune (P : Panel) (s : StateId) (w : World σ) (b : Sync) : Prop :=
  ∃ u, w.document.Holds b.element b.property u ∧
    (u = b.path.valueOrNull (w.data s) ∨
      (∀ slot, b.path.slot (w.data s) ≠ .ok slot) ∧
      ∀ b' ∈ P.wiring s, b'.path.isAbove b.path = false)

theorem InTune.spares (h : P.InTune s w b) (hs : s ∈ P.states) (hb : b ∈ P.wiring s)
    (hspares : P.Spares w w') : P.InTune s w' b := by
  obtain ⟨u, hu, htune⟩ := h
  refine ⟨u, hspares.shows s hs b hb u hu, ?_⟩
  rwa [hspares.data s]

/-- The property alone is written by its subscriber, and its path names a place, spelled plainly. -/
structure Watches (P : Panel) (s : StateId) (b : Sync) : Prop where
  mem : s ∈ P.states
  sole : ∃ id, (P.wiring s)[id]? = some b ∧ P.wiring.Sole s id b
  proper : b.path.isProper = true
  plain : b.path.isPlain = true

/-- A write that does not go below the path of a property leaves the property in tune. -/
theorem InTune.wrote (hw : P.InTune other w b) (hb : P.Watches other b) (h : P.Wrote s q v w t w')
    (hallowed : s = other → q.isPlain = true ∧ b.path.isAbove q = false) : P.InTune other w' b := by
  obtain ⟨u, hu, htune⟩ := hw
  obtain ⟨id, hid, hsole⟩ := hb.sole
  have hshows := h.shows other hb.mem id b hid hsole u hu
  by_cases hs : other = s
  · subst hs
    obtain ⟨hq, habove⟩ := hallowed rfl
    rw [heardAt, if_pos rfl, Sync.heard_change] at hshows
    refine ⟨_, hshows, ?_⟩
    rw [h.data]
    obtain hfresh | ⟨hno, hfree⟩ := htune
    · left
      rw [hfresh, Path.valueOrNull_outcome hb.proper hb.plain hq habove]
    · cases htold : (q.outcome (w.data other) v).2.bind (·.valueAt? b.path) with
      | some x =>
        left
        rw [Path.valueOrNull_outcome hb.proper hb.plain hq habove, htold]
        rfl
      | none => exact .inr ⟨Path.slot_outcome_ne hb.proper hb.plain hq habove htold hno, hfree⟩
  · rw [heardAt, if_neg hs] at hshows
    refine ⟨u, hshows, ?_⟩
    rwa [h.others other hs]

/-- What shows a text shows it after the text was written at its path. -/
theorem Wrote.holds_text (h : P.Wrote s b.path (.string text) w t w') (hb : P.Watches s b)
    (hu : w.document.Holds b.element b.property (.string text)) :
    w'.document.Holds b.element b.property (.string text) := by
  obtain ⟨id, hid, hsole⟩ := hb.sole
  have hshows := h.shows s hb.mem id b hid hsole _ hu
  rwa [heardAt, if_pos rfl, Sync.heard_change, Path.getD_outcome_self hb.proper] at hshows

/-- A property that shows the text written at its path is in tune afterwards. -/
private theorem InTune.of_typed (hu : w.document.Holds b.element b.property (.string text))
    (hb : P.Watches s b)
    (h : P.Wrote s b.path (.string text) w t w')
    (hfree : ∀ b' ∈ P.wiring s, b'.path.isAbove b.path = false) :
    P.InTune s w' b := by
  refine ⟨_, h.holds_text hb hu, ?_⟩
  rw [h.data]
  cases hslot : b.path.slot (w.data s) with
  | error e =>
    rw [Path.outcome_refused hslot]
    exact .inr ⟨fun slot => by simp [hslot], hfree⟩
  | ok slot =>
    left
    have hread : b.path.valueOrNull (slot.fill (.string text)) = .string text :=
      Path.valueOrNull_fill hslot hb.proper (Path.after?_self _) _
    by_cases hc : slot.content = .string text
    · rw [Path.outcome_same hslot hc, ← (Path.write_same hslot hc).2, hread]
    · rw [Path.outcome_new hslot hc, hread]

end Panel

/-! ## Typing into an input -/

/-- Types a text into an input, as a user does. -/
def Script.typing (x : NodeId) (text : String) : Script σ :=
  .edit (.setValue x text) fun _ => .dispatch x "input" fun _ => .done

/-- An input shows the text that was typed. -/
theorem World.holds_setValue {w : World σ} {x : NodeId} (hx : x < w.document.nodes.length)
    (text : String) : (w.edit (.setValue x text)).2.document.Holds x "value" (.string text) := by
  refine ⟨?_, ?_, fun hcontent => absurd hcontent (by decide)⟩
  · simpa [World.edit, Document.edit] using hx
  · have hvalue : Document.isContentProperty "value" = false := by decide
    simp [Document.Shows, hvalue, World.edit, Document.edit, Document.property?,
      Document.node_modify_self _ hx, Fields.get?_insert_self]

theorem Document.Holds.inputValue {d : Document} {x : NodeId} {text : String}
    (h : d.Holds x "value" (.string text)) : d.inputValue x = text := by
  have hvalue : Document.isContentProperty "value" = false := by decide
  have hshows := h.shows
  simp only [Document.Shows, hvalue, Bool.false_eq_true, if_false] at hshows
  rw [Document.inputValue, hshows]
  rfl

/-- Putting the tree of a state that is there changes nothing. -/
private theorem World.modifyState_data {w : World σ} (state : StateId) :
    (w.modifyState state fun st => { st with data := w.data state }) = w := by
  have hstates : w.states.modify state (fun st => { st with data := w.data state }) = w.states := by
    refine List.ext_getElem? fun k => ?_
    rw [List.getElem?_modify]
    by_cases hk : state = k
    · subst hk
      cases hst : w.states[state]? <;> simp [World.data, hst]
    · simp [hk]
  simp only [World.modifyState, hstates]

theorem Machine.reaches_run {n : Nat} {m : Machine σ} (h : (run n m).stack = []) :
    m.Reaches (trace n m) ⟨(run n m).world, []⟩ := ⟨n, by rw [← h], rfl⟩

/-- A machine has one end. -/
theorem Machine.Reaches.unique {m : Machine σ} {t u : List (Event σ)} {w w' : World σ}
    (h : m.Reaches t ⟨w, []⟩) (h' : m.Reaches u ⟨w', []⟩) : w = w' := by
  obtain ⟨n, hn, -⟩ := h
  obtain ⟨k, hk, -⟩ := h'
  have hends {j : Nat} {v : World σ} (hj : run j m = ⟨v, []⟩) (i : Nat) : run
      (j + i) m = ⟨v, []⟩ := by
    rw [run_add, hj]
    exact run_of_stack_nil rfl i
  have hsame := (hends hn k).symm.trans (Nat.add_comm k n ▸ hends hk n)
  exact congrArg Machine.world hsame

/-- A dispatch calls a listener, which returns, and goes on with those whose turn is to come. -/
theorem reaches_listener {w w' : World σ} {l : Listener σ} {waiting : List (Listener σ)}
    {called : Nat} {next : Nat → Script σ} {t : List (Event σ)}
    (hcall : ∀ below, Machine.Reaches ⟨w, .run l.callback :: below⟩ t ⟨w', below⟩) :
    Machine.Reaches ⟨w, [.dispatch (l :: waiting) called next]⟩ t ⟨w',
      [.dispatch waiting (called + 1) next]⟩ := by
  have hcalled := hcall [.mark (.listener l.id l.owner), .dispatch waiting (called + 1) next]
  have hfirst : Machine.Reaches ⟨w, [.dispatch (l :: waiting) called next]⟩ []
      ⟨w, [.run l.callback, .mark (.listener l.id l.owner), .dispatch waiting (called + 1) next]⟩ :=
        .step rfl rfl
  have hlast :
      Machine.Reaches ⟨w', [.mark (.listener l.id l.owner), .dispatch waiting (called + 1) next]⟩ []
      ⟨w', [.dispatch waiting (called + 1) next]⟩ := .step rfl rfl
  simpa using hfirst.trans (hcalled.trans hlast)

/-- A dispatch is over when all listeners were called. -/
theorem reaches_dispatched (w : World σ) (called : Nat) :
    Machine.Reaches ⟨w, [.dispatch [] called fun _ => .done]⟩ [] ⟨w, []⟩ :=
  Machine.Reaches.trans (.step rfl rfl) (.perform rfl rfl : Machine.Reaches ⟨w, [.run .done]⟩ [] _)

theorem Site.mem_syncs_of_model {x : Site} {q : Path} (h : q ∈ x.models) :
    ⟨x.node, "value", q⟩ ∈ x.syncs := by
  obtain ⟨a, ha, hmodel⟩ := List.mem_filterMap.1 h
  refine Site.mem_syncs.2 ⟨a, ha, ?_, rfl⟩
  unfold Markup.Attribute.tied?
  cases hb : Binding.ofAttribute a <;> rw [hb] at hmodel <;> cases hmodel
  rfl

namespace Panel

variable {P : Panel} {w w' w₁ : World σ} {s other : StateId} {q p : Path} {b : Sync} {x : Site}
  {t : List (Event σ)} {text : String}

theorem Rests.edit (h : P.Rests w) (e : Edit) : P.Rests (w.edit e).2 :=
  h.keeps (.edit w e) fun s hs => by
    rw [World.subject_edit]
    exact h.idle s hs

theorem InTune.edit {e : Edit} (h : P.InTune s w b) (ht : e.touches b.element b.property = false) :
    P.InTune s (w.edit e).2 b := by
  obtain ⟨u, hu, htune⟩ := h
  refine ⟨u, hu.world_edit ht, ?_⟩
  rwa [World.data_edit]

theorem Wrote.write (h : P.Wrote s q (.string text) w t w') (entry : Entry) :
    P.Wrote s q (.string text) w t (w'.write entry) where
  rests := h.rests.spares (.of_same (by simp) (by simp) (by simp) (by simp) rfl rfl)
  data := h.data
  others := h.others
  emitted := h.emitted
  elsewhere := h.elsewhere
  shows := h.shows

/-- The listener of an input writes what the input shows, and returns. -/
theorem Rests.input (h : P.Rests w) (hs : s ∈ P.states) (x : NodeId) (q : Path) :
    ∃ t w', P.Wrote s q (.string (w.document.inputValue x)) w t w' ∧ ∀ below,
      Machine.Reaches ⟨w, .run (Render.inputScript x s q) :: below⟩ t ⟨w', below⟩ := by
  obtain ⟨t, reply, w', hreturns, hwrote⟩ := h.set hs q (.string (w.document.inputValue x))
  have hread (below : List (Frame σ)) :
      Machine.Reaches ⟨w, .run (Render.inputScript x s q) :: below⟩ [] _ :=
    .perform rfl rfl
  have hend (w : World σ) (below : List (Frame σ)) : Machine.Reaches ⟨w, .run .done :: below⟩
      [] ⟨w, below⟩ :=
    .perform rfl rfl
  cases reply with
  | ok effective =>
    refine ⟨t, w', hwrote, fun below => ?_⟩
    simpa using (hread below).trans ((hreturns _ below).trans (hend w' below))
  | error e =>
    let entry : Entry :=
      .record .error ("cannot write input value to `" ++ q.text ++ "`: " ++ e.message)
    refine ⟨t, _, hwrote.write entry, fun below => ?_⟩
    have hlog :
        Machine.Reaches ⟨w', .run (.log entry .done) :: below⟩ [] ⟨w'.write entry,
          .run .done :: below⟩ :=
      .perform rfl rfl
    simpa using (hread below).trans ((hreturns _ below).trans (hlog.trans (hend _ below)))

/-- A dispatch to listeners that write to paths of a state keeps what each of the writes keeps. -/
private theorem Rests.dispatched {I : World σ → Prop} {x : NodeId} (hs : s ∈ P.states)
    (ls : List (Listener σ))
    (qs : List Path) (hcalls : ls.map (·.callback) = qs.map (Render.inputScript x s))
    (hstep : ∀ q ∈ qs, ∀ w text t w', I w → P.Wrote s q (.string text) w t w' → I w')
    (h : P.Rests w) (hI : I w) (called : Nat) : ∃ t w', P.Rests w' ∧ I w' ∧
      Machine.Reaches ⟨w, [.dispatch ls called fun _ => .done]⟩ t ⟨w', []⟩ := by
  induction qs generalizing w ls called with
  | nil =>
    obtain rfl := List.map_eq_nil_iff.1 hcalls
    exact ⟨_, w, h, hI, reaches_dispatched w called⟩
  | cons q qs ih =>
    obtain ⟨l, rest, rfl, hcallback, hrest⟩ := List.map_eq_cons_iff.1 hcalls
    obtain ⟨t, w₁, hwrote, hcall⟩ := h.input hs x q
    have hlater : ∀ q' ∈ qs, ∀ w text t w', I w → P.Wrote s q' (.string text) w t w' → I w' :=
      fun q' hq' =>
      hstep q' (List.mem_cons_of_mem _ hq')
    obtain ⟨u, w₂, hw₂, hI₂, hreaches⟩ := ih rest hrest hlater hwrote.rests
      (hstep q List.mem_cons_self w _ t w₁ hI hwrote) (called + 1)
    exact ⟨_, w₂, hw₂, hI₂, (reaches_listener (hcallback ▸ hcall)).trans hreaches⟩

/-- The path spells numbers plainly and does not lead below a path of the panel. -/
def Allows (P : Panel) (s : StateId) (q : Path) : Prop :=
  q.isPlain = true ∧ ∀ b ∈ P.wiring s, b.path.isAbove q = false

theorem Watches.wiring (h : P.Watches s b) : b ∈ P.wiring s := by
  obtain ⟨id, hid, -⟩ := h.sole
  exact List.mem_of_getElem? hid

/-- The value of an input that is typed into is a property of one state and path only. -/
theorem Watches.of_model (h : P.Watches other b) (hx : x ∈ P.sites s) (hq : q ∈ x.models)
    (ht : (Edit.setValue x.node text).touches b.element b.property = true) : s = other ∧
    q = b.path := by
  obtain ⟨id, hid, hsole⟩ := h.sole
  simp only [Edit.touches, Bool.and_eq_true, beq_iff_eq] at ht
  have hmem : (⟨x.node, "value", q⟩ : Sync) ∈ P.wiring s :=
    List.mem_flatMap.2 ⟨x, hx, Site.mem_syncs_of_model hq⟩
  obtain ⟨id', hid'⟩ := List.mem_iff_getElem?.1 hmem
  obtain ⟨rfl, rfl⟩ := hsole s id' _ hid' ht.1 (by simp [ht.2, Document.sameProperty])
  exact ⟨rfl, congrArg Sync.path (Option.some.inj (hid'.symm.trans hid))⟩

/-- The first listener of an input writes the text that is typed. -/
theorem Rests.typed_first (h : P.Rests w) (hs : s ∈ P.states) (hx : x ∈ P.sites s) {qs : List Path}
    (hmodels : x.models = q :: qs) (text : String) : ∃ t w' rest,
      P.Wrote s q (.string text) (w.edit (.setValue x.node text)).2 t w' ∧
      rest.map (·.callback) = qs.map (Render.inputScript x.node s) ∧
      Machine.Reaches ⟨w, [.run (.typing x.node text)]⟩ t ⟨w',
        [.dispatch rest 1 fun _ => .done]⟩ := by
  have hw₁ := h.edit (.setValue x.node text)
  have hcontrols := hw₁.controls s hs x hx
  rw [hmodels, List.map_cons] at hcontrols
  obtain ⟨l, rest, hlisteners, hcallback, hrest⟩ := List.map_eq_cons_iff.1 hcontrols
  obtain ⟨t, w', hwrote, hcall⟩ := hw₁.input hs x.node q
  rw [(World.holds_setValue (h.rendered s hs x hx) text).inputValue] at hwrote
  refine ⟨t, w', rest, hwrote, hrest, ?_⟩
  have hedit : Machine.Reaches ⟨w, [.run (.typing x.node text)]⟩ []
      ⟨(w.edit (.setValue x.node text)).2, [.run (.dispatch x.node "input" fun _ => .done)]⟩ :=
        .perform rfl rfl
  have hdispatch : Machine.Reaches
      ⟨(w.edit (.setValue x.node text)).2, [.run (.dispatch x.node "input" fun _ => .done)]⟩ []
      ⟨(w.edit (.setValue x.node text)).2, [.dispatch (l :: rest) 0 fun _ => .done]⟩ :=
    .perform rfl (by rw [Machine.perform, hlisteners])
  simpa using hedit.trans (hdispatch.trans (reaches_listener (hcallback ▸ hcall)))

/-- Typing into an input is over when its listeners have written. -/
theorem Rests.typed (h : P.Rests w) (hs : s ∈ P.states) (hx : x ∈ P.sites s) {qs : List Path}
    (hmodels : x.models = q :: qs) (text : String) {I : World σ → Prop}
    (hfirst : ∀ t w', P.Wrote s q (.string text) (w.edit (.setValue x.node text)).2 t w' → I w')
    (hlater : ∀ q' ∈ qs, ∀ w text t w', I w → P.Wrote s q' (.string text) w t w' → I w') :
    ∃ t w', P.Rests w' ∧ I w' ∧ Machine.Reaches ⟨w, [.run (.typing x.node text)]⟩ t ⟨w', []⟩ := by
  obtain ⟨t, w₁, rest, hwrote, hrest, hreaches⟩ := h.typed_first hs hx hmodels text
  obtain ⟨u, w', hw', hI, hends⟩ :=
    hwrote.rests.dispatched hs rest qs hrest hlater (hfirst t w₁ hwrote) 1
  exact ⟨t ++ u, w', hw', hI, hreaches.trans hends⟩

/-- Typing keeps a property in tune. -/
theorem InTune.typed (hb : P.InTune other w b) (hwatches : P.Watches other b) (h : P.Rests w)
    (hs : s ∈ P.states)
    (hx : x ∈ P.sites s) {qs : List Path} (hmodels : x.models = q :: qs) (text : String)
    (hallowed : s = other → ∀ q ∈ x.models, P.Allows other q) :
    ∃ t w', P.InTune other w' b ∧ Machine.Reaches ⟨w, [.run (.typing x.node text)]⟩ t ⟨w', []⟩ := by
  have hopen : ∀ q' ∈ x.models, s = other → q'.isPlain = true ∧ b.path.isAbove q' = false := by
    intro q' hq' hself
    obtain ⟨hplain, habove⟩ := hallowed hself q' hq'
    exact ⟨hplain, habove b hwatches.wiring⟩
  rw [hmodels] at hopen
  have hfirst : ∀ t w', P.Wrote s q (.string text) (w.edit (.setValue x.node text)).2 t w' →
      P.InTune other w' b := by
    intro t w' hwrote
    cases ht : (Edit.setValue x.node text).touches b.element b.property with
    | false => exact (hb.edit ht).wrote hwatches hwrote (hopen q List.mem_cons_self)
    | true =>
      -- The property is the value of this input, which shows the text that is written.
      obtain ⟨rfl, rfl⟩ := hwatches.of_model hx (hmodels ▸ List.mem_cons_self) ht
      simp only [Edit.touches, Bool.and_eq_true, beq_iff_eq] at ht
      have hshows := World.holds_setValue (h.rendered s hs x hx) text
      rw [ht.1, ← ht.2] at hshows
      rw [ht.1] at hwrote
      exact .of_typed hshows hwatches hwrote (hallowed rfl _ (hmodels ▸ List.mem_cons_self)).2
  obtain ⟨t, w', -, htune, hreaches⟩ :=
    h.typed hs hx hmodels text hfirst fun q' hq' _ _ _ _ htune hwrote =>
    htune.wrote hwatches hwrote (hopen q' (List.mem_cons_of_mem _ hq'))
  exact ⟨t, w', htune, hreaches⟩

/-! ## What a page goes through -/

/-- What a page may have gone through since a mount: scripts that are quiet, writes to the states of
the panel, and typing into its inputs, one after the other. What is written to one of the states,
directly or by typing, is written at paths that do not lead below the paths of its properties. -/
inductive Usage (P : Panel) (state : StateId) (w₀ : World σ) : World σ → Prop
  | start : Usage P state w₀ w₀
  | quiet {w w' : World σ} {script : Script σ} {t : List (Event σ)} (before : Usage P state w₀ w)
      (quiet : script.Quiet P) (ends : Machine.Reaches ⟨w, [.run script]⟩ t ⟨w', []⟩) :
      Usage P state w₀ w'
  | write {w w' : World σ} {s : StateId} {q : Path} {v : Value} {t : List (Event σ)}
      (before : Usage P state w₀ w) (mem : s ∈ P.states) (allowed : s = state → P.Allows state q)
      (ends : Machine.Reaches ⟨w, [.run (.set s q v fun _ => .done)]⟩ t ⟨w', []⟩) :
      Usage P state w₀ w'
  | typed {w w' : World σ} {s : StateId} {x : Site} {text : String} {t : List (Event σ)}
      (before : Usage P state w₀ w) (mem : s ∈ P.states) (site : x ∈ P.sites s)
      (input : x.models ≠ [])
      (allowed : s = state → ∀ q ∈ x.models, P.Allows state q)
      (ends : Machine.Reaches ⟨w, [.run (.typing x.node text)]⟩ t ⟨w', []⟩) : Usage P state w₀ w'

/-- What a page may go through leaves it at rest, with its properties in tune. -/
theorem Usage.keeps {w₀ : World σ} {state : StateId} (h : P.Usage state w₀ w)
    (hrests : P.Rests w₀) :
    P.Rests w ∧ ∀ b, P.Watches state b → P.InTune state w₀ b → P.InTune state w b := by
  induction h with
  | start => exact ⟨hrests, fun _ _ hb => hb⟩
  | @quiet w w' script t _ quiet ends ih =>
    obtain ⟨u, w'', -, hspares, hreaches⟩ := returns_quiet quiet w
    obtain rfl := (hreaches []).unique ends
    exact ⟨ih.1.spares hspares, fun b hwatches hb =>
      (ih.2 b hwatches hb).spares hwatches.mem hwatches.wiring hspares⟩
  | @write w w' s q v t _ mem allowed ends ih =>
    obtain ⟨u, reply, w'', hreturns, hwrote⟩ := ih.1.set mem q v
    have hreaches :=
      (hreturns (fun _ => .done) []).trans (.perform rfl rfl : Machine.Reaches _ [] ⟨w'', []⟩)
    obtain rfl := hreaches.unique ends
    refine ⟨hwrote.rests, fun b hwatches hb => (ih.2 b hwatches hb).wrote hwatches hwrote
      fun hself => ?_⟩
    exact ⟨(allowed hself).1, (allowed hself).2 b hwatches.wiring⟩
  | @typed w w' s x text t _ mem site input allowed ends ih =>
    obtain ⟨q, qs, hmodels⟩ := List.exists_cons_of_ne_nil input
    obtain ⟨u, w'', hw'', -, hreaches⟩ := ih.1.typed mem site hmodels text (I := fun _ => True)
      (fun _ _ _ => trivial) fun _ _ _ _ _ _ _ _ => trivial
    obtain rfl := hreaches.unique ends
    refine ⟨hw'', fun b hwatches hb => ?_⟩
    obtain ⟨u', w₁, htune, hreaches'⟩ :=
      (ih.2 b hwatches hb).typed hwatches ih.1 mem site hmodels text allowed
    exact hreaches'.unique hreaches ▸ htune

/-! ## The round trip -/

/-- What typing a text comes to that is tied to a path. -/
structure RoundTrip (P : Panel) (s : StateId) (x : NodeId) (p : Path) (text : String) (w : World σ)
    (t : List (Event σ)) (w' : World σ) : Prop where
  ends : Machine.Reaches ⟨w, [.run (.typing x text)]⟩ t ⟨w', []⟩
  /-- The text is written to the tree, and the change is emitted unless the text was there
  before. -/
  writes : ∃ previous, p.set (w.data s) (.string text) = .ok (previous, w'.data s) ∧
    (previous = .string text → Silent t) ∧
    (previous ≠ .string text →
      emissions (Machine.atSubject (.state s) t) = [.change ⟨p, previous, .string text⟩] ∧
      ∀ source, source ≠ .state s → emissions (Machine.atSubject source t) = [])
  /-- What is tied to the path shows the text, and what is tied to a path below it shows null. -/
  shows : ∀ b, P.Watches s b → P.InTune s w b → ∀ rest, p.after? b.path = some rest →
    w'.document.Holds b.element b.property (((Value.string text).along rest.segments).getD .null)
  /-- Input from the same element changes nothing and emits nothing. -/
  again : ∃ u, Machine.Reaches ⟨w', [.run (.dispatch x "input" fun _ => .done)]⟩ u ⟨w', []⟩ ∧
    Silent u

/-- Where the text is in the tree already, a property in tune shows it, or null for what lies below
it. -/
theorem InTune.holds_text {rest : Path} {slot : Slot} (h : P.InTune s w b)
    (hwatches : P.Watches s b)
    {y : Sync} (hy : y ∈ P.wiring s) (hslot : y.path.slot (w.data s) = .ok slot)
    (hc : slot.content = .string text)
    (hafter : y.path.after? b.path = some rest) :
    w.document.Holds b.element b.property
      (((Value.string text).along rest.segments).getD .null) := by
  obtain ⟨u, hu, rfl | ⟨hno, hfree⟩⟩ := h
  · have hread := Path.valueOrNull_fill hslot hwatches.proper hafter (.string text)
    rw [(Path.write_same hslot hc).2] at hread
    rwa [hread] at hu
  · -- Something can be written at the path of the input, so the path of the property lies below it.
    have hbelow : y.path.isAbove b.path = false := hfree y hy
    have hnil : rest.segments = [] := by simpa [Path.isAbove, hafter] using hbelow
    have hpath : b.path = y.path := by
      rw [Path.after?_eq_some_iff.1 hafter, show rest = .blank from Path.ext hnil,
        Path.append_blank]
    exact absurd (hpath ▸ hslot) (hno slot)

/-- A listener that writes a text that is there already changes nothing. -/
private theorem Rests.input_silent (h : P.Rests w) (hs : s ∈ P.states) {x : NodeId}
    (hwrite : q.write (w.data s) (.string (w.document.inputValue x)) = .ok (w.data s, none))
    (below : List (Frame σ)) :
    Machine.Reaches ⟨w, .run (Render.inputScript x s q) :: below⟩ [.state s (.wrote q none)]
      ⟨w, below⟩ := by
  have hsame : (w.modifyState s fun st => { st with data := w.data s }) = w :=
    World.modifyState_data s
  have hreturns := (h.set_silent hs hwrite).1
  rw [hsame] at hreturns
  have hread : Machine.Reaches ⟨w, .run (Render.inputScript x s q) :: below⟩ [] _ :=
    .perform rfl rfl
  exact hread.trans ((hreturns _ below).trans (.perform rfl rfl))

/-- Once a text was typed and written, input from the same element writes it again, which changes
nothing. -/
theorem Wrote.again (h : P.Wrote s p (.string text) w t w') (hs : s ∈ P.states) (hx : x ∈ P.sites s)
    (hmodels : x.models = [p]) (hvalue : P.Watches s ⟨x.node, "value", p⟩)
    (htyped : w.document.Holds x.node "value" (.string text)) {slot : Slot}
    (hslot : p.slot (w'.data s) = .ok slot)
    (hc : slot.content = .string text) :
    ∃ u, Machine.Reaches ⟨w', [.run (.dispatch x.node "input" fun _ => .done)]⟩ u ⟨w', []⟩ ∧
    Silent u := by
  have hstill : w'.document.Holds x.node "value" (.string text) := h.holds_text hvalue htyped
  have hwrite : p.write (w'.data s) (.string (w'.document.inputValue x.node)) =
      .ok (w'.data s, none) := by
    rw [hstill.inputValue]
    exact (Path.write_same hslot hc).1
  have hcontrols := h.rests.controls s hs x hx
  rw [hmodels, List.map_cons, List.map_nil] at hcontrols
  obtain ⟨l, rest, hlisteners, hcallback, hrest⟩ := List.map_eq_cons_iff.1 hcontrols
  obtain rfl := List.map_eq_nil_iff.1 hrest
  have hdispatch : Machine.Reaches ⟨w', [.run (.dispatch x.node "input" fun _ => .done)]⟩ []
      ⟨w', [.dispatch [l] 0 fun _ => .done]⟩ := .perform rfl (by rw [Machine.perform, hlisteners])
  have hcall : Machine.Reaches ⟨w', [.dispatch [l] 0 fun _ => .done]⟩ [.state s (.wrote p none)]
      ⟨w', [.dispatch [] 1 fun _ => .done]⟩ :=
    reaches_listener fun below => hcallback ▸ h.rests.input_silent hs hwrite below
  exact ⟨_, hdispatch.trans (hcall.trans (reaches_dispatched w' 1)), silent_state s _⟩

/-- Once the text is typed, a property tied to the path of the input or to one below it shows what
it is to show if the text is in the tree already. Else the write will tell it. -/
private theorem InTune.ready {rest : Path} {slot : Slot} (htune : P.InTune s w b)
    (hb : P.Watches s b) (h : P.Rests w)
    (hs : s ∈ P.states) (hx : x ∈ P.sites s) (hp : p ∈ x.models)
    (hslot : p.slot (w.data s) = .ok slot)
    (hafter : p.after? b.path = some rest) :
    ∃ u, (w.edit (.setValue x.node text)).2.document.Holds b.element b.property u ∧
      (slot.content = .string text → u = ((Value.string text).along rest.segments).getD .null) := by
  cases ht : (Edit.setValue x.node text).touches b.element b.property with
  | true =>
    -- The property is the value of the input.
    obtain ⟨-, rfl⟩ := hb.of_model hx hp ht
    obtain rfl : .blank = rest := Option.some.inj ((Path.after?_self _).symm.trans hafter)
    simp only [Edit.touches, Bool.and_eq_true, beq_iff_eq] at ht
    have htext := World.holds_setValue (h.rendered s hs x hx) text
    exact ⟨.string text, by rwa [← ht.1, ht.2], fun _ => rfl⟩
  | false =>
    by_cases hc : slot.content = .string text
    · have hmem : (⟨x.node, "value", p⟩ : Sync) ∈ P.wiring s :=
        List.mem_flatMap.2 ⟨x, hx, Site.mem_syncs_of_model hp⟩
      exact ⟨_, (htune.holds_text hb hmem hslot hc hafter).world_edit ht, fun _ => rfl⟩
    · obtain ⟨u, hu, -⟩ := htune
      exact ⟨u, hu.world_edit ht, fun hsame => absurd hsame hc⟩

/-- Typing at a path at which something can be written makes the round trip. -/
theorem Rests.roundTrip (h : P.Rests w) (hs : s ∈ P.states) (hx : x ∈ P.sites s)
    (hmodels : x.models = [p])
    (hvalue : P.Watches s ⟨x.node, "value", p⟩) {slot : Slot} (hslot : p.slot (w.data s) = .ok slot)
    (text : String) : ∃ t w', P.RoundTrip s x.node p text w t w' := by
  obtain ⟨t, w', rest, hwrote, hrest, hreaches⟩ := h.typed_first hs hx hmodels text
  obtain rfl := List.map_eq_nil_iff.1 hrest
  have hdata := hwrote.data
  have hemitted := hwrote.emitted
  rw [World.data_edit] at hdata hemitted
  rw [Path.fst_outcome_text hslot] at hdata
  refine ⟨t, w', ?_⟩
  constructor
  case ends => simpa using hreaches.trans (reaches_dispatched w' 1)
  case writes =>
    refine ⟨slot.content, ?_, fun hc source => ?_, fun hc => ⟨?_, hwrote.elsewhere⟩⟩
    · rw [hdata]
      simp [Path.set, hslot, bind, Except.bind, pure, Except.pure]
    · by_cases hsource : source = .state s
      · rw [hsource, hemitted, Path.outcome_same hslot hc]
        rfl
      · exact hwrote.elsewhere source hsource
    · rw [hemitted, Path.outcome_new hslot hc]
      rfl
  case shows =>
    intro b hb htune rest hafter
    obtain ⟨id, hid, hsole⟩ := hb.sole
    obtain ⟨u, hu, hready⟩ := htune.ready hb h hs hx (hmodels ▸ List.mem_cons_self) hslot hafter
    have hlast := hwrote.shows s hs id b hid hsole u hu
    rwa [World.data_edit, heardAt, if_pos rfl, Sync.heard_change,
      Path.getD_outcome_text hslot hafter hb.proper hready] at hlast
  case again =>
    obtain ⟨filled, hfilled, hcontent⟩ := Path.slot_fill hslot (.string text)
    have htext := World.holds_setValue (h.rendered s hs x hx) text
    exact hwrote.again hs hx hmodels hvalue htext (hdata ▸ hfilled) hcontent

end Panel

end ReactiveMarkup
