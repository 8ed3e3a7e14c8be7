-- SUMMARY: Panels of bindings, scripts that spare them, and writes to their states.
import ReactiveMarkup.Proofs.Departed
import ReactiveMarkup.Proofs.Freshness
import ReactiveMarkup.Proofs.Outcomes
import ReactiveMarkup.Proofs.Programs

/-!
# Panels

A `Panel` is what a mount leaves behind for its bindings: the states of the instances, the elements
of their templates, and the callbacks that keep them together. A script is quiet if it writes
nothing and leaves all of this alone, and then it returns (`Panel.returns_quiet`). As long as nobody
but quiet scripts has joined the states of a panel, a write to one of them returns as well, and
`Panel.Wrote` tells what it comes to: the tree, the change that is emitted, and what every property
of the panel shows.
-/

namespace ReactiveMarkup

variable {σ : Type}

/-! ## Traces in which nothing is emitted -/

/-- Whether nothing is emitted in a trace. -/
def Silent (t : List (Event σ)) : Prop := ∀ source, emissions (Machine.atSubject source t) = []

theorem emissions_atSubject_append (source : SubjectId) (t u : List (Event σ)) :
    emissions (Machine.atSubject source (t ++ u)) =
      emissions (Machine.atSubject source t) ++ emissions (Machine.atSubject source u) := by
  rw [Machine.atSubject, List.filterMap_append, emissions_append]
  rfl

theorem silent_nil : Silent ([] : List (Event σ)) := fun _ => rfl

theorem Silent.append {t u : List (Event σ)} (h : Silent t) (h' : Silent u) : Silent (t ++ u) := by
  intro source
  rw [emissions_atSubject_append, h source, h' source]
  rfl

theorem silent_singleton {source : SubjectId} {e : SubjectEvent} (he : e.emitted? = none) :
    Silent ([.subject source e] : List (Event σ)) := by
  intro other
  by_cases hs : source = other <;> simp [Machine.atSubject, Event.atSubject?, emissions, hs, he]

theorem silent_state (state : StateId) (e : StateEvent σ) : Silent [.state state e] := fun _ => rfl

/-! ## What subscribers make of a document -/

/-- What an element shows for a property is shown until an edit touches the property. -/
theorem Document.Holds.world_edit {w : World σ} {e : Edit} {x : NodeId}
    {property : String} {v : Value}
    (h : w.document.Holds x property v) (ht : e.touches x property = false) :
    (w.edit e).2.document.Holds x property v := by
  unfold World.edit
  cases he : w.document.edit e with
  | error err => exact h
  | ok p => exact h.edit he ht

namespace Sync

/-- The document when the subscriber has heard a notice. -/
def hear (n : Option Notice) (d : Document) (b : Sync) : Document :=
  match n with
  | some (.change c) =>
    match c.valueAt? b.path with
    | some v => d.setProperty b.element b.property v
    | none => d
  | _ => d

variable {b : Sync} {l : List Sync} {d : Document} {x : NodeId} {property : String} {v : Value}
  {n : Option Notice}

/-- The subscriber writes what it has heard, and nothing if that says nothing about its path. -/
theorem hear_cases (b : Sync) (n : Option Notice) (d : Document) :
    (b.script n = (.done : Script σ) ∧ hear n d b = d ∧ ∀ v, b.heard v n = v) ∨
    (∃ x, b.script n = (.edit (.setProperty b.element b.property x) fun _ => .done : Script σ) ∧
      hear n d b = d.setProperty b.element b.property x ∧ ∀ v, b.heard v n = x) := by
  match n with
  | none => exact .inl ⟨rfl, rfl, fun _ => rfl⟩
  | some (.value v) => exact .inl ⟨rfl, rfl, fun _ => rfl⟩
  | some (.change c) =>
    cases hc : c.valueAt? b.path with
    | none =>
      exact .inl ⟨by simp [script, Render.syncScript, hc], by simp [hear, hc],
        fun v => by simp [heard, Change.reads, hc]⟩
    | some x =>
      exact .inr ⟨x, by simp [script, Render.syncScript, hc], by simp [hear, hc],
        fun v => by simp [heard, Change.reads, hc]⟩

private theorem length_hear (n : Option Notice) (d : Document) (b : Sync) :
    d.nodes.length ≤ (hear n d b).nodes.length := by
  obtain ⟨-, hsame, -⟩ | ⟨x, -, hset, -⟩ := hear_cases (σ := Unit) b n d
  · exact Nat.le_of_eq (by rw [hsame])
  · rw [hset]
    exact Document.length_setProperty _ _

private theorem length_foldl_hear (n : Option Notice) (l : List Sync) (d : Document) :
    d.nodes.length ≤ (l.foldl (hear n) d).nodes.length := by
  induction l generalizing d with
  | nil => exact Nat.le_refl _
  | cons b l ih => exact Nat.le_trans (length_hear n d b) (ih _)

/-- The element of the subscriber shows what it has heard. -/
private theorem holds_hear (h : d.Holds b.element b.property v) :
    (hear n d b).Holds b.element b.property (b.heard v n) := by
  obtain ⟨-, hsame, hheard⟩ | ⟨x, -, hset, hheard⟩ := hear_cases (σ := Unit) b n d
  · rw [hsame, hheard]
    exact h
  · rw [hset, hheard]
    exact Document.holds_setProperty h.lt (by simp [Document.sameProperty])

theorem holds_hear_of_other (h : d.Holds x property v)
    (hother : b.element = x → Document.sameProperty b.property property = false) :
    (hear n d b).Holds x property v := by
  obtain ⟨-, hsame, -⟩ | ⟨u, -, hset, -⟩ := hear_cases (σ := Unit) b n d
  · rwa [hsame]
  · rw [hset]
    refine h.edit (e := .setProperty b.element b.property u) rfl ?_
    by_cases hx : b.element = x
    · simp [Edit.touches, hother hx]
    · simp [Edit.touches, hx]

theorem holds_foldl_of_other (h : d.Holds x property v)
    (hother : ∀ b ∈ l, b.element = x → Document.sameProperty b.property property = false) :
    (l.foldl (hear n) d).Holds x property v := by
  induction l generalizing d with
  | nil => exact h
  | cons b l ih =>
    exact ih (holds_hear_of_other h (hother b List.mem_cons_self)) fun b' hb' =>
      hother b' (List.mem_cons_of_mem _ hb')

/-- A property that one of the subscribers alone writes shows what this one has heard. -/
private theorem holds_foldl {id : Nat} (hb : l[id]? = some b) (h : d.Holds b.element b.property v)
    (hsole : ∀ id' b', l[id']? = some b' → b'.element = b.element →
      Document.sameProperty b'.property b.property = true → id' = id) :
    (l.foldl (hear n) d).Holds b.element b.property (b.heard v n) := by
  induction l generalizing d id with
  | nil => cases hb
  | cons a l ih =>
    cases id with
    | zero =>
      obtain rfl := Option.some.inj hb
      have hself : (hear n d a).Holds a.element a.property (a.heard v n) := holds_hear h
      refine holds_foldl_of_other (l := l) hself fun b' hb' helement => ?_
      obtain ⟨k, hk⟩ := List.mem_iff_getElem?.1 hb'
      rw [Bool.eq_false_iff]
      exact fun hproperty => absurd (hsole (k + 1) b' hk helement hproperty) (Nat.succ_ne_zero k)
    | succ id =>
      refine ih hb (holds_hear_of_other h fun helement => ?_) fun id' b' hb' helement hproperty =>
        Nat.succ.inj (hsole (id' + 1) b' hb' helement hproperty)
      rw [Bool.eq_false_iff]
      exact fun hproperty => absurd (hsole 0 a rfl helement hproperty) (Nat.succ_ne_zero id).symm

end Sync

/-! ## Panels -/

/-- The path that the binding ties the value of an input to. -/
def Binding.model? : Binding → Option Path
  | model path => some path
  | listen _ _ | property _ _ | fixed _ _ => none

/-- The paths that the attributes tie the value of an input to. -/
def Site.models (s : Site) : List Path :=
  s.attributes.filterMap fun a => (Binding.ofAttribute a).model?

/-- What a mount leaves behind for its bindings. -/
structure Panel where
  /-- The states of the instances. -/
  states : List StateId
  /-- The elements of the template of an instance, by its state. -/
  sites : StateId → List Site
  /-- The subscribers and listeners that came with the mount. -/
  made : Callbacks

namespace Panel

/-- The subscribers that the elements ask for. -/
def wiring (P : Panel) : Wiring := fun s => (P.sites s).flatMap Site.syncs

/-- Whether the node is an element of one of the templates. -/
def Has (P : Panel) (x : NodeId) : Prop := ∃ s ∈ P.states, ∃ site ∈ P.sites s, site.node = x

end Panel

/-- The script writes to no state and emits nothing, and it leaves the panel alone: it takes no
callback of it away, edits none of its properties and does not listen to input at its elements. -/
inductive Script.Quiet (P : Panel) : Script σ → Prop
  | done : Quiet P .done
  | log (entry : Entry) {next : Script σ} (rest : Quiet P next) : Quiet P (.log entry next)
  | readMemory {next : σ → Script σ} (rest : ∀ memory, Quiet P (next memory)) : Quiet P
      (.readMemory next)
  | writeMemory (memory : σ) {next : Script σ} (rest : Quiet P next) : Quiet P
      (.writeMemory memory next)
  | readState (state : StateId) {next : StateView → Script σ} (rest : ∀ view, Quiet P (next view)) :
      Quiet P (.readState state next)
  | retain (state : StateId) {next : Script σ} (rest : Quiet P next) : Quiet P (.retain state next)
  | release (state : StateId) {next : Script σ} (rest : Quiet P next) : Quiet P
      (.release state next)
  | readSubject (source : SubjectId) {next : SubjectView → Script σ}
      (rest : ∀ view, Quiet P (next view)) : Quiet P (.readSubject source next)
  | subscribe (source : SubjectId) {callback : Option Notice → Script σ} {next : Nat → Script σ}
      (called : ∀ notice, Quiet P (callback notice)) (rest : ∀ id, Quiet P (next id)) :
      Quiet P (.subscribe source callback next)
  | unsubscribe {source : SubjectId} {id : Nat} {next : Script σ}
      (foreign : ¬ P.made.subscriber source id)
      (rest : Quiet P next) : Quiet P (.unsubscribe source id next)
  | defer (task : Script σ) {next : Script σ} (rest : Quiet P next) : Quiet P (.defer task next)
  | pending {next : Nat → Script σ} (rest : ∀ count, Quiet P (next count)) : Quiet P (.pending next)
  | readDocument {next : Document → Script σ} (rest : ∀ d, Quiet P (next d)) : Quiet P
      (.readDocument next)
  | edit {e : Edit} {next : Except HostError NodeId → Script σ}
      (foreign : ∀ s ∈ P.states, ∀ b ∈ P.wiring s, e.touches b.element b.property = false)
      (rest : ∀ reply, Quiet P (next reply)) : Quiet P (.edit e next)
  | listen {node : NodeId} {event : String} {callback : Script σ} {next : ListenerId → Script σ}
      (foreign : P.Has node → event ≠ "input") (rest : ∀ id, Quiet P (next id)) :
      Quiet P (.listen node event callback next)
  | unlisten {id : ListenerId} {next : Script σ} (foreign : ¬ P.made.listener id)
      (rest : Quiet P next) : Quiet P (.unlisten id next)
  | listeners (node : NodeId) {next : Nat → Script σ} (rest : ∀ count, Quiet P (next count)) :
      Quiet P (.listeners node next)

namespace Panel

variable {P : Panel} {w w' w'' : World σ} {s : StateId}

/-! ## What keeps a panel -/

/-- The subscribers of the state are those of the panel, and others that are quiet. -/
structure Attended (P : Panel) (s : StateId) (subject : Subject σ) : Prop where
  owned : ∀ id < (P.wiring s).length, P.made.subscriber (.state s) id
  subscribers : ∃ others, subject.subscribers = Sync.numbered (P.wiring s) ++ others ∧
    ∀ sub ∈ others, ∀ notice, (sub.callback notice).Quiet P

/-- The listeners for input at the elements of the panel came with it. -/
def Owns (P : Panel) (w : World σ) : Prop :=
  ∀ x, P.Has x → ∀ l ∈ w.listenersFor x "input", P.made.listener l.id

/-- In the later world everything is still there that the panel depends on. -/
structure Keeps (P : Panel) (w w' : World σ) : Prop where
  named : ∀ s, w.HasSource (.state s) → w'.HasSource (.state s)
  behavior : ∀ s, w'.behavior s = w.behavior s
  attended : ∀ s ∈ P.states, P.Attended s (w.subject (.state s)) →
    P.Attended s (w'.subject (.state s))
  listeners : P.Owns w → ∀ x, P.Has x → w'.listenersFor x "input" = w.listenersFor x "input"
  length_le : w.document.nodes.length ≤ w'.document.nodes.length

/-- The later world keeps the panel, its states and what its elements show. -/
structure Spares (P : Panel) (w w' : World σ) : Prop extends P.Keeps w w' where
  data : ∀ s, w'.data s = w.data s
  line : ∀ s ∈ P.states, (w'.subject (.state s)).delivering = (w.subject (.state s)).delivering ∧
    (w'.subject (.state s)).pending = (w.subject (.state s)).pending
  shows : ∀ s ∈ P.states, ∀ b ∈ P.wiring s, ∀ v, w.document.Holds b.element b.property v →
    w'.document.Holds b.element b.property v

theorem Attended.congr {subject subject' : Subject σ} (h : P.Attended s subject)
    (hsame : subject'.subscribers = subject.subscribers) : P.Attended s subject' :=
  ⟨h.owned, hsame ▸ h.subscribers⟩

/-- A quiet subscriber may join. -/
theorem Attended.register {subject : Subject σ} {callback : Option Notice → Script σ}
    (h : P.Attended s subject)
    (hquiet : ∀ notice, (callback notice).Quiet P) : P.Attended s
    (subject.register callback).2 := by
  obtain ⟨others, hsubs, hothers⟩ := h.subscribers
  refine ⟨h.owned, others ++ [⟨subject.nextId, callback⟩], ?_, fun sub hsub => ?_⟩
  · simp [Subject.register, hsubs]
  · rcases List.mem_append.1 hsub with hold | hnew
    · exact hothers sub hold
    · exact List.mem_singleton.1 hnew ▸ hquiet

/-- A subscriber may leave that is not of the panel. -/
theorem Attended.remove {subject : Subject σ} {id : Nat} (h : P.Attended s subject)
    (hforeign : ¬ P.made.subscriber (.state s) id) : P.Attended s (subject.remove id) := by
  obtain ⟨others, hsubs, hothers⟩ := h.subscribers
  refine ⟨h.owned, others.filter (·.id != id), ?_,
    fun sub hsub => hothers sub (List.mem_filter.1 hsub).1⟩
  have hkept : (Sync.numbered (P.wiring s) : List (Subscriber σ)).filter (·.id != id) =
      Sync.numbered (P.wiring s) := by
    refine List.filter_eq_self.2 fun sub hsub => ?_
    obtain ⟨b, hb, -⟩ := Sync.mem_numbered.1 hsub
    rw [bne_iff_ne]
    rintro rfl
    exact hforeign (h.owned _ (List.getElem?_eq_some_iff.1 hb).1)
  rw [Subject.remove, hsubs, List.filter_append, hkept]

namespace Keeps

theorem refl (w : World σ) : P.Keeps w w :=
  ⟨fun _ h => h, fun _ => rfl, fun _ _ h => h, fun _ _ _ => rfl, Nat.le_refl _⟩

theorem owns (h : P.Keeps w w') (how : P.Owns w) : P.Owns w' := by
  intro x hx l hl
  rw [h.listeners how x hx] at hl
  exact how x hx l hl

theorem trans (h : P.Keeps w w') (h' : P.Keeps w' w'') : P.Keeps w w'' where
  named s hs := h'.named s (h.named s hs)
  behavior s := (h'.behavior s).trans (h.behavior s)
  attended s hs hw := h'.attended s hs (h.attended s hs hw)
  listeners how x hx := (h'.listeners (h.owns how) x hx).trans (h.listeners how x hx)
  length_le := Nat.le_trans h.length_le h'.length_le

/-- A subject with the same subscribers may be put in the place of one. -/
theorem putSubject (w : World σ) {subject : Subject σ}
    (hsame : subject.subscribers = (w.subject (.state s)).subscribers) :
    P.Keeps w (w.putSubject (.state s) subject) where
  named other hother := (World.hasSource_putSubject _ _ _).2 hother
  behavior other := World.behavior_putSubject _ _ other
  attended other _ hw := by
    by_cases hs : other = s
    · subst hs
      by_cases hnamed : w.HasSource (.state other)
      · rw [World.subject_putSubject_self hnamed]
        exact hw.congr hsame
      · rwa [World.subject_putSubject_of_not hnamed]
    · rwa [World.subject_putSubject_of_ne (fun he => hs (SubjectId.state.inj he))]
  listeners _ _ _ := rfl
  length_le := Nat.le_of_eq (by rw [World.document_putSubject])

theorem document (w : World σ) {d : Document} (hlen : w.document.nodes.length ≤ d.nodes.length) :
    P.Keeps w { w with document := d } :=
  ⟨fun _ h => h, fun _ => rfl, fun _ _ h => h, fun _ _ _ => rfl, hlen⟩

theorem edit (w : World σ) (e : Edit) : P.Keeps w (w.edit e).2 := by
  unfold World.edit
  cases he : w.document.edit e with
  | error err => exact refl w
  | ok p => exact .document w (Document.length_le_of_edit he)

theorem assign (w : World σ) (state : StateId) (path : Path) (v : Value) :
    P.Keeps w (w.assign state path v).2 where
  named other hother := by simpa using hother
  behavior other := by simp
  attended other _ hw := by simpa using hw
  listeners _ x _ := by
    obtain ⟨e, h⟩ | ⟨tree, -, h⟩ | ⟨tree, c, -, h⟩ := w.assign_cases state path v <;> rw [h] <;> rfl
  length_le := by simp

end Keeps

namespace Spares

theorem refl (w : World σ) : P.Spares w w :=
  ⟨.refl w, fun _ => rfl, fun _ _ => ⟨rfl, rfl⟩, fun _ _ _ _ _ h => h⟩

theorem trans (h : P.Spares w w') (h' : P.Spares w' w'') : P.Spares w w'' where
  toKeeps := h.toKeeps.trans h'.toKeeps
  data s := (h'.data s).trans (h.data s)
  line s hs := ⟨(h'.line s hs).1.trans (h.line s hs).1, (h'.line s hs).2.trans (h.line s hs).2⟩
  shows s hs b hb v hv := h'.shows s hs b hb v (h.shows s hs b hb v hv)

/-- What leaves states, listeners and the document alone spares the panel. -/
theorem of_same (hnamed : ∀ s, w.HasSource (.state s) → w'.HasSource (.state s))
    (hbehavior : ∀ s, w'.behavior s = w.behavior s)
    (hsubject : ∀ s, w'.subject (.state s) = w.subject (.state s))
    (hdata : ∀ s, w'.data s = w.data s)
    (hlisteners : w'.listeners = w.listeners) (hdocument : w'.document = w.document) :
    P.Spares w w' where
  named := hnamed
  behavior := hbehavior
  attended s _ hw := by rwa [hsubject s]
  listeners _ x _ := by rw [World.listenersFor, World.listenersAt, hlisteners]; rfl
  length_le := Nat.le_of_eq (by rw [hdocument])
  data := hdata
  line s _ := by rw [hsubject s]; exact ⟨rfl, rfl⟩
  shows _ _ _ _ _ hv := by rwa [hdocument]

/-- Changing one subject spares the panel if the subject keeps its line and stays attended. -/
theorem putSubject (w : World σ) {source : SubjectId} {subject : Subject σ}
    (hline : subject.delivering = (w.subject source).delivering ∧
      subject.pending = (w.subject source).pending)
    (hattended : ∀ s, source = .state s → P.Attended s (w.subject (.state s)) →
      P.Attended s subject) :
    P.Spares w (w.putSubject source subject) where
  named other hother := (World.hasSource_putSubject _ _ _).2 hother
  behavior other := World.behavior_putSubject _ _ other
  attended s _ hw := by
    by_cases hs : .state s = source
    · subst hs
      by_cases hnamed : w.HasSource (.state s)
      · rw [World.subject_putSubject_self hnamed]
        exact hattended s rfl hw
      · rwa [World.subject_putSubject_of_not hnamed]
    · rwa [World.subject_putSubject_of_ne hs]
  listeners _ _ _ := by cases source <;> rfl
  length_le := Nat.le_of_eq (by rw [World.document_putSubject])
  data s := World.data_putSubject _ _ s
  line s _ := by
    by_cases hs : .state s = source
    · subst hs
      by_cases hnamed : w.HasSource (.state s)
      · rwa [World.subject_putSubject_self hnamed]
      · rw [World.subject_putSubject_of_not hnamed]
        exact ⟨rfl, rfl⟩
    · rw [World.subject_putSubject_of_ne hs]
      exact ⟨rfl, rfl⟩
  shows _ _ _ _ _ hv := by rwa [World.document_putSubject]

theorem edit (w : World σ) {e : Edit}
    (hforeign : ∀ s ∈ P.states, ∀ b ∈ P.wiring s, e.touches b.element b.property = false) :
    P.Spares w (w.edit e).2 where
  toKeeps := .edit w e
  data := by simp
  line _ _ := by simp
  shows s hs b hb v hv := hv.world_edit (hforeign s hs b hb)

theorem listen (w : World σ) {node : NodeId} {event : String} {owner : Option StateId}
    {callback : Script σ}
    (hforeign : P.Has node → event ≠ "input") : P.Spares w
    (w.listen node event owner callback).2 where
  named s hs := by simpa using hs
  behavior s := by simp
  attended s _ hw := by simpa using hw
  listeners _ x hx := by
    have hnot : (node == x && event == "input") = false := by
      rw [Bool.and_eq_false_iff, beq_eq_false_iff_ne, beq_eq_false_iff_ne]
      by_cases hnode : node = x
      · exact .inr (hforeign (hnode ▸ hx))
      · exact .inl hnode
    simp only [World.listen, World.listenersFor, World.listenersAt, List.filter_append,
      List.filter_filter, List.append_right_eq_self, List.filter_eq_nil_iff, List.mem_singleton]
    rintro l rfl
    simpa [Bool.and_comm] using hnot
  length_le := by simp
  data s := by simp
  line s _ := by simp
  shows _ _ _ _ _ hv := by simpa using hv

theorem unlisten (w : World σ) {id : ListenerId} (hforeign : ¬ P.made.listener id) :
    P.Spares w (w.unlisten id) where
  named s hs := by simpa using hs
  behavior s := by simp
  attended s _ hw := by simpa using hw
  listeners how x hx := by
    have hkept : (w.listenersFor x "input").filter (·.id != id) = w.listenersFor x "input" := by
      refine List.filter_eq_self.2 fun l hl => ?_
      rw [bne_iff_ne]
      rintro rfl
      exact hforeign (how x hx l hl)
    have hlater : (w.unlisten id).listenersFor x "input" =
        (w.listenersFor x "input").filter (·.id != id) := by
      simp only [World.unlisten, World.listenersFor, World.listenersAt, List.filter_filter]
      exact List.filter_congr fun l _ => by simp only [Bool.and_comm, Bool.and_left_comm]
    rw [hlater, hkept]
  length_le := by simp
  data s := by simp
  line s _ := by simp
  shows _ _ _ _ _ hv := by simpa using hv

end Spares

/-! ## Quiet scripts return -/

/-- The script comes to its end, and until then nothing is emitted and the panel is spared. -/
def Returns (P : Panel) (script : Script σ) (w : World σ) : Prop :=
  ∃ t w', Silent t ∧ P.Spares w w' ∧
    ∀ below, Machine.Reaches ⟨w, .run script :: below⟩ t ⟨w', below⟩

/-- A script returns if it goes on with one that does. -/
theorem Returns.after {script next : Script σ} {t : List (Event σ)} (ht : Silent t)
    (hspares : P.Spares w w')
    (hstep : ∀ below, Machine.Reaches ⟨w, .run script :: below⟩ t ⟨w', .run next :: below⟩)
    (hnext : P.Returns next w') : P.Returns script w := by
  obtain ⟨u, w'', hu, hspares', hrest⟩ := hnext
  exact ⟨t ++ u, w'', ht.append hu, hspares.trans hspares',
    fun below => (hstep below).trans (hrest below)⟩

/-- A quiet script returns, whatever is being done around it. -/
theorem returns_quiet {script : Script σ} (h : script.Quiet P) (w : World σ) :
    P.Returns script w := by
  induction h generalizing w with
  | done => exact ⟨[], w, silent_nil, .refl w, fun _ => .perform rfl rfl⟩
  | log entry _ ih =>
    refine .after silent_nil ?_ (fun _ => .perform rfl rfl) (ih (w.write entry))
    exact .of_same (by simp) (by simp) (by simp) (by simp) rfl rfl
  | readMemory _ ih => exact .after silent_nil (.refl w) (fun _ => .perform rfl rfl) (ih w.memory w)
  | writeMemory memory _ ih =>
    refine .after silent_nil ?_ (fun _ => .perform rfl rfl) (ih { w with memory })
    exact .of_same (fun _ h => h) (fun _ => rfl) (fun _ => rfl) (fun _ => rfl) rfl rfl
  | readState state _ ih =>
    exact .after silent_nil (.refl w) (fun _ => .perform rfl rfl) (ih (w.stateView state) w)
  | retain state _ ih =>
    refine .after silent_nil ?_ (fun _ => .perform rfl rfl) (ih (w.retain state))
    exact .of_same (by simp) (by simp) (by simp) (by simp) rfl rfl
  | release state _ ih =>
    refine .after silent_nil ?_ (fun _ => .perform rfl rfl) (ih (w.release state))
    exact .of_same (by simp) (by simp) (by simp) (by simp) rfl rfl
  | readSubject source _ ih =>
    exact .after silent_nil (.refl w) (fun _ => .perform rfl rfl) (ih (w.subject source).view w)
  | @subscribe source callback next called _ ihCalled ihRest =>
    have hjoined : P.Spares w (w.register source callback).2 := by
      refine .putSubject w ⟨rfl, rfl⟩ fun s hs hw => ?_
      subst hs
      exact hw.register called
    -- The new subscriber is called at once, and the script goes on when it has returned.
    obtain ⟨t, w', ht, hspares, hcall⟩ :=
      ihCalled ((w.register source callback).2.subject source).latest (w.register source callback).2
    have hsilent :
        Silent ([.subject source (.joined (w.subject source).nextId (w.subject source).latest)] ++
        (t ++ []) : List (Event σ)) := (silent_singleton rfl).append (ht.append silent_nil)
    refine .after hsilent (hjoined.trans hspares) (fun below => ?_)
      (ihRest (w.register source callback).1 w')
    refine Machine.Reaches.trans (.perform rfl rfl) ((hcall _).trans ?_)
    exact .step rfl rfl
  | @unsubscribe source id _ foreign _ ih =>
    have hsilent : Silent ([.subject source (.left id)] : List (Event σ)) := silent_singleton rfl
    refine .after hsilent ?_ (fun _ => .perform rfl rfl) (ih (w.unsubscribe source id))
    refine .putSubject w ⟨rfl, rfl⟩ fun s hs hw => ?_
    subst hs
    exact hw.remove foreign
  | defer task _ ih =>
    refine .after silent_nil ?_ (fun _ => .perform rfl rfl) (ih (w.defer (.script task)))
    exact .of_same (by simp) (by simp) (by simp) (by simp) rfl rfl
  | pending _ ih =>
    exact .after silent_nil (.refl w) (fun _ => .perform rfl rfl) (ih w.queue.length w)
  | readDocument _ ih =>
    exact .after silent_nil (.refl w) (fun _ => .perform rfl rfl) (ih w.document w)
  | @edit e next foreign _ ih =>
    exact .after silent_nil (.edit w foreign) (fun _ => .perform rfl rfl)
      (ih (w.edit e).1 (w.edit e).2)
  | @listen node event callback next foreign _ ih =>
    exact .after silent_nil (.listen w foreign) (fun _ => .perform rfl rfl)
      (ih (w.listen node event none callback).1 (w.listen node event none callback).2)
  | @unlisten id next foreign _ ih =>
    exact .after silent_nil (.unlisten w foreign) (fun _ => .perform rfl rfl) (ih (w.unlisten id))
  | listeners node _ ih =>
    exact .after silent_nil (.refl w) (fun _ => .perform rfl rfl) (ih (w.listenersAt node).length w)

/-! ## Deliveries -/

/-- Calling a subscriber that keeps a property in step changes the document as it is told to. -/
private theorem reaches_sync (b : Sync) (n : Option Notice) (w : World σ) (below : List (Frame σ)) :
    Machine.Reaches ⟨w, .run (b.script n) :: below⟩ []
      ⟨{ w with document := Sync.hear n w.document b }, below⟩ := by
  obtain ⟨hscript, hsame, -⟩ | ⟨x, hscript, hset, -⟩ := Sync.hear_cases b n w.document
  · rw [hscript, hsame]
    exact .perform rfl rfl
  · rw [hscript, hset]
    exact Machine.Reaches.trans (.perform rfl rfl) (.perform rfl rfl)

/-- A delivery calls a subscriber, which returns, and goes on with those who wait. -/
theorem reaches_called {source : SubjectId} {n : Option Notice} {sub : Subscriber σ}
    {waiting : List (Subscriber σ)} {t : List (Event σ)}
    (hcall : ∀ below, Machine.Reaches ⟨w, .run (sub.callback n) :: below⟩ t ⟨w', below⟩)
    (below : List (Frame σ)) :
    Machine.Reaches ⟨w, .deliver source n (sub :: waiting) :: below⟩
      (.subject source (.called sub.id n) :: t ++ [.subject source (.returned sub.id)])
      ⟨w', .deliver source n waiting :: below⟩ := by
  have hreturn :
      Machine.events ⟨w', .mark (.subscriber source sub.id) :: .deliver source n waiting :: below⟩ =
      [.subject source (.returned sub.id)] := by simp [Machine.events]
  exact (Machine.Reaches.step rfl rfl).trans ((hcall _).trans (.step hreturn rfl))

theorem silent_called {source : SubjectId} {n : Option Notice} {id : Nat} {t : List (Event σ)}
    (ht : Silent t) :
    Silent (.subject source (.called id n) :: t ++ [.subject source (.returned id)]) :=
  ((silent_singleton rfl).append ht).append (silent_singleton rfl)

/-- The subscribers of the panel are called one after the other. -/
private theorem reaches_syncs (source : SubjectId) (n : Option Notice) (l : List Sync)
    (subs : List (Subscriber σ)) (hsubs : subs.map (·.callback) = l.map Sync.script) :
    ∃ t, Silent t ∧ ∀ (w : World σ) waiting below,
      Machine.Reaches ⟨w, .deliver source n (subs ++ waiting) :: below⟩ t
        ⟨{ w with document := l.foldl (Sync.hear n) w.document },
          .deliver source n waiting :: below⟩ := by
  induction l generalizing subs with
  | nil =>
    obtain rfl := List.map_eq_nil_iff.1 hsubs
    exact ⟨[], silent_nil, fun w waiting below => .refl _⟩
  | cons b l ih =>
    obtain ⟨sub, rest, rfl, hcallback, hrest⟩ := List.map_eq_cons_iff.1 hsubs
    obtain ⟨t, ht, hreaches⟩ := ih rest hrest
    have hsilent :
        Silent ([.subject source (.called sub.id n), .subject source (.returned sub.id)] ++ t :
        List (Event σ)) := (silent_called silent_nil).append ht
    refine ⟨_, hsilent, fun w waiting below => ?_⟩
    have hcall (below : List (Frame σ)) : Machine.Reaches ⟨w, .run (sub.callback n) :: below⟩ []
        ⟨{ w with document := Sync.hear n w.document b }, below⟩ := by
      rw [hcallback]
      exact reaches_sync b n w below
    exact (reaches_called hcall below).trans (hreaches _ waiting below)

/-- The quiet subscribers are called after them. -/
private theorem reaches_quiet (source : SubjectId) (n : Option Notice) (subs : List (Subscriber σ))
    (hquiet : ∀ sub ∈ subs, ∀ notice, (sub.callback notice).Quiet P) (w : World σ) :
    ∃ t w', Silent t ∧ P.Spares w w' ∧ ∀ below,
      Machine.Reaches ⟨w, .deliver source n subs :: below⟩ t ⟨w',
        .deliver source n [] :: below⟩ := by
  induction subs generalizing w with
  | nil => exact ⟨[], w, silent_nil, .refl w, fun _ => .refl _⟩
  | cons sub subs ih =>
    obtain ⟨t, w₁, ht, hspares, hcall⟩ := returns_quiet (hquiet sub List.mem_cons_self n) w
    obtain ⟨u, w₂, hu, hspares', hrest⟩ :=
      ih (fun other hother => hquiet other (List.mem_cons_of_mem _ hother)) w₁
    exact ⟨_, w₂, (silent_called ht).append hu, hspares.trans hspares', fun below =>
      (reaches_called hcall below).trans (hrest below)⟩

/-! ## Writes -/

/-- Nothing is in progress at the states of the panel, nothing but it reacts to them and to input at
its elements, and those who have joined them besides are quiet. -/
structure Rests (P : Panel) (w : World σ) : Prop where
  named : ∀ s ∈ P.states, w.HasSource (.state s)
  attended : ∀ s ∈ P.states, P.Attended s (w.subject (.state s))
  idle : ∀ s ∈ P.states, (w.subject (.state s)).Idle
  watchers : ∀ s ∈ P.states, (w.behavior s).watchers = []
  hook : ∀ s ∈ P.states, (w.behavior s).hook? = none
  owns : P.Owns w
  rendered : ∀ s ∈ P.states, ∀ x ∈ P.sites s, x.node < w.document.nodes.length
  controls : ∀ s ∈ P.states, ∀ x ∈ P.sites s, (w.listenersFor x.node "input").map (·.callback) =
    x.models.map (Render.inputScript x.node s)

theorem Rests.keeps (h : P.Rests w) (hk : P.Keeps w w')
    (hidle : ∀ s ∈ P.states, (w'.subject (.state s)).Idle) : P.Rests w' where
  named s hs := hk.named s (h.named s hs)
  attended s hs := hk.attended s hs (h.attended s hs)
  idle := hidle
  watchers s hs := hk.behavior s ▸ h.watchers s hs
  hook s hs := hk.behavior s ▸ h.hook s hs
  owns := hk.owns h.owns
  rendered s hs x hx := Nat.lt_of_lt_of_le (h.rendered s hs x hx) hk.length_le
  controls s hs x hx := hk.listeners h.owns x.node ⟨s, hs, x, hx, rfl⟩ ▸ h.controls s hs x hx

theorem Rests.spares (h : P.Rests w) (hspares : P.Spares w w') : P.Rests w' :=
  h.keeps hspares.toKeeps fun s hs =>
    ⟨(hspares.line s hs).1.trans (h.idle s hs).delivering,
      (hspares.line s hs).2.trans (h.idle s hs).pending⟩

variable {q : Path} {v : Value} {t : List (Event σ)}

/-- What a subscriber makes of what its path read at a state, when a notice of a state was
delivered. -/
def heardAt (s : StateId) (n : Option Notice) (other : StateId) (b : Sync) (v : Value) : Value :=
  if other = s then b.heard v n else v

/-- What a delivery to the subscribers of the state has come to. -/
structure Delivered (P : Panel) (s : StateId) (n : Option Notice) (w w' : World σ) : Prop
    extends P.Keeps w w' where
  data : ∀ other, w'.data other = w.data other
  line : ∀ other ∈ P.states, (w'.subject (.state other)).delivering =
    (w.subject (.state other)).delivering ∧
    (w'.subject (.state other)).pending = (w.subject (.state other)).pending
  shows : ∀ other ∈ P.states, ∀ id b, (P.wiring other)[id]? = some b → P.wiring.Sole other id b →
    ∀ v, w.document.Holds b.element b.property v →
      w'.document.Holds b.element b.property (heardAt s n other b v)

private theorem callback_numbered (l : List Sync) :
    (Sync.numbered l : List (Subscriber σ)).map (·.callback) = l.map Sync.script := by
  refine List.ext_getElem? fun k => ?_
  simp only [Sync.numbered, List.getElem?_map, List.getElem?_mapIdx]
  cases l[k]? <;> rfl

/-- A notice is delivered to all subscribers of a state. -/
theorem Attended.delivered (h : P.Attended s (w.subject (.state s))) (n : Option Notice) :
    ∃ t w', Silent t ∧ P.Delivered s n w w' ∧ ∀ below,
      Machine.Reaches ⟨w, .deliver (.state s) n (w.subject (.state s)).subscribers :: below⟩ t
        ⟨w', .deliver (.state s) n [] :: below⟩ := by
  obtain ⟨others, hsubs, hothers⟩ := h.subscribers
  obtain ⟨t, ht, hsyncs⟩ := reaches_syncs (.state s) n (P.wiring s) (Sync.numbered (P.wiring s))
    (callback_numbered (σ := σ) _)
  let heard : World σ := { w with document := (P.wiring s).foldl (Sync.hear n) w.document }
  obtain ⟨u, w', hu, hspares, hquiet⟩ := reaches_quiet (.state s) n others hothers heard
  have hkeeps : P.Keeps w heard := .document w (Sync.length_foldl_hear n _ _)
  refine ⟨t ++ u, w', ht.append hu, ⟨hkeeps.trans hspares.toKeeps, hspares.data, hspares.line, ?_⟩,
    fun below => ?_⟩
  · intro other hother id b hb hsole v hv
    refine hspares.shows other hother b (List.mem_of_getElem? hb) _ ?_
    by_cases hs : other = s
    · subst hs
      rw [heardAt, if_pos rfl]
      exact Sync.holds_foldl hb hv fun id' b' hb' he hp => (hsole other id' b' hb' he hp).2
    · rw [heardAt, if_neg hs]
      refine Sync.holds_foldl_of_other hv fun b' hb' he => Bool.eq_false_iff.2 fun hp => ?_
      -- The property is written for its own state only.
      obtain ⟨id', hid'⟩ := List.mem_iff_getElem?.1 hb'
      exact hs (hsole s id' b' hid' he hp).1.symm
  · rw [hsubs]
    exact (hsyncs w others below).trans (hquiet below)

/-- A notice emitted at a state at which nothing is in progress is delivered, and the delivery
ends. -/
theorem Attended.emitted (h : P.Attended s (w.subject (.state s))) (hs : s ∈ P.states)
    (hnamed : w.HasSource (.state s)) (hidle : (w.subject (.state s)).Idle) (n : Notice) :
    ∃ t w', Silent t ∧ P.Delivered s (some n) w w' ∧ ∀ below,
      (Machine.emit w below (.state s) n).Reaches t ⟨w', below⟩ := by
  let opened := w.putSubject (.state s) { (w.subject (.state s)).enqueue n with delivering := true }
  let begun :=
    opened.putSubject (.state s) { opened.subject (.state s) with latest := some n, pending := [] }
  have hopened : opened.subject (.state s) =
      { (w.subject (.state s)).enqueue n with delivering := true } :=
    World.subject_putSubject_self hnamed _
  have hline : (opened.subject (.state s)).pending = [n] := by
    rw [hopened]
    exact congrArg (· ++ [n]) hidle.pending
  have hbegun : begun.subject (.state s) =
      { opened.subject (.state s) with latest := some n, pending := [] } :=
    World.subject_putSubject_self ((World.hasSource_putSubject _ _ _).2 hnamed) _
  have hkeeps : P.Keeps w opened := .putSubject w rfl
  have hkeeps' : P.Keeps opened begun := .putSubject opened rfl
  obtain ⟨t, w₁, ht, hd, hcalls⟩ :=
    Attended.delivered (hkeeps'.attended s hs (hkeeps.attended s hs h)) (some n)
  have hlast : (w₁.subject (.state s)).pending = [] := by rw [(hd.line s hs).2, hbegun]
  let closed := w₁.putSubject (.state s) { w₁.subject (.state s) with delivering := false }
  have hclosed : closed.subject (.state s) = { w₁.subject (.state s) with delivering := false } :=
    World.subject_putSubject_self (hd.named s (hkeeps'.named s (hkeeps.named s hnamed))) _
  have hkeeps₁ : P.Keeps w₁ closed := .putSubject w₁ rfl
  refine ⟨.subject (.state s) (.begun n) :: t, closed, (silent_singleton rfl).append ht,
    ⟨(hkeeps.trans hkeeps').trans (hd.toKeeps.trans hkeeps₁), fun other => ?_,
      fun other hother => ?_, ?_⟩, fun below => ?_⟩
  · simp [closed, hd.data, begun, opened]
  · by_cases he : other = s
    · subst he
      rw [hclosed]
      exact ⟨hidle.delivering.symm, hlast.trans hidle.pending.symm⟩
    · have hne : SubjectId.state other ≠ .state s := fun h => he (SubjectId.state.inj h)
      have hsame : begun.subject (.state other) = w.subject (.state other) :=
        (World.subject_putSubject_of_ne hne _).trans (World.subject_putSubject_of_ne hne _)
      rw [show closed.subject (.state other) = _ from World.subject_putSubject_of_ne hne _, ← hsame]
      exact hd.line other hother
  · intro other hother id b hb hsole v hv
    have hshows := hd.shows other hother id b hb hsole v (by simpa [begun, opened] using hv)
    simpa [closed] using hshows
  · have hnot : ((w.subject (.state s)).enqueue n).delivering = false := hidle.delivering
    have hemit : Machine.emit w below (.state s) n =
        ⟨opened, .deliver (.state s) none [] :: below⟩ := by
      simp only [Machine.emit, hnot, Bool.false_eq_true, if_false, opened]
    have hbegin :
        Machine.Reaches ⟨opened, .deliver (.state s) none [] :: below⟩
          [.subject (.state s) (.begun n)]
        ⟨begun, .deliver (.state s) (some n) (begun.subject (.state s)).subscribers :: below⟩ := by
      refine .step (by simp [Machine.events, hline]) ?_
      simp only [Machine.step, Machine.deliver, Subject.begin?, hline, hbegun]
      rfl
    have hend :
        Machine.Reaches ⟨w₁, .deliver (.state s) (some n) [] :: below⟩ [] ⟨closed, below⟩ := by
      refine .step (by simp [Machine.events, hlast]) ?_
      simp only [Machine.step, Machine.deliver, Subject.begin?, hlast, closed]
    rw [hemit, ← List.append_nil t]
    exact hbegin.trans ((hcalls below).trans hend)

/-- What a write to a state of the panel has come to. -/
structure Wrote (P : Panel) (s : StateId) (q : Path) (v : Value) (w : World σ) (t : List (Event σ))
    (w' : World σ) : Prop where
  rests : P.Rests w'
  data : w'.data s = (q.outcome (w.data s) v).1
  others : ∀ other, other ≠ s → w'.data other = w.data other
  emitted : emissions (Machine.atSubject (.state s) t) =
    (q.outcome (w.data s) v).2.toList.map .change
  elsewhere : ∀ source, source ≠ .state s → emissions (Machine.atSubject source t) = []
  shows : ∀ other ∈ P.states, ∀ id b, (P.wiring other)[id]? = some b → P.wiring.Sole other id b →
    ∀ u, w.document.Holds b.element b.property u → w'.document.Holds b.element b.property
      (heardAt s ((q.outcome (w.data s) v).2.map .change) other b u)

/-- Where nothing is emitted nothing is heard. -/
theorem heardAt_none (s other : StateId) (b : Sync) (v : Value) : heardAt s none other b v = v :=
  ite_self v

/-- An effective write is delivered and over. -/
private theorem Rests.set_effective (h : P.Rests w) (hs : s ∈ P.states) {tree : Value} {c : Change}
    (hwrite : q.write (w.data s) v = .ok (tree, some c)) :
    ∃ t w', (Program.set s q v).Returns w t (.ok true) w' ∧ P.Wrote s q v w t w' := by
  have houtcome : q.outcome (w.data s) v = (tree, some c) := by rw [Path.outcome, hwrite]
  let written := (w.modifyState s fun st => { st with data := tree }).write (World.changeRecord c)
  have hassign : w.assign s q v = (.ok (some c), written) :=
    by simp only [World.assign, hwrite, written]
  have hwritten : (w.assign s q v).2 = written := by rw [hassign]
  have hkeeps : P.Keeps w written := hwritten ▸ .assign w s q v
  have hsubject (source : SubjectId) : written.subject source = w.subject source := by
    rw [← hwritten, World.subject_assign]
  obtain ⟨t, w', ht, hd, hreaches⟩ := (hkeeps.attended s hs (h.attended s hs)).emitted hs
    (hkeeps.named s (h.named s hs)) (hsubject _ ▸ h.idle s hs) (.change c)
  have hkeeps' := hkeeps.trans hd.toKeeps
  refine ⟨[.state s (.wrote q (some c)), .subject (.state s) (.emitted (.change c))] ++
    (t ++ [.state s (.settled c)]), w', fun next below => ?_, ?_, ?_, ?_, ?_,
    fun source hne => ?_, ?_⟩
  · exact (Machine.Reaches.perform (Machine.scriptEvents_set_effective hassign)
      (Machine.perform_set_effective hassign below)).trans ((hreaches _).trans
        (.react (hkeeps'.behavior s ▸ h.watchers s hs) (hkeeps'.behavior s ▸ h.hook s hs) c _))
  · refine h.keeps hkeeps' fun other hother => ?_
    have hline := hd.line other hother
    rw [hsubject] at hline
    exact ⟨hline.1.trans (h.idle other hother).delivering,
      hline.2.trans (h.idle other hother).pending⟩
  · rw [hd.data, houtcome, World.data_write]
    exact World.data_modifyState_self (h.named s hs) tree
  · intro other hne
    rw [hd.data, ← hwritten]
    exact World.data_assign_of_ne hne q v
  · rw [houtcome, emissions_atSubject_append, emissions_atSubject_append, ht, silent_state]
    simp [Machine.atSubject, Event.atSubject?, emissions, SubjectEvent.emitted?]
  · rw [emissions_atSubject_append, emissions_atSubject_append, ht, silent_state]
    simp [Machine.atSubject, Event.atSubject?, emissions, Ne.symm hne]
  · rw [houtcome]
    intro other hother id b hb hsole u hu
    refine hd.shows other hother id b hb hsole u ?_
    rwa [← hwritten, World.document_assign]

/-- A write without a change returns at once. -/
theorem Rests.set_silent (h : P.Rests w) (hs : s ∈ P.states) {tree : Value}
    (hwrite : q.write (w.data s) v = .ok (tree, none)) :
    (Program.set s q v).Returns w [.state s (.wrote q none)] (.ok false)
        (w.modifyState s fun st => { st with data := tree }) ∧
      P.Wrote s q v w [.state s (.wrote q none)]
        (w.modifyState s fun st => { st with data := tree }) := by
  have houtcome : q.outcome (w.data s) v = (tree, none) := by rw [Path.outcome, hwrite]
  have hassign :
      w.assign s q v = (.ok none, w.modifyState s fun st => { st with data := tree }) := by
    simp only [World.assign, hwrite]
  have hwritten : (w.assign s q v).2 = w.modifyState s fun st => { st with data := tree } :=
    by rw [hassign]
  refine ⟨fun next below => .perform (Machine.scriptEvents_set_silent hassign)
    (Machine.perform_set_silent hassign below), ?_⟩
  rw [← hwritten]
  constructor
  case rests =>
    refine h.keeps (.assign w s q v) fun other hother => ?_
    rw [World.subject_assign]
    exact h.idle other hother
  case data =>
    rw [hwritten, houtcome]
    exact World.data_modifyState_self (h.named s hs) tree
  case others => exact fun other hne => World.data_assign_of_ne hne q v
  case emitted =>
    rw [houtcome]
    exact silent_state s _ _
  case elsewhere => exact fun source _ => silent_state s _ source
  case shows =>
    intro other _ id b _ _ u hu
    rw [houtcome, World.document_assign]
    exact (heardAt_none s other b u).symm ▸ hu

/-- A write that is refused changes nothing. -/
theorem Rests.set_refused (h : P.Rests w) {e : PathError}
    (hwrite : q.write (w.data s) v = .error e) : P.Wrote s q v w [] w := by
  have houtcome : q.outcome (w.data s) v = (w.data s, none) := by rw [Path.outcome, hwrite]
  refine ⟨h, by rw [houtcome], fun _ _ => rfl, by rw [houtcome]; rfl, fun _ _ => rfl,
    fun other _ id b _ _ u hu => ?_⟩
  rw [houtcome]
  exact (heardAt_none s other b u).symm ▸ hu

/-- A write to a state of the panel returns. -/
theorem Rests.set (h : P.Rests w) (hs : s ∈ P.states) (q : Path) (v : Value) :
    ∃ t reply w', (Program.set s q v).Returns w t reply w' ∧ P.Wrote s q v w t w' := by
  cases hwrite : q.write (w.data s) v with
  | error e => exact ⟨_, _, w, Program.set_refused hwrite, h.set_refused hwrite⟩
  | ok result =>
    obtain ⟨tree, _ | c⟩ := result
    · exact ⟨_, _, _, h.set_silent hs hwrite⟩
    · obtain ⟨t, w', hset⟩ := h.set_effective hs hwrite
      exact ⟨t, _, w', hset⟩

end Panel

end ReactiveMarkup
