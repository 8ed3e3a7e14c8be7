-- SUMMARY: Programs that return: the reply, the world at the end and what happened on the way.
import ReactiveMarkup.Lens
import ReactiveMarkup.Proofs.Delivery

/-!
# Programs that return

A program returns when what follows it is reached, with a reply, whatever follows and whatever is
being done around it. `Program.Returns` tells the reply, the world at the end and what happened on
the way. Reading returns at once. Writing returns too where the state is unobserved, so that a write
calls nothing back: its delivery goes through the notices in line and ends, and no hook or watcher
is there to react.
-/

namespace ReactiveMarkup

variable {σ α β : Type}

/-! ## Stretches of a run -/

/-- Whether one machine gets to another, with what happens on the way. -/
def Machine.Reaches (m : Machine σ) (t : List (Event σ)) (m' : Machine σ) : Prop :=
  ∃ n, Machine.run n m = m' ∧ Machine.trace n m = t

namespace Machine.Reaches

variable {m m' m'' : Machine σ} {t u : List (Event σ)}

theorem refl (m : Machine σ) : m.Reaches [] m := ⟨0, rfl, rfl⟩

theorem trans (h : m.Reaches t m') (h' : m'.Reaches u m'') : m.Reaches (t ++ u) m'' := by
  obtain ⟨n, hrun, htrace⟩ := h
  obtain ⟨k, hrun', htrace'⟩ := h'
  refine ⟨n + k, ?_, ?_⟩
  · rw [run_add, hrun, hrun']
  · rw [trace_add, hrun, htrace, htrace']

theorem step (hevents : m.events = t) (hstep : m.step = m') : m.Reaches t m' := by
  refine ⟨1, ?_, ?_⟩
  · rw [run_succ, hstep, run]
  · rw [trace, trace, List.append_nil, hevents]

theorem perform {w : World σ} {script : Script σ} {below : List (Frame σ)}
    (hevents : scriptEvents w script = t)
    (hperform : Machine.perform w below script = m') : Reaches ⟨w, .run script :: below⟩ t m' :=
  .step hevents hperform

/-- A write is over where no watcher and no hook is there to react. -/
theorem react {w : World σ} {state : StateId} (hwatchers : (w.behavior state).watchers = [])
    (hhook : (w.behavior state).hook? = none) (c : Change) (below : List (Frame σ)) :
    Reaches ⟨w, .react state c :: below⟩ [.state state (.settled c)] ⟨w, below⟩ := by
  have hnobody := Behavior.watchersOf_eq_nil hwatchers c.path
  have hreact : Reaches ⟨w, .react state c :: below⟩ [] ⟨w, .watch state c [] :: below⟩ :=
    .step (by simp [events, hhook]) (by simp [Machine.step, Machine.react, hhook, hnobody])
  exact hreact.trans (.step rfl rfl)

end Machine.Reaches

/-! ## Returning -/

/-- Whether a program that starts in a world returns, with what happens until then, the reply and
the world at the end. -/
def Program.Returns (x : Program σ α) (w : World σ) (t : List (Event σ)) (a : α)
    (w' : World σ) : Prop :=
  ∀ (next : α → Script σ) (below : List (Frame σ)),
    Machine.Reaches ⟨w, .run (x next) :: below⟩ t ⟨w', .run (next a) :: below⟩

namespace Program

variable {x : Program σ α} {f : α → Program σ β} {w w' w'' : World σ}
  {t u : List (Event σ)} {a a' : α}
  {b : β} {state : StateId} {p : Path} {v tree : Value} {e : PathError} {l : Lens}

theorem returns_pure (a : α) (w : World σ) : (pure a : Program σ α).Returns w [] a w :=
  fun _ _ => .refl _

theorem Returns.bind (hx : x.Returns w t a w') (hf : (f a).Returns w' u b w'') :
    (x >>= f).Returns w (t ++ u) b w'' :=
  fun next below => (hx (fun a => f a next) below).trans (hf next below)

/-- A program has one reply. -/
theorem Returns.reply_unique (h : x.Returns w t a w') (h' : x.Returns w u a' w'') : a = a' := by
  classical
  refine Classical.byContradiction fun hne => ?_
  -- What follows writes another line to the log after another reply, and nothing after it.
  let line (c : α) : Entry := .record .trace (if c = a then "first" else "second")
  have hends {c : α} {w₁ : World σ} {s : List (Event σ)} (hc : x.Returns w s c w₁) :
      ∃ n, ∀ k, Machine.run (n + k) ⟨w, [.run (x fun c => .log (line c) .done)]⟩ =
        ⟨w₁.write (line c), []⟩ := by
    obtain ⟨n, hn, -⟩ := hc (fun c => .log (line c) .done) []
    refine ⟨n + 2, fun k => ?_⟩
    rw [Machine.run_add, Machine.run_add n 2, hn]
    exact Machine.run_of_stack_nil rfl k
  obtain ⟨n, hn⟩ := hends h
  obtain ⟨k, hk⟩ := hends h'
  have hworlds : w'.write (line a) = w''.write (line a') :=
    congrArg Machine.world ((hn k).symm.trans (Nat.add_comm k n ▸ hk n))
  have hlines := (List.append_inj' (congrArg World.log hworlds) rfl).2
  simp [line, Ne.symm hne] at hlines

/-! ## Reading -/

private theorem returns_readState (state : StateId) (w : World σ) :
    (readState state).Returns w [] (w.stateView state) w :=
  fun _ _ => .step rfl rfl

theorem returns_get (state : StateId) (p : Path) (w : World σ) :
    (get state p).Returns w [] (p.get (w.data state)) w :=
  (returns_readState state w).bind (returns_pure _ w)

theorem returns_field (state : StateId) (p : Path) (w : World σ) :
    (field state p).Returns w []
      ((p.get (w.data state)).map fun v => if v.isNested then .nested ⟨state,
        p⟩ else .value v) w := by
  refine (returns_get state p w).bind ?_
  cases p.get (w.data state) with
  | error e => exact returns_pure _ w
  | ok v => exact returns_pure _ w

theorem returns_lensAt (hread : p.get (w.data state) = .ok v) (hv : v.isNested = true) :
    (lensAt state p).Returns w [] (.ok ⟨state, p⟩) w := by
  refine (returns_field state p w).bind ?_
  simp only [hread, Except.map, hv, if_true]
  exact returns_pure _ w

theorem lensAt_refused (h : ∀ v, p.get (w.data state) = .ok v → v.isNested = false) :
    ∃ e, (lensAt state p).Returns w [] (.error e) w := by
  cases hread : p.get (w.data state) with
  | error e =>
    refine ⟨e, (returns_field state p w).bind ?_⟩
    simp only [hread, Except.map]
    exact returns_pure _ w
  | ok v =>
    refine ⟨.notAnObject p.parent p.lastSegment, (returns_field state p w).bind ?_⟩
    simp only [hread, Except.map, h v hread, Bool.false_eq_true, if_false]
    exact returns_pure _ w

/-- A lens that is returned stands for an object or an array at the path. -/
theorem Returns.lensAt_ok (h : (lensAt state p).Returns w t (.ok l) w') :
    l = ⟨state, p⟩ ∧ ∃ v, p.get (w.data state) = .ok v ∧ v.isNested = true := by
  by_cases hnested : ∃ v, p.get (w.data state) = .ok v ∧ v.isNested = true
  · obtain ⟨v, hread, hv⟩ := hnested
    exact ⟨Except.ok.inj (h.reply_unique (returns_lensAt hread hv)), v, hread, hv⟩
  · obtain ⟨e, he⟩ : ∃ e, (lensAt state p).Returns w [] (.error e) w :=
      lensAt_refused fun v hread => Bool.eq_false_iff.2 fun hv => hnested ⟨v, hread, hv⟩
    exact absurd (h.reply_unique he) nofun

/-! ## Writing -/

theorem set_refused (h : p.write (w.data state) v = .error e) :
    (set state p v).Returns w [] (.error e) w := by
  have hassign : w.assign state p v = (.error e, w) := by simp only [World.assign, h]
  exact fun next below =>
    .perform (Machine.scriptEvents_set_refused hassign) (Machine.perform_set_refused hassign below)

theorem modify_refused (h : p.get (w.data state) = .error e) (f : Value → Value) :
    (modify state p f).Returns w [] (.error e) w := by
  refine (returns_get state p w).bind ?_
  rw [h]
  exact returns_pure _ w

end Program

/-- A state with no subscribers, no watchers and no hook. -/
structure World.Unobserved (w : World σ) (state : StateId) : Prop where
  named : w.HasSource (.state state)
  subscribers : (w.subject (.state state)).subscribers = []
  watchers : (w.behavior state).watchers = []
  hook : (w.behavior state).hook? = none

namespace World.Unobserved

variable {w : World σ} {state : StateId} {p : Path} {v tree : Value} {change? : Option Change}

/-- A new state is unobserved until someone joins, unless its behavior reacts. -/
theorem newState (w : World σ) (data : Value) : (w.newState data {}).2.Unobserved
    (w.newState data {}).1 := by
  have hmade : (w.newState data {}).2.states[(w.newState data {}).1]? = some { data } := by
    simp [World.newState]
  exact ⟨by simp [World.newState, HasSource], by simp [subject, hmade], by simp [behavior, hmade],
    by simp [behavior, hmade]⟩

theorem putSubject (h : w.Unobserved state) {s : Subject σ} (hs : s.subscribers = []) :
    (w.putSubject (.state state) s).Unobserved state where
  named := by simpa using h.named
  subscribers := by rwa [subject_putSubject_self h.named]
  watchers := by simpa using h.watchers
  hook := by simpa using h.hook

theorem assign (h : w.Unobserved state) (p : Path) (v : Value) :
    (w.assign state p v).2.Unobserved state where
  named := by simpa using h.named
  subscribers := by simpa using h.subscribers
  watchers := by simpa using h.watchers
  hook := by simpa using h.hook

/-- A delivery that nobody hears goes through the line and ends. -/
theorem deliver (h : w.Unobserved state) : ∃ t w', w'.Unobserved state ∧ w'.data state =
    w.data state ∧ emissions (Machine.atSubject (.state state) t) = [] ∧ ∀ notice below,
      Machine.Reaches ⟨w, .deliver (.state state) notice [] :: below⟩ t ⟨w', below⟩ := by
  generalize hline : (w.subject (.state state)).pending = line
  induction line generalizing w with
  | nil =>
    refine ⟨[], _,
      h.putSubject (s := { w.subject (.state state) with delivering := false }) h.subscribers,
      by simp, rfl, fun notice below => ?_⟩
    obtain ⟨_, _, _, hp, _⟩ | ⟨_, hstep, hevents⟩ :=
      Machine.deliver_nil_cases w below (.state state) notice
    · exact absurd (hp.symm.trans hline) (List.cons_ne_nil _ _)
    · exact .step hevents hstep
  | cons n rest ih =>
    have hbegun := h.putSubject
      (s := { w.subject (.state state) with latest := some n, pending := rest }) h.subscribers
    obtain ⟨t, w', hw', hdata, hquiet, hrest⟩ := ih hbegun (by rw [subject_putSubject_self h.named])
    refine ⟨.subject (.state state) (.begun n) :: t, w', hw', by simpa using hdata,
      ?_, fun notice below => ?_⟩
    · simpa [Machine.atSubject, Event.atSubject?, emissions, SubjectEvent.emitted?] using hquiet
    · obtain ⟨n', rest', s, hp, rfl, hstep, hevents⟩ | ⟨hp, _⟩ :=
        Machine.deliver_nil_cases w below (.state state) notice
      · obtain ⟨rfl, rfl⟩ := List.cons.inj (hp.symm.trans hline)
        -- The next notice is begun for nobody.
        rw [show ({ w.subject (.state state)
          with latest := some n', pending := rest' } : Subject σ).subscribers
          = [] from h.subscribers] at hstep
        exact (Machine.Reaches.step hevents hstep).trans (hrest (some n') below)
      · exact absurd (hline.symm.trans hp) (List.cons_ne_nil _ _)

/-- A notice that is emitted for nobody joins the line, which is gone through unless that is being
done. -/
theorem emit (h : w.Unobserved state) (n : Notice) : ∃ t w', w'.Unobserved state ∧
    w'.data state = w.data state ∧ emissions (Machine.atSubject (.state state) t) = [] ∧
    ∀ below, (Machine.emit w below (.state state) n).Reaches t ⟨w', below⟩ := by
  have hjoined := h.putSubject (s := (w.subject (.state state)).enqueue n) h.subscribers
  cases hd : ((w.subject (.state state)).enqueue n).delivering with
  | true =>
    refine ⟨[], _, hjoined, by simp, rfl, fun below => ?_⟩
    simp only [Machine.emit, hd, if_true]
    exact .refl _
  | false =>
    have hopened := h.putSubject
      (s := { (w.subject (.state state)).enqueue n with delivering := true }) h.subscribers
    obtain ⟨t, w', hw', hdata, hquiet, hreaches⟩ := hopened.deliver
    refine ⟨t, w', hw', by simpa using hdata, hquiet, fun below => ?_⟩
    simp only [Machine.emit, hd, Bool.false_eq_true, if_false]
    exact hreaches none below

/-- Nothing reacts to a write. -/
theorem react (h : w.Unobserved state) (c : Change) (below : List (Frame σ)) :
    Machine.Reaches ⟨w, .react state c :: below⟩ [.state state (.settled c)] ⟨w, below⟩ :=
  .react h.watchers h.hook c below

/-- A write to the state returns. It emits its change, if it is effective, and nothing else. -/
theorem set (h : w.Unobserved state) (hwrite : p.write (w.data state) v = .ok (tree, change?)) :
    ∃ t w', (Program.set state p v).Returns w t (.ok change?.isSome) w' ∧ w'.Unobserved state ∧
      w'.data state = tree ∧
      emissions (Machine.atSubject (.state state) t) = change?.toList.map .change := by
  have hlt : state < w.states.length := h.named
  have hassigned := h.assign p v
  cases change? with
  | none =>
    have hassign :
        w.assign state p v = (.ok none, w.modifyState state fun s => { s with data := tree }) := by
      simp only [World.assign, hwrite]
    rw [hassign] at hassigned
    exact ⟨_, _, fun next below => .perform (Machine.scriptEvents_set_silent hassign)
      (Machine.perform_set_silent hassign below), hassigned, data_modifyState_self hlt tree, rfl⟩
  | some c =>
    have hassign : w.assign state p v =
        (.ok (some c),
          (w.modifyState state fun s => { s with data := tree }).write (changeRecord c)) := by
      simp only [World.assign, hwrite]
    rw [hassign] at hassigned
    obtain ⟨t, w', hw', hdata, hquiet, hemit⟩ := hassigned.emit (.change c)
    refine ⟨_, w', fun next below =>
      (Machine.Reaches.perform (Machine.scriptEvents_set_effective hassign)
        (Machine.perform_set_effective hassign below)).trans ((hemit _).trans (hw'.react c _)),
          hw', ?_, ?_⟩
    · rw [hdata, data_write]
      exact data_modifyState_self hlt tree
    · simpa [Machine.atSubject, Event.atSubject?, emissions, SubjectEvent.emitted?] using hquiet

end World.Unobserved

end ReactiveMarkup
