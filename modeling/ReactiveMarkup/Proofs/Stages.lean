-- SUMMARY: Subscribers, hook and watchers of one write, in their order.
import ReactiveMarkup.Proofs.Freshness
import ReactiveMarkup.Proofs.Hearing
import ReactiveMarkup.Proofs.WriteOrder

/-!
# The stages of a write

An effective write hands its change to the subscribers, defers the hook and then calls the watchers
of the path. Handing over is calling only while no delivery of the state is in progress: then every
subscriber has been called with the change when the first watcher is called. During a delivery the
change waits in line, and the watchers are called before any subscriber.
-/

namespace ReactiveMarkup

variable {σ : Type}

/-- Whoever is registered and does not leave stays registered. -/
private theorem Roll.stays_registered_foldl {id : Nat} (t : List SubjectEvent) {r : Roll}
    (h : id ∈ r.registered)
    (hleft : SubjectEvent.left id ∉ t) : id ∈ (t.foldl Roll.after r).registered := by
  induction t generalizing r with
  | nil => exact h
  | cons e t ih =>
    refine ih ?_ fun hmem => hleft (List.mem_cons_of_mem _ hmem)
    cases e with
    | joined i latest => exact List.mem_append_left _ h
    | left i =>
      have hne : id ≠ i := fun he => hleft (he ▸ List.mem_cons_self)
      exact List.mem_filter.2 ⟨h, by simpa using hne⟩
    | emitted _ | begun _ | called _ _ | returned _ => exact h

namespace Machine

/-! ## Runs from the middle of another -/

/-- The invariant of a subject holds of every run from a machine without a delivery from it. -/
private theorem serving_from {m : Machine σ} {source : SubjectId} (hs : m.Serves source)
    (hi : (m.world.subject source).Idle) (hn : (m.world.subject source).Numbered) (n : Nat) :
    (run n m).Serves source ∧
      Serving (m.world.subject source) (atSubject source (trace n m))
        ((run n m).service source) := by
  refine trace_induction (P := fun t m' => m'.Serves source ∧
    Serving (m.world.subject source) (atSubject source t) (m'.service source)) ?_ ?_ n
  · have hnone : m.service source = ⟨m.world.subject source, none⟩ := by
      rw [service, deliveryOn_of_idle hs hi.delivering]
    exact ⟨hs, hnone ▸ serving_start hi hn⟩
  · rintro k ⟨hs', hv⟩
    obtain ⟨hstep, hs''⟩ := serve_step hs'
    refine ⟨hs'', ?_⟩
    rw [atSubject, List.filterMap_append]
    exact hv.serve hstep

section Write

variable {m : Machine σ} {w : World σ} {state : StateId} {path : Path} {v : Value}
  {next : Except PathError Bool → Script σ} {below : List (Frame σ)} {c : Change}

theorem events_write (hwrite : m.stack = .run (.set state path v next) :: below)
    (heffective : m.world.assign state path v = (.ok (some c), w)) :
    m.events =
      [.state state (.wrote path (some c)), .subject (.state state) (.emitted (.change c))] := by
  rw [events, hwrite]
  exact scriptEvents_set_effective heffective

/-- What an effective write does first is to emit its change. -/
theorem emissions_write (hwrite : m.stack = .run (.set state path v next) :: below)
    (heffective : m.world.assign state path v = (.ok (some c), w)) (n : Nat) :
    emissions (atSubject (.state state) (trace (n + 1) m)) =
      .change c :: emissions (atSubject (.state state) (trace n m.step)) := by
  rw [trace, events_write hwrite heffective]
  simp [atSubject, Event.atSubject?, emissions, SubjectEvent.emitted?]

/-- Where no delivery is in progress when an effective write is made, and none is when it has come
to its watchers, the first call of every subscriber since has been with its change. -/
private theorem called_before_watched (hs : m.Serves (.state state))
    (hi : (m.world.subject (.state state)).Idle) (hn : (m.world.subject (.state state)).Numbered)
    (hwrite : m.stack = .run (.set state path v next) :: below)
    (heffective : m.world.assign state path v = (.ok (some c), w)) {n : Nat}
    {waiting : List (Watcher σ)}
    (hwatch : (run n m).stack = .watch state c waiting :: .run (next (.ok true)) :: below) :
    ((run n m).world.subject (.state state)).delivering = false ∧
      ∀ sub ∈ (m.world.subject (.state state)).subscribers,
        SubjectEvent.left sub.id ∉ atSubject (.state state) (trace n m) →
        (callsTo sub.id (atSubject (.state state) (trace n m))).head? =
          some (some (.change c)) := by
  have hbelow : below.countP (Frame.deliversFrom (.state state)) = 0 := by
    have hb := hs.balanced
    rw [hwrite, hi.delivering] at hb
    simpa [Frame.deliversFrom] using hb
  have hnone : (run n m).stack.countP (Frame.deliversFrom (.state state)) = 0 := by
    rw [hwatch]
    simpa [Frame.deliversFrom] using hbelow
  obtain ⟨hs', hserving⟩ := serving_from hs hi hn n
  refine ⟨hs'.delivering_eq_false hnone, fun sub hsub hleft => ?_⟩
  obtain ⟨n, rfl⟩ : ∃ k, n = k + 1 := by
    cases n with
    | zero =>
      rw [run, hwrite] at hwatch
      cases hwatch
    | succ k => exact ⟨k, rfl⟩
  rw [hserving.callsTo_eq ((deliveryOn_eq_none_iff _ none).2 hnone) hsub hleft,
    emissions_write hwrite heffective]
  rfl

/-- An effective write made during a delivery of its state comes to its watchers at once. -/
private theorem watched_before_called (hwrite : m.stack = .run (.set state path v next) :: below)
    (heffective : m.world.assign state path v = (.ok (some c), w))
    (hdelivering : (m.world.subject (.state state)).delivering = true) :
    (run 2 m).stack =
        .watch state c ((m.world.behavior state).watchersOf path) :: .run
          (next (.ok true)) :: below ∧
      ∀ id, callsTo id (atSubject (.state state) (trace 2 m)) = [] := by
  have hevents := events_write hwrite heffective
  obtain ⟨world, stack⟩ := m
  obtain rfl : stack = .run (.set state path v next) :: below := hwrite
  obtain rfl : (world.assign state path v).2 = w := by rw [heffective]
  obtain rfl : c.path = path := World.path_of_assign heffective
  have hline :
      ((((world.assign state c.path v).2).subject (.state state)).enqueue (.change c)).delivering =
      true := by
    rw [World.subject_assign]
    exact hdelivering
  have hstep : step ⟨world, .run (.set state c.path v next) :: below⟩ =
      ⟨(world.assign state c.path v).2.putSubject (.state state)
          ((((world.assign state c.path v).2).subject (.state state)).enqueue (.change c)),
        .react state c :: .run (next (.ok true)) :: below⟩ := by
    refine (perform_set_effective heffective below).trans ?_
    rw [emit, if_pos hline]
  constructor
  · rw [run_succ, run_succ, hstep]
    simp [run, step, react]
  · intro id
    rw [trace, trace, hstep, hevents, trace]
    cases hh : (world.behavior state).hook?.isSome <;>
      simp [events, hh, atSubject, Event.atSubject?, callsTo, SubjectEvent.callTo?]

end Write

/-! ## Above a delivery -/

/-- While a script runs that a delivery waits for, this delivery does nothing, and there is no other
one from its source. -/
private theorem served_events_above {m : Machine σ} {source : SubjectId} (hs : m.Serves source)
    {above rest : List (Frame σ)} {script : Script σ}
    (hstack : m.stack = above ++ .run script :: rest)
    (hrest : 0 < rest.countP (Frame.deliversFrom source)) :
    served (atSubject source m.events) = [] := by
  -- The frame that delivers lies in `rest`, so there is none above the script.
  have habove : ∀ f ∈ above, f.deliversFrom source = false := by
    have hb := hs.balanced
    have hle : (if (m.world.subject source).delivering then 1 else 0) ≤ 1 := by split <;> omega
    rw [← hb, hstack, List.countP_append,
      List.countP_cons_of_neg (by simp [Frame.deliversFrom])] at hle
    have hnone : above.countP (Frame.deliversFrom source) = 0 := by omega
    simpa [List.countP_eq_zero] using hnone
  refine List.filter_eq_nil_iff.2 fun e he hserved => ?_
  have harises := arises_of_mem_events (mem_of_mem_atSubject he)
  rw [hstack] at harises
  generalize hframes : above ++ .run script :: rest = frames at harises
  cases harises with
  | publish _ | emit | join | leave | release _ _ => cases hserved
  | begin_ _ | call =>
    obtain ⟨-, htop⟩ | ⟨above', rfl, -⟩ := List.append_eq_cons_iff.1 hframes
    · cases htop
    · simpa [Frame.deliversFrom] using habove _ List.mem_cons_self
  | return_ =>
    obtain ⟨-, htop⟩ | ⟨above', rfl, hbelow⟩ := List.append_eq_cons_iff.1 hframes
    · cases htop
    · obtain ⟨-, htop⟩ | ⟨above'', rfl, -⟩ := List.append_eq_cons_iff.1 hbelow.symm
      · cases htop
      · simpa [Frame.deliversFrom] using habove _ (List.mem_cons_of_mem _ List.mem_cons_self)

/-- Whoever does not join, and is not called by a delivery, is not called. -/
private theorem callsTo_eq_nil {t : List SubjectEvent} {id : Nat} (hserved : served t = [])
    (hid : id ∉ joiners t) : callsTo id t = [] := by
  refine List.filterMap_eq_nil_iff.2 fun e he => ?_
  have hnot := List.filter_eq_nil_iff.1 hserved e he
  cases e with
  | joined i latest =>
    have hne : i ≠ id := by
      rintro rfl
      exact hid (List.mem_filterMap.2 ⟨_, he, rfl⟩)
    simp [SubjectEvent.callTo?, hne]
  | called i notice => exact absurd rfl hnot
  | emitted _ | left _ | begun _ | returned _ => rfl

/-- A write made during a delivery of its state returns before this delivery goes on: until it has
returned, its watchers and all that they do included, no delivery calls anyone. -/
private theorem unserved_until_returned {m : Machine σ} {state : StateId} {path : Path} {v : Value}
    {next : Except PathError Bool → Script σ} {below : List (Frame σ)}
    (hs : m.Serves (.state state))
    (hwrite : m.stack = .run (.set state path v next) :: below)
    (hdelivering : (m.world.subject (.state state)).delivering = true) {n : Nat}
    (hopen : ∀ j, 0 < j → j < n → .run (next (.ok true)) :: below <:+ (run j m).stack) :
    served (atSubject (.state state) (trace n m)) = [] := by
  have hbelow : 0 < below.countP (Frame.deliversFrom (.state state)) := by
    have hb := hs.balanced
    rw [hwrite, hdelivering, List.countP_cons_of_neg (by simp [Frame.deliversFrom])] at hb
    simp [hb]
  -- Every stack until then has a script above the delivery: that of the write, or what goes on
  -- after it.
  have hstack : ∀ j < n, ∃ above script, (run j m).stack = above ++ .run script :: below := by
    intro j hj
    rcases Nat.eq_zero_or_pos j with rfl | hpos
    · exact ⟨[], _, hwrite⟩
    · obtain ⟨above, habove⟩ := hopen j hpos hj
      exact ⟨above, _, habove.symm⟩
  suffices ∀ k ≤ n, (run k m).Serves (.state state) ∧
  served (atSubject (.state state) (trace k m)) = [] from (this n (Nat.le_refl n)).2
  intro k hk
  induction k with
  | zero => exact ⟨hs, rfl⟩
  | succ k ih =>
    obtain ⟨hserves, hserved⟩ := ih (Nat.le_of_lt hk)
    obtain ⟨above, script, habove⟩ := hstack k hk
    refine ⟨run_succ_step k m ▸ (serve_step hserves).2, ?_⟩
    rw [trace_succ, atSubject, List.filterMap_append, served_append]
    exact List.append_eq_nil_iff.2 ⟨hserved, served_events_above hserves habove hbelow⟩

/-! ## The bindings of a mounted module -/

/-- Whoever is registered at the start of a run and does not leave is registered at its end. -/
theorem exists_subscriber_run {w : World σ} {source : SubjectId} (hw : w.HasSource source)
    (hi : (w.subject source).Idle) (hn : (w.subject source).Numbered)
    (script : Script σ) {n id : Nat}
    (hid : id ∈ (w.subject source).subscribers.map (·.id))
    (hleft : SubjectEvent.left id ∉ atSubject source (trace n ⟨w, [.run script]⟩)) :
    ∃ sub ∈ ((run n ⟨w, [.run script]⟩).world.subject source).subscribers, sub.id = id := by
  have hserving := (serving_run hw hi hn script n).2
  have hmem := Roll.stays_registered_foldl _ (r := ⟨(w.subject source).latest, _, [], []⟩) hid hleft
  have hregistered :
      id ∈ ((run n ⟨w, [.run script]⟩).world.subject source).subscribers.map (·.id) :=
    hserving.registered ▸ hmem
  exact List.mem_map.1 hregistered

/-- In the first steps from a machine the property of the site is written by the bindings of the
module only, which stay, and no write to the state goes below the place that the path names. -/
structure LeftToBindings (md : Module) (i : Instance) (start : Machine σ) (n : Nat) (s : Site)
    (property : String) (path : Path) : Prop where
  plain : path.isPlain = true
  written : ∀ q ∈ written (atState i.state (trace n start)), q.isPlain = true ∧
    path.isAbove q = false
  stay : ∀ id ∈ i.subscriptions, SubjectEvent.left id ∉ atSubject (.state i.state) (trace n start)
  alone : ∀ j < n, editsByHand md.owns s.node property (run j start) = false

/-- After a mount the property of a site shows what its path reads whenever nothing delivers from
its state. -/
private theorem shows_of_mount {base : Nat} {w : World σ} {md : Module} {placed : List Placed}
    (hassembled : Assembled base ⟨w, md.instances⟩ placed) {k : Nat} {i : Instance}
    (hk : md.instances[k]? = some i) {s : Site} (hs : s ∈ sitesAt placed k)
    {before after : List Markup.Attribute} {a : Markup.Attribute} {property : String} {path : Path}
    (hties : s.Ties before a after property path) (script : Script σ) (n : Nat)
    (hleft : LeftToBindings md i ⟨w, [.run script]⟩ n s property path)
    (hidle : ((run n ⟨w, [.run script]⟩).world.subject (.state i.state)).delivering = false) :
    (run n ⟨w, [.run script]⟩).world.document.Shows s.node property
      (path.valueOrNull ((run n ⟨w, [.run script]⟩).world.data i.state)) := by
  obtain ⟨hstate, hids⟩ := hassembled.joined.instances k i hk
  obtain ⟨v, hv, hholds⟩ :=
    hassembled.displayed.inStep _ (mem_sitesAt.1 hs) before a after property path hties
  obtain ⟨id, hid, hsole⟩ := hassembled.displayed.sole hs hties
  have hstart : w.document.Holds s.node property (path.valueOrNull (w.data i.state)) := by
    rw [hstate, Path.valueOrNull, hv]
    exact hholds
  have hsub : id ∈ i.subscriptions := by
    rw [hids, List.mem_range, ← wiringOf_add base]
    exact (List.getElem?_eq_some_iff.1 hid).1
  rw [← hstate] at hid hsole
  exact shows_run hassembled.wired script hid hsole (Path.isProper_of_get hv) hleft.plain hstart n
    (owns_eq hassembled ▸ hleft.alone) hleft.written (hleft.stay id hsub) hidle

/-- The bindings of an instance are registered after a mount. -/
private theorem mem_subscribers_of_mount {base : Nat} {w : World σ} {md : Module}
    {placed : List Placed}
    (hassembled : Assembled base ⟨w, md.instances⟩ placed) {k : Nat} {i : Instance}
    (hk : md.instances[k]? = some i) {id : Nat} (hid : id ∈ i.subscriptions) :
    id ∈ (w.subject (.state i.state)).subscribers.map (·.id) := by
  obtain ⟨hstate, hids⟩ := hassembled.joined.instances k i hk
  have hsubject := hassembled.joined.subject k (List.getElem?_eq_some_iff.1 hk).1
  rw [hids, List.mem_range] at hid
  rw [hstate, hsubject]
  exact List.mem_map.2 ⟨⟨id, _⟩, Sync.mem_numbered.2 ⟨_, List.getElem?_eq_getElem hid, rfl⟩, rfl⟩

/-- The stages of an effective write that is made while no delivery of its state is in progress keep
their order: when it comes to a watcher, every subscriber that was registered when it was made and
has not left has been called, first with its change. So has every binding of a mounted module, and
every property that is tied to a path shows what the path reads. A write made during a delivery
comes to its watchers at once, before any subscriber is called, and until it has returned, so before
every watcher of it, no delivery does anything and nobody is called who was registered when it was
made. -/
theorem stages_in_order {w : World σ} {state : StateId} (hnamed : w.HasSource (.state state))
    (hidle : (w.subject (.state state)).Idle) (hnumbered : (w.subject (.state state)).Numbered)
    (script : Script σ) {k : Nat} {path : Path} {v : Value}
    {next : Except PathError Bool → Script σ}
    {below : List (Frame σ)} {c : Change} {w₁ : World σ}
    (hwrite : (run k ⟨w, [.run script]⟩).stack = .run (.set state path v next) :: below)
    (heffective : (run k ⟨w, [.run script]⟩).world.assign state path v = (.ok (some c), w₁)) :
    let m := run k ⟨w, [.run script]⟩
    ((m.world.subject (.state state)).delivering = false →
      ∀ n watcher waiting,
        (run n m).stack = .watch state c (watcher :: waiting) :: .run (next (.ok true)) :: below →
        (∀ sub ∈ (m.world.subject (.state state)).subscribers,
          SubjectEvent.left sub.id ∉ atSubject (.state state) (trace n m) →
          (callsTo sub.id (atSubject (.state state) (trace n m))).head? = some (some (.change c))) ∧
        ∀ (w₀ : World σ) components root md i, root < w₀.document.nodes.length →
          w₀.mount components root = (.ok md, w) → i ∈ md.instances → i.state = state →
          (∀ id ∈ i.subscriptions,
            SubjectEvent.left id ∉ atSubject (.state state) (trace (k + n) ⟨w, [.run script]⟩) →
            (callsTo id (atSubject (.state state) (trace n m))).head? = some (some (.change c))) ∧
          ∃ component sites,
            (Registry.empty.registerAll components w₀.log).1.get? i.selector = some component ∧
            Rendered (Registry.empty.registerAll components w₀.log).1 w.document component.template
              ((w.document.children i.container).drop
                (w₀.document.children i.container).length) sites ∧
            ∀ s ∈ sites, ∀ before a after property tied, s.Ties before a after property tied →
              LeftToBindings md i ⟨w, [.run script]⟩ (k + n) s property tied →
              (run n m).world.document.Shows s.node property
                (tied.valueOrNull ((run n m).world.data state))) ∧
    ((m.world.subject (.state state)).delivering = true →
      (run 2 m).stack =
          .watch state c ((m.world.behavior state).watchersOf path) :: .run
            (next (.ok true)) :: below ∧
        (∀ id, callsTo id (atSubject (.state state) (trace 2 m)) = []) ∧
        ∀ n, (∀ j, 0 < j → j < n → .run (next (.ok true)) :: below <:+ (run j m).stack) →
          served (atSubject (.state state) (trace n m)) = [] ∧
          ∀ sub ∈ (m.world.subject (.state state)).subscribers,
            callsTo sub.id (atSubject (.state state) (trace n m)) = []) := by
  intro m
  obtain ⟨hserves, hserving⟩ := serving_run hnamed hidle hnumbered script k
  constructor
  case right =>
    intro hdelivering
    obtain ⟨hwatched, huncalled⟩ := watched_before_called hwrite heffective hdelivering
    refine ⟨hwatched, huncalled, fun n hopen => ?_⟩
    have hunserved := unserved_until_returned hserves hwrite hdelivering hopen
    refine ⟨hunserved, fun sub hsub => callsTo_eq_nil hunserved ?_⟩
    exact not_mem_joiners_of_isRegistered hnamed hidle hnumbered script n (List.mem_map_of_mem hsub)
  intro hquiet n watcher waiting hwatch
  have hsettled := hserving.settled (deliveryOn_of_idle hserves hquiet none)
  obtain ⟨hquiet', hcalled⟩ :=
    called_before_watched hserves hsettled.toIdle hserving.numbered hwrite heffective hwatch
  refine ⟨hcalled, fun w₀ components root md i hroot hmount hi hstate => ?_⟩
  subst hstate
  obtain ⟨placed, hassembled, hfilled⟩ := assembled_mount hroot hmount
  obtain ⟨place, hplace⟩ := List.mem_iff_getElem?.1 hi
  obtain ⟨component, hget, hrendered⟩ := hfilled place i hplace
  constructor
  · intro id hid hleft
    have htrace : trace (k + n) ⟨w, [.run script]⟩ = trace k ⟨w, [.run script]⟩ ++ trace n m :=
      trace_add k n _
    rw [htrace, atSubject, List.filterMap_append, List.mem_append, not_or] at hleft
    obtain ⟨sub, hsub, rfl⟩ := exists_subscriber_run hnamed hidle hnumbered script
      (mem_subscribers_of_mount hassembled hplace hid) hleft.1
    exact hcalled sub hsub hleft.2
  · refine ⟨component, sitesAt placed place, hget, hrendered, ?_⟩
    intro s hs before a after property tied hties hleft
    have hrun : run n m = run (k + n) ⟨w, [.run script]⟩ := (run_add k n _).symm
    rw [hrun] at hquiet' ⊢
    exact shows_of_mount hassembled hplace hs hties script (k + n) hleft hquiet'

/-- Writes `2` to a state. -/
def writeTwo : Script Unit := .set 0 ⟨["a"]⟩ (.integer 2) fun _ => .done

theorem stages_in_order_replacing :
    let m : Machine Unit := ⟨{ memory := (), states := [replacing] }, [.run writeTwo]⟩
    (∃ watcher, (run 7 m).stack =
      .watch 0 ⟨⟨["a"]⟩, .integer 0, .integer 2⟩ [watcher] :: [.run .done]) ∧
      (callsTo 0 (atSubject (.state 0) (trace 7 m))).head? =
        some (some (.change ⟨⟨["a"]⟩, .integer 0, .integer 2⟩)) := by
  intro m
  have hwatch : (run 7 m).stack =
      .watch 0 ⟨⟨["a"]⟩, .integer 0, .integer 2⟩ [fun _ _ _ => .done] :: [.run .done] := rfl
  have hstays : (atSubject (.state 0) (trace 7 m)).all
      (fun e => e.isServed || e.emitted?.isSome || e.joined?.isSome) = true := by decide +kernel
  have hleft : SubjectEvent.left 0 ∉ atSubject (.state 0) (trace 7 m) := by
    intro hmem
    exact absurd (List.all_eq_true.1 hstays _ hmem) (by simp [SubjectEvent.isServed,
      SubjectEvent.emitted?, SubjectEvent.joined?])
  have hnamed : m.world.HasSource (.state 0) := show 0 < 1 by decide
  obtain ⟨hfirst, -⟩ :=
    stages_in_order hnamed ⟨rfl, rfl⟩ ⟨by decide, by decide⟩ writeTwo (k := 0) rfl rfl
  exact ⟨⟨_, hwatch⟩, (hfirst rfl 7 _ [] hwatch).1 _ List.mem_cons_self hleft⟩

/-- The subscriber writes while the first change is with it. Its write comes to the watcher before
the subscriber, who is still registered, has been called with the second change. -/
theorem watched_before_subscriber :
    let m : Machine Unit := run 3 ⟨{ memory := (), states := [replacing] }, [.run writeOne]⟩
    ∃ next below w₁ watcher,
      m.stack = .run (.set 0 ⟨["a"]⟩ (.integer 2) next) :: below ∧
      m.world.assign 0 ⟨["a"]⟩ (.integer 2) = (.ok (some ⟨⟨["a"]⟩, .integer 1, .integer 2⟩), w₁) ∧
      (run 2 m).stack =
        .watch 0 ⟨⟨["a"]⟩, .integer 1, .integer 2⟩ [watcher] :: .run (next (.ok true)) :: below ∧
      (m.world.subject (.state 0)).subscribers.map (·.id) = [0] ∧
      callsTo 0 (atSubject (.state 0) (trace 2 m)) = [] :=
  ⟨_, _, _, _, rfl, rfl, rfl, rfl, rfl⟩

end Machine

end ReactiveMarkup
