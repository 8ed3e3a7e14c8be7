-- SUMMARY: What a call starts, how events come about, and where callbacks come from.
import ReactiveMarkup.Proofs.Registration

/-!
# What calls start

`Machine.call?` says who is called next, and the events of a trace tell of calls. `Starts` says what
a call does: the script that is run, with all that it is given, and the frame that goes on when the
script has come to its end. `Arises` says of each event at which step it comes about. Together they
tie what is read off a stack to what the next stack holds. What lies below the innermost frame is
not touched by a step, so whoever waits there finds below itself what was there when it came, and
goes on: `Resumes`.

The script that a subscriber runs is the one that was registered under its number:
`Machine.hasJoined_run`.
-/

namespace ReactiveMarkup

variable {σ : Type}

/-- What begins with something that is not in the first part of a list lies within the second
part. -/
theorem suffix_of_suffix_append {α : Type} {x : α} {l p s : List α} (h : x :: l <:+ p ++ s)
    (hx : x ∉ p) : x :: l <:+ s := by
  induction p with
  | nil => exact h
  | cons y p ih =>
    rw [List.mem_cons, not_or] at hx
    rw [List.cons_append, List.suffix_cons_iff] at h
    obtain heq | h := h
    · exact absurd (List.cons.inj heq).1 hx.1
    · exact ih h hx.2

/-- Registering a subscriber leaves the notice begun last as it is. -/
theorem World.latest_register (w : World σ) (source : SubjectId)
    (callback : Option Notice → Script σ) :
    ((w.register source callback).2.subject source).latest = (w.subject source).latest := by
  by_cases hw : w.HasSource source
  · rw [subject_register_self hw]
    rfl
  · exact congrArg Subject.latest (subject_putSubject_of_not hw _)

/-! ## What lies below -/

namespace Machine

variable {m : Machine σ} {below : List (Frame σ)}

/-- A step leaves alone what lies below the innermost frame. -/
theorem below_step {f : Frame σ} {above : List (Frame σ)} (h : m.stack = f :: above ++ below) :
    ∃ above', m.step.stack = above' ++ below := by
  obtain ⟨w, stack⟩ := m
  obtain rfl : stack = f :: (above ++ below) := h
  obtain ⟨w', pushed, hm, -⟩ := step_advance w f (above ++ below)
  exact ⟨pushed ++ above, by rw [hm, List.append_assoc]⟩

/-- A part of the stack has been on top between the steps `k` and `n`, or something is still above
it. -/
def Resumes (below : List (Frame σ)) (k n : Nat) (m : Machine σ) : Prop :=
  (∃ j ≤ n, k ≤ j ∧ (run j m).stack = below) ∨
    ∃ f above, (run n m).stack = f :: above ++ below

/-- What has come above a part of the stack gets done before the part is touched. -/
theorem resumes_run {k n : Nat} (h : below <:+ (run k m).stack) (hle : k ≤ n) :
    Resumes below k n m := by
  have htop {n : Nat} (hle : k ≤ n) (h : ∃ above, (run n m).stack = above ++ below) :
      Resumes below k n m := by
    obtain ⟨_ | ⟨f, above⟩, hstack⟩ := h
    · exact .inl ⟨n, Nat.le_refl n, hle, hstack⟩
    · exact .inr ⟨f, above, hstack⟩
  obtain ⟨d, rfl⟩ := Nat.exists_eq_add_of_le hle
  induction d with
  | zero => exact htop hle (h.imp fun _ => Eq.symm)
  | succ d ih =>
    obtain ⟨j, hj, hkj, hstack⟩ | ⟨f, above, hstack⟩ := ih (Nat.le_add_right k d)
    · exact .inl ⟨j, Nat.le_succ_of_le hj, hkj, hstack⟩
    · refine htop hle ?_
      rw [← Nat.add_assoc, run_succ_step]
      exact below_step hstack

end Machine

/-! ## Calls -/

/-- What a frame on top of a stack starts: who is called, the script that is run, and the frame that
goes on after it. -/
inductive Starts (w : World σ) (below : List (Frame σ)) :
    Frame σ → Callee → Script σ → Frame σ → Prop
  | join (source : SubjectId) (callback : Option Notice → Script σ) (next : Nat → Script σ) :
      Starts w below (.run (.subscribe source callback next))
        (.subscriber source (w.subject source).nextId) (callback (w.subject source).latest)
        (.run (next (w.subject source).nextId))
  | deliver (source : SubjectId) (notice : Option Notice) (sub : Subscriber σ)
      (waiting : List (Subscriber σ)) :
      Starts w below (.deliver source notice (sub :: waiting)) (.subscriber source sub.id)
        (sub.callback notice) (.deliver source notice waiting)
  | watch (state : StateId) (c : Change) (watcher : Watcher σ) (waiting : List (Watcher σ)) :
      Starts w below (.watch state c (watcher :: waiting)) (.watcher state c.path)
        (watcher state c.previous c.current) (.watch state c waiting)
  | task {script : Script σ} {queue : List (Task σ)} (ran : Nat) (next : Nat → Script σ)
      (front : w.queue = .script script :: queue) :
      Starts w below (.drain ran next) .task script (.drain (ran + 1) next)
  | hook {state : StateId} {c : Change} {hook : ChangeHook σ} {queue : List (Task σ)} (ran : Nat)
      (next : Nat → Script σ) (front : w.queue = .hook state c :: queue)
      (set : (w.behavior state).hook? = some hook)
      (alive : Machine.isAlive w (.drain ran next :: below) state = true) :
      Starts w below (.drain ran next) (.hook state c) (hook state c) (.drain (ran + 1) next)
  | dispatch (l : Listener σ) (waiting : List (Listener σ)) (called : Nat) (next : Nat → Script σ)
      (free : Machine.isCalled below l.id = false) :
      Starts w below (.dispatch (l :: waiting) called next) (.listener l.id l.owner) l.callback
        (.dispatch waiting (called + 1) next)

private theorem Starts.after_ne_mark {w : World σ} {below : List (Frame σ)}
    {f after : Frame σ} {c : Callee}
    {script : Script σ} (h : Starts w below f c script after) (c' : Callee) : after ≠ .mark c' := by
  cases h <;> exact nofun

namespace Machine

variable {m : Machine σ} {c : Callee}

/-- A call puts the script that it starts on the stack with its mark below, and below the mark the
frame that goes on when it has returned. -/
theorem starts_of_call (h : m.call? = some c) :
    ∃ f below script after, m.stack = f :: below ∧ Starts m.world below f c script after ∧
      m.step.stack = .run script :: .mark c :: after :: below := by
  obtain ⟨w, stack⟩ := m
  match stack with
  | [] | .mark _ :: _ | .react _ _ :: _ | .watch _ _ [] :: _ | .deliver _ _ [] :: _
  | .dispatch [] _ _ :: _ => cases h
  | .run script :: below =>
    cases script with
    | subscribe source callback next =>
      cases h
      refine ⟨_, below, _, _, rfl, .join source callback next, ?_⟩
      rw [← w.latest_register source callback]
      rfl
    | done | log _ _ | readMemory _ | writeMemory _ _ | readState _ _ | retain _ _ | release _ _
    | set _ _ _ _ | readSubject _ _ | runPending _ | pending _ | readDocument _ | edit _ _
    | listen _ _ _ _ | emit _ _ _ | unlisten _ _ | listeners _ _ | dispatch _ _ _ | defer _ _
    | unsubscribe _ _ _ | unmount _ _ => cases h
  | .deliver source notice (sub :: waiting) :: below =>
    cases h
    exact ⟨_, below, _, _, rfl, .deliver source notice sub waiting, rfl⟩
  | .watch state change (watcher :: waiting) :: below =>
    cases h
    exact ⟨_, below, _, _, rfl, .watch state change watcher waiting, rfl⟩
  | .drain ran next :: below =>
    have hstep : step ⟨w, .drain ran next :: below⟩ = drain w below ran next := rfl
    rw [hstep]
    obtain ⟨hq, -, -⟩ | ⟨script, queue, hq, hd, -⟩ |
      ⟨state, change, hook, queue, hq, hb, ha, hd, -⟩ |
      ⟨state, change, queue, hq, hnot, -, -⟩ := drain_cases w below ran next
    · simp [call?, hq] at h
    · obtain rfl : .task = c := by simpa [call?, hq] using h
      exact ⟨_, below, _, _, rfl, .task ran next hq, by rw [hd]⟩
    · obtain rfl : .hook state change = c := by simpa [call?, hq, hb, ha] using h
      exact ⟨_, below, _, _, rfl, .hook ran next hq hb ha, by rw [hd]⟩
    · rcases hnot with hnot | hnot <;> simp [call?, hq, hnot] at h
  | .dispatch (l :: waiting) called next :: below =>
    cases hl : isCalled below l.id with
    | true => simp [call?, hl] at h
    | false =>
      obtain rfl : .listener l.id l.owner = c := by simpa [call?, hl] using h
      exact ⟨_, below, _, _, rfl, .dispatch l waiting called next hl, by simp [step, dispatch, hl]⟩

/-- A mark that is on the stack after a step was there before, or is that of the call just made. -/
theorem mark_step {rest : List (Frame σ)} (h : .mark c :: rest <:+ m.step.stack) :
    .mark c :: rest <:+ m.stack ∨ m.call? = some c ∧ m.step.stack.tail = .mark c :: rest := by
  cases hcall : m.call? with
  | none =>
    obtain ⟨w, stack⟩ := m
    cases stack with
    | nil => exact .inl h
    | cons f below =>
      obtain ⟨w', pushed, hm, -, -, hmark⟩ := step_advance w f below
      rw [hm] at h
      -- Frames without a mark came on top.
      have hnot : .mark c ∉ pushed := fun hmem => by simpa [hcall] using hmark c hmem
      exact .inl ((suffix_of_suffix_append h hnot).trans (List.suffix_cons f below))
  | some c' =>
    obtain ⟨f, below, script, after, hstack, hstarts, hstep⟩ := starts_of_call hcall
    rw [hstep, List.suffix_cons_iff, List.suffix_cons_iff, List.suffix_cons_iff] at h
    obtain h | h | h | h := h
    · cases h
    · obtain ⟨hc, rfl⟩ := List.cons.inj h
      obtain rfl := Frame.mark.inj hc
      exact .inr ⟨rfl, by rw [hstep]; rfl⟩
    · exact absurd (List.cons.inj h).1.symm (hstarts.after_ne_mark c)
    · exact .inl (hstack ▸ h.trans (List.suffix_cons f below))

/-- Every mark on the stack is there since the call of its callee, which started a script above
it. -/
theorem exists_call_of_mark {w : World σ} {script : Script σ} {n : Nat} {rest : List (Frame σ)}
    (h : .mark c :: rest <:+ (run n ⟨w, [.run script]⟩).stack) :
    ∃ k < n, (run k ⟨w, [.run script]⟩).call? = some c ∧
      ∃ f below callback after, (run k ⟨w, [.run script]⟩).stack = f :: below ∧
        Starts (run k ⟨w, [.run script]⟩).world below f c callback after ∧
        (run (k + 1) ⟨w, [.run script]⟩).stack = .run callback :: .mark c :: rest ∧
        rest = after :: below := by
  induction n with
  | zero => simp [run, List.suffix_cons_iff] at h
  | succ n ih =>
    rw [run_succ_step] at h
    obtain hold | ⟨hcall, htail⟩ := mark_step h
    · obtain ⟨k, hk, hcalled⟩ := ih hold
      exact ⟨k, Nat.lt_succ_of_lt hk, hcalled⟩
    · obtain ⟨f, below, callback, after, hstack, hstarts, hstep⟩ := starts_of_call hcall
      rw [hstep] at htail
      obtain rfl : after :: below = rest := (List.cons.inj htail).2
      exact ⟨n, Nat.lt_succ_self n, hcall, f, below, callback, after, hstack, hstarts,
        by rw [run_succ_step, hstep], rfl⟩

/-! ## Events -/

end Machine

/-- How an event comes about: the stack at the step in which it does. -/
inductive Arises (w : World σ) : List (Frame σ) → Event σ → Prop
  | silent {w' : World σ} {state : StateId} {path : Path} {v : Value}
      {next : Except PathError Bool → Script σ} {below : List (Frame σ)}
      (assign : w.assign state path v = (.ok none, w')) :
      Arises w (.run (.set state path v next) :: below) (.state state (.wrote path none))
  | write {w' : World σ} {state : StateId} {path : Path} {v : Value} {c : Change}
      {next : Except PathError Bool → Script σ} {below : List (Frame σ)}
      (assign : w.assign state path v = (.ok (some c), w')) :
      Arises w (.run (.set state path v next) :: below) (.state state (.wrote path (some c)))
  | publish {w' : World σ} {state : StateId} {path : Path} {v : Value} {c : Change}
      {next : Except PathError Bool → Script σ} {below : List (Frame σ)}
      (assign : w.assign state path v = (.ok (some c), w')) :
      Arises w (.run (.set state path v next) :: below)
        (.subject (.state state) (.emitted (.change c)))
  | emit {number : Nat} {v : Value} {next : Script σ} {below : List (Frame σ)} :
      Arises w (.run (.emit number v next) :: below) (.subject (.own number) (.emitted (.value v)))
  | join {source : SubjectId} {callback : Option Notice → Script σ} {next : Nat → Script σ}
      {below : List (Frame σ)} :
      Arises w (.run (.subscribe source callback next) :: below)
        (.subject source (.joined (w.subject source).nextId (w.subject source).latest))
  | leave {source : SubjectId} {id : Nat} {next : Script σ} {below : List (Frame σ)} :
      Arises w (.run (.unsubscribe source id next) :: below) (.subject source (.left id))
  | release {md : Module} {i : Instance} {id : Nat} {next : Script σ} {below : List (Frame σ)}
      (hi : i ∈ md.instances) (hid : id ∈ i.subscriptions) :
      Arises w (.run (.unmount md next) :: below) (.subject (.state i.state) (.left id))
  | begin_ {source : SubjectId} {notice : Option Notice} {n : Notice} {line : List Notice}
      {below : List (Frame σ)} (pending : (w.subject source).pending = n :: line) :
      Arises w (.deliver source notice [] :: below) (.subject source (.begun n))
  | call {source : SubjectId} {notice : Option Notice} {sub : Subscriber σ}
      {waiting : List (Subscriber σ)} {below : List (Frame σ)} :
      Arises w (.deliver source notice (sub :: waiting) :: below)
        (.subject source (.called sub.id notice))
  | return_ {source : SubjectId} {id : Nat} {notice : Option Notice} {waiting : List (Subscriber σ)}
      {below : List (Frame σ)} :
      Arises w (.mark (.subscriber source id) :: .deliver source notice waiting :: below)
        (.subject source (.returned id))
  | defer {state : StateId} {c : Change} {below : List (Frame σ)}
      (set : (w.behavior state).hook?.isSome = true) :
      Arises w (.react state c :: below) (.state state (.deferred c))
  | watch {state : StateId} {c : Change} {watcher : Watcher σ} {waiting : List (Watcher σ)}
      {below : List (Frame σ)} :
      Arises w (.watch state c (watcher :: waiting) :: below) (.state state (.watched c watcher))
  | settle {state : StateId} {c : Change} {below : List (Frame σ)} :
      Arises w (.watch state c [] :: below) (.state state (.settled c))
  | hook {state : StateId} {c : Change} {hook : ChangeHook σ} {queue : List (Task σ)} {ran : Nat}
      {next : Nat → Script σ} {below : List (Frame σ)} (front : w.queue = .hook state c :: queue)
      (set : (w.behavior state).hook? = some hook)
      (alive : Machine.isAlive w (.drain ran next :: below) state = true) :
      Arises w (.drain ran next :: below) (.state state (.hooked c))
  | drop {state : StateId} {c : Change} {queue : List (Task σ)} {ran : Nat} {next : Nat → Script σ}
      {below : List (Frame σ)} (front : w.queue = .hook state c :: queue)
      (not : (w.behavior state).hook? = none ∨
        Machine.isAlive w (.drain ran next :: below) state = false) :
      Arises w (.drain ran next :: below) (.state state (.dropped c))

namespace Machine

variable {m : Machine σ} {source : SubjectId} {id : Nat} {state : StateId}

private theorem arises_script {w : World σ} {script : Script σ}
    {below : List (Frame σ)} {e : Event σ}
    (h : e ∈ scriptEvents w script) : Arises w (.run script :: below) e := by
  cases script with
  | set state path v next =>
    rcases hr : w.assign state path v with ⟨_ | _ | c, w'⟩
    · rw [scriptEvents_set_refused hr] at h
      cases h
    · rw [scriptEvents_set_silent hr] at h
      obtain rfl := List.mem_singleton.1 h
      exact .silent hr
    · rw [scriptEvents_set_effective hr] at h
      rcases List.mem_cons.1 h with rfl | h
      · exact .write hr
      · obtain rfl := List.mem_singleton.1 h
        exact .publish hr
  | subscribe source callback next =>
    obtain rfl := List.mem_singleton.1 h
    exact .join
  | unsubscribe source id next =>
    obtain rfl := List.mem_singleton.1 h
    exact .leave
  | emit number v next =>
    obtain rfl := List.mem_singleton.1 h
    exact .emit
  | unmount md next =>
    obtain ⟨i, hi, h⟩ := List.mem_flatMap.1 h
    obtain ⟨id, hid, rfl⟩ := List.mem_map.1 h
    exact .release hi hid
  | done | log _ _ | readMemory _ | writeMemory _ _ | readState _ _ | retain _ _ | release _ _
  | readSubject _ _ | runPending _ | pending _ | readDocument _ | edit _ _ | listen _ _ _ _
  | unlisten _ _ | listeners _ _ | dispatch _ _ _ | defer _ _ => cases h

/-- What the next step is said to do comes about as it should. -/
theorem arises_of_mem_events {e : Event σ} (h : e ∈ m.events) : Arises m.world m.stack e := by
  obtain ⟨w, stack⟩ := m
  match stack with
  | [] | .dispatch _ _ _ :: _ => cases h
  | .run script :: below => exact arises_script h
  | .mark callee :: below =>
    obtain ⟨-, he⟩ | ⟨source, id, notice, waiting, rest, rfl, rfl, he⟩ := events_mark w callee below
    · rw [he] at h
      cases h
    · rw [he] at h
      obtain rfl := List.mem_singleton.1 h
      exact .return_
  | .deliver source notice (sub :: waiting) :: below =>
    obtain rfl := List.mem_singleton.1 h
    exact .call
  | .deliver source notice [] :: below =>
    obtain ⟨n, line, _, hp, _, _, he⟩ | ⟨_, _, he⟩ := deliver_nil_cases w below source notice
    · rw [he] at h
      obtain rfl := List.mem_singleton.1 h
      exact .begin_ hp
    · rw [he] at h
      cases h
  | .react state c :: below =>
    cases hh : (w.behavior state).hook?.isSome with
    | true =>
      obtain rfl : e = .state state (.deferred c) := by simpa [events, hh] using h
      exact .defer hh
    | false => simp [events, hh] at h
  | .watch state c (watcher :: waiting) :: below =>
    obtain rfl := List.mem_singleton.1 h
    exact .watch
  | .watch state c [] :: below =>
    obtain rfl := List.mem_singleton.1 h
    exact .settle
  | .drain ran next :: below =>
    obtain ⟨_, _, he⟩ | ⟨_, _, _, _, he⟩ | ⟨_, _, _, _, hq, hb, ha, _, he⟩ |
      ⟨_, _, _, hq, hnot, _, he⟩ :=
      drain_cases w below ran next <;> rw [he] at h
    · cases h
    · cases h
    · obtain rfl := List.mem_singleton.1 h
      exact .hook hq hb ha
    · obtain rfl := List.mem_singleton.1 h
      exact .drop hq hnot

section Hook

variable {w : World σ} {c : Change} {hook : ChangeHook σ} {queue : List (Task σ)} {ran : Nat}
  {next : Nat → Script σ} {below : List (Frame σ)} (hq : w.queue = .hook state c :: queue)
  (hb : (w.behavior state).hook? = some hook)
  (ha : isAlive w (.drain ran next :: below) state = true)

include hq hb ha

private theorem drain_hook : drain w below ran next =
    ⟨World.write { w with queue } (hookRecord c),
      .run (hook state c) :: .mark (.hook state c) :: .drain (ran + 1) next :: below⟩ := by
  have hb' : (World.behavior { w with queue } state).hook? = some hook := hb
  have ha' : isAlive { w with queue } (.drain (ran + 1) next :: below) state = true := ha
  simp only [drain, hq, hb', ha', if_true]

private theorem mem_events_hook :
    .state state (.hooked c) ∈ events ⟨w, .drain ran next :: below⟩ := by
  simp [events, hq, hb, ha]

end Hook

/-! ### What the events of calls are followed by -/

/-- A subscriber that joins is called with the notice begun last, before the script goes on with its
number. -/
private theorem step_of_joined {latest : Option Notice}
    (h : .subject source (.joined id latest) ∈ m.events) :
    ∃ callback next below, m.stack = .run (.subscribe source callback next) :: below ∧
      id = (m.world.subject source).nextId ∧
      m.step.stack =
        .run (callback latest) :: .mark (.subscriber source id) :: .run (next id) :: below := by
  have harises := arises_of_mem_events h
  obtain ⟨w, stack⟩ := m
  cases harises with
  | @join _ callback next below =>
    refine ⟨callback, next, below, rfl, rfl, ?_⟩
    rw [← w.latest_register source callback]
    rfl

/-- A delivery calls the subscriber with its notice. -/
private theorem step_of_called {notice : Option Notice}
    (h : .subject source (.called id notice) ∈ m.events) :
    ∃ sub waiting below, m.stack = .deliver source notice (sub :: waiting) :: below ∧ sub.id = id ∧
      m.step.stack = .run (sub.callback notice) :: .mark (.subscriber source id)
        :: .deliver source notice waiting :: below := by
  have harises := arises_of_mem_events h
  obtain ⟨w, stack⟩ := m
  cases harises with
  | @call _ _ sub waiting below => exact ⟨sub, waiting, below, rfl, rfl, rfl⟩

/-- A subscriber that returns lets the delivery go on that called it. -/
private theorem step_of_returned (h : .subject source (.returned id) ∈ m.events) :
    ∃ notice waiting below,
      m.stack = .mark (.subscriber source id) :: .deliver source notice waiting :: below ∧
      m.step.stack = .deliver source notice waiting :: below := by
  have harises := arises_of_mem_events h
  obtain ⟨w, stack⟩ := m
  cases harises with
  | @return_ _ _ notice waiting below => exact ⟨notice, waiting, below, rfl, rfl⟩

/-- A watcher is called with the value replaced and the new value. -/
theorem step_of_watched {c : Change} {watcher : Watcher σ}
    (h : .state state (.watched c watcher) ∈ m.events) :
    ∃ waiting below, m.stack = .watch state c (watcher :: waiting) :: below ∧
      m.step.stack = .run (watcher state c.previous c.current) :: .mark (.watcher state c.path)
        :: .watch state c waiting :: below := by
  have harises := arises_of_mem_events h
  obtain ⟨w, stack⟩ := m
  cases harises with
  | @watch _ _ _ waiting below => exact ⟨waiting, below, rfl, rfl⟩

/-- The hook is called with the change by a run of the queue. -/
theorem step_of_hooked {c : Change} (h : .state state (.hooked c) ∈ m.events) :
    ∃ hook queue ran next below, m.stack = .drain ran next :: below ∧
      m.world.queue = .hook state c :: queue ∧ (m.world.behavior state).hook? = some hook ∧
      m.step.stack =
        .run (hook state c) :: .mark (.hook state c) :: .drain (ran + 1) next :: below := by
  have harises := arises_of_mem_events h
  obtain ⟨w, stack⟩ := m
  cases harises with
  | @hook _ _ hook queue ran next below hq hb ha =>
    exact ⟨hook, queue, ran, next, below, rfl, hq, hb, congrArg stack (drain_hook hq hb ha)⟩

/-- A call of a subscriber is an event. -/
private theorem event_of_call_subscriber (h : m.call? = some (.subscriber source id)) :
    (∃ latest, .subject source (.joined id latest) ∈ m.events) ∨
      ∃ notice, .subject source (.called id notice) ∈ m.events := by
  obtain ⟨f, below, script, after, hstack, hstarts, -⟩ := starts_of_call h
  obtain ⟨w, stack⟩ := m
  obtain rfl : stack = f :: below := hstack
  cases hstarts with
  | join _ callback next => exact .inl ⟨_, List.mem_singleton.2 rfl⟩
  | deliver _ notice sub waiting => exact .inr ⟨_, List.mem_singleton.2 rfl⟩

/-- A call of a watcher is an event. -/
theorem event_of_call_watcher {path : Path} (h : m.call? = some (.watcher state path)) :
    ∃ c watcher, c.path = path ∧ .state state (.watched c watcher) ∈ m.events := by
  obtain ⟨f, below, script, after, hstack, hstarts, -⟩ := starts_of_call h
  obtain ⟨w, stack⟩ := m
  obtain rfl : stack = f :: below := hstack
  cases hstarts with
  | watch _ c watcher waiting => exact ⟨c, watcher, rfl, List.mem_singleton.2 rfl⟩

/-- A call of a hook is an event. -/
theorem event_of_call_hook {c : Change} (h : m.call? = some (.hook state c)) :
    .state state (.hooked c) ∈ m.events := by
  obtain ⟨f, below, script, after, hstack, hstarts, -⟩ := starts_of_call h
  obtain ⟨w, stack⟩ := m
  obtain rfl : stack = f :: below := hstack
  cases hstarts with
  | hook ran next hq hb ha => exact mem_events_hook hq hb ha

end Machine

/-! ## The callbacks of subscribers -/

/-- The subscribers that wait in a delivery from the source. -/
def Frame.waitingAt (source : SubjectId) : Frame σ → List (Subscriber σ)
  | deliver other _ waiting => if other = source then waiting else []
  | run _ | mark _ | react _ _ | watch _ _ _ | drain _ _ | dispatch _ _ _ => []

/-- The subscribers that are registered at a source or wait in a delivery from it. -/
def Machine.audienceAt (m : Machine σ) (source : SubjectId) : List (Subscriber σ) :=
  (m.world.subject source).subscribers ++ m.stack.flatMap (·.waitingAt source)

namespace World

variable {w : World σ} {source : SubjectId}

/-- A subject that is put in the place of another one brings no subscribers if it has only those
that were there. -/
theorem subscribers_putSubject {other : SubjectId} {s : Subject σ}
    (h : s.subscribers ⊆ (w.subject other).subscribers) :
    ((w.putSubject other s).subject source).subscribers ⊆ (w.subject source).subscribers := by
  by_cases ho : source = other
  · subst ho
    by_cases hs : w.HasSource source
    · rwa [subject_putSubject_self hs]
    · rw [subject_putSubject_of_not hs]
      exact List.Subset.refl _
  · rw [subject_putSubject_of_ne ho]
    exact List.Subset.refl _

theorem subscribers_unsubscribe (other : SubjectId) (id : Nat) :
    ((w.unsubscribe other id).subject source).subscribers ⊆ (w.subject source).subscribers :=
  subscribers_putSubject fun _ hsub => (List.mem_filter.1 hsub).1

private theorem subscribers_unmount (md : Module) :
    ((w.unmount md).subject source).subscribers ⊆ (w.subject source).subscribers := by
  refine releaseAll_preserves
    (P := fun w' => (w'.subject source).subscribers ⊆ (w.subject source).subscribers)
    (fun _ state id h => List.Subset.trans (subscribers_unsubscribe (.state state) id) h)
    (fun _ id h => ?_) (fun _ state h => ?_) md.instances ?_
  · rwa [subject_unlisten]
  · rwa [subject_release]
  · rw [subject_write]
    exact List.Subset.refl _

/-- Registering a subscriber adds it and nobody else. -/
private theorem subscribers_register (w : World σ) (source other : SubjectId)
    (callback : Option Notice → Script σ) :
    ((w.register other callback).2.subject source).subscribers ⊆ (w.subject source).subscribers ++
      if other = source then [⟨(w.subject source).nextId, callback⟩] else [] := by
  by_cases ho : other = source
  · subst ho
    rw [if_pos rfl]
    by_cases hs : w.HasSource other
    · rw [subject_register_self hs]
      exact List.Subset.refl _
    · rw [show (w.register other callback).2.subject other = w.subject other from
        subject_putSubject_of_not hs _]
      exact List.subset_append_left _ _
  · rw [if_neg ho, List.append_nil, subject_register_of_ne (Ne.symm ho)]
    exact List.Subset.refl _

end World

namespace Machine

variable {source : SubjectId} {w w' : World σ} {stack : List (Frame σ)} {f : Frame σ}

/-- Nobody comes to the audience with a step that registers nobody, and that lets those wait who
waited before or are registered. -/
private theorem audience_subset (pushed : List (Frame σ))
    (hw : (w'.subject source).subscribers ⊆ (w.subject source).subscribers)
    (hp : pushed.flatMap (·.waitingAt source) ⊆
      f.waitingAt source ++ (w.subject source).subscribers) :
    audienceAt ⟨w', pushed ++ stack⟩ source ⊆ audienceAt ⟨w, f :: stack⟩ source := by
  intro sub hsub
  simp only [audienceAt, List.flatMap_append, List.flatMap_cons, List.mem_append] at hsub ⊢
  rcases hsub with hsub | hsub | hsub
  · exact .inl (hw hsub)
  · rcases List.mem_append.1 (hp hsub) with hsub | hsub
    · exact .inr (.inl hsub)
    · exact .inl hsub
  · exact .inr (.inr hsub)

private theorem audience_emit {other : SubjectId} {n : Notice} (below : List (Frame σ))
    (hw : (w'.subject source).subscribers ⊆ (w.subject source).subscribers)
    (hp : below.flatMap (·.waitingAt source) = []) :
    (emit w' (below ++ stack) other n).audienceAt source ⊆ audienceAt ⟨w, f :: stack⟩ source := by
  have hsubject : ∀ s, s.subscribers = (w'.subject other).subscribers →
      ((w'.putSubject other s).subject source).subscribers ⊆ (w.subject source).subscribers :=
    fun s hs => List.Subset.trans (World.subscribers_putSubject (hs ▸ List.Subset.refl _)) hw
  unfold emit
  cases hd : ((w'.subject other).enqueue n).delivering with
  | true =>
    simp only [hd, if_true]
    exact audience_subset below (hsubject _ rfl) (by simp [hp])
  | false =>
    simp only [hd, Bool.false_eq_true, if_false]
    refine audience_subset (.deliver other none [] :: below) (hsubject _ rfl) ?_
    rw [List.flatMap_cons, hp]
    simp [Frame.waitingAt]

private theorem audience_perform (w : World σ) (stack : List (Frame σ)) (script : Script σ)
    (source : SubjectId) :
    (perform w stack script).audienceAt source ⊆ audienceAt ⟨w, .run script :: stack⟩ source ∨
      ∃ callback next, script = .subscribe source callback next ∧
        (perform w stack script).audienceAt source ⊆
          ⟨(w.subject source).nextId, callback⟩ :: audienceAt ⟨w, .run script :: stack⟩ source := by
  have hrun {w' : World σ} (next : Script σ) (hw : w'.subject source = w.subject source) :
      audienceAt ⟨w', .run next :: stack⟩ source ⊆ audienceAt ⟨w, .run script :: stack⟩ source :=
    audience_subset [.run next] (hw ▸ List.Subset.refl _) (by simp [Frame.waitingAt])
  cases script with
  | done => exact .inl (audience_subset [] (List.Subset.refl _) (by simp))
  | log entry next => exact .inl (hrun next (World.subject_write entry source))
  | writeMemory memory next => exact .inl (hrun next (by cases source <;> rfl))
  | retain state next => exact .inl (hrun next (World.subject_retain state source))
  | release state next => exact .inl (hrun next (World.subject_release state source))
  | defer task next => exact .inl (hrun next (World.subject_defer _ source))
  | edit e next => exact .inl (hrun _ (World.subject_edit e source))
  | listen node event callback next =>
    exact .inl (hrun _ (World.subject_listen node event none callback source))
  | unlisten id next => exact .inl (hrun next (World.subject_unlisten id source))
  | readMemory next | readState state next | readSubject source next | pending next
  | readDocument next | listeners node next => exact .inl (hrun _ rfl)
  | set state path v next =>
    rcases hr : w.assign state path v with ⟨_ | _ | c, w'⟩ <;>
      obtain rfl : (w.assign state path v).2 = w' := by rw [hr]
    · rw [perform_set_refused hr]
      exact .inl (hrun _ (World.subject_assign state path v source))
    · rw [perform_set_silent hr]
      exact .inl (hrun _ (World.subject_assign state path v source))
    · rw [perform_set_effective hr]
      refine .inl (audience_emit [.react state c, .run (next (.ok true))] ?_ rfl)
      rw [World.subject_assign]
      exact List.Subset.refl _
  | emit number v next => exact .inl (audience_emit [.run next] (List.Subset.refl _) rfl)
  | unsubscribe other id next =>
    exact .inl (audience_subset [.run next] (World.subscribers_unsubscribe other id)
      (by simp [Frame.waitingAt]))
  | unmount md next =>
    exact .inl (audience_subset [.run next] (World.subscribers_unmount md)
      (by simp [Frame.waitingAt]))
  | runPending next =>
    exact .inl (audience_subset [.drain 0 next] (List.Subset.refl _)
      (by simp [Frame.waitingAt]))
  | dispatch node event next =>
    exact .inl (audience_subset [.dispatch _ 0 next] (List.Subset.refl _)
      (by simp [Frame.waitingAt]))
  | subscribe other callback next =>
    have hregister := World.subscribers_register w source other callback
    by_cases ho : other = source
    · subst ho
      rw [if_pos rfl] at hregister
      refine .inr ⟨callback, next, rfl, fun sub hsub => ?_⟩
      rcases List.mem_append.1 hsub with hsub | hsub
      · rcases List.mem_append.1 (hregister hsub) with hold | hnew
        · exact List.mem_cons_of_mem _ (List.mem_append_left _ hold)
        · obtain rfl := List.mem_singleton.1 hnew
          exact List.mem_cons_self
      · exact List.mem_cons_of_mem _ (List.mem_append_right _ hsub)
    · rw [if_neg ho, List.append_nil] at hregister
      exact .inl (audience_subset [.run _, .mark _, .run _] hregister
        (by simp [Frame.waitingAt]))

/-- Nobody comes to the audience of a source with a step, but for a subscriber that joins. -/
theorem audience_step (m : Machine σ) (source : SubjectId) :
    m.step.audienceAt source ⊆ m.audienceAt source ∨
      ∃ callback next below, m.stack = .run (.subscribe source callback next) :: below ∧
        m.step.audienceAt source ⊆
          ⟨(m.world.subject source).nextId, callback⟩ :: m.audienceAt source := by
  obtain ⟨w, stack⟩ := m
  -- Frames that have nobody wait come on top, and the subscribers stay.
  have hsame {w' : World σ} {f : Frame σ} {below : List (Frame σ)} (pushed : List (Frame σ))
      (hw : w'.subject source = w.subject source)
      (hp : pushed.flatMap (·.waitingAt source) ⊆ f.waitingAt source) :
      audienceAt ⟨w', pushed ++ below⟩ source ⊆ audienceAt ⟨w, f :: below⟩ source :=
    audience_subset pushed (hw ▸ List.Subset.refl _)
      (List.Subset.trans hp (List.subset_append_left _ _))
  match stack with
  | [] => exact .inl (List.Subset.refl _)
  | .run script :: below =>
    obtain h | ⟨callback, next, rfl, h⟩ := audience_perform w below script source
    · exact .inl h
    · exact .inr ⟨callback, next, below, rfl, h⟩
  | .mark c :: below => exact .inl (hsame [] rfl (by simp))
  | .react state c :: below =>
    refine .inl (hsame [.watch state c _] ?_ (by simp [Frame.waitingAt]))
    split
    · exact World.subject_defer _ source
    · rfl
  | .watch state c [] :: below => exact .inl (hsame [] rfl (by simp))
  | .watch state c (watcher :: waiting) :: below =>
    exact .inl (hsame [.run _, .mark _, .watch state c waiting] rfl (by simp [Frame.waitingAt]))
  | .dispatch [] called next :: below => exact .inl (hsame [.run _] rfl (by simp [Frame.waitingAt]))
  | .dispatch (l :: waiting) called next :: below =>
    cases hl : isCalled below l.id with
    | true =>
      simp only [step, dispatch, hl, if_true]
      exact .inl (hsame [.dispatch waiting called next] rfl (by simp [Frame.waitingAt]))
    | false =>
      simp only [step, dispatch, hl, Bool.false_eq_true, if_false]
      exact .inl (hsame [.run _, .mark _, .dispatch waiting (called + 1) next] rfl
        (by simp [Frame.waitingAt]))
  | .drain ran next :: below =>
    have hqueue (queue : List (Task σ)) : World.subject
        { w with queue } source = w.subject source := by
      cases source <;> rfl
    have hstep : step ⟨w, .drain ran next :: below⟩ = drain w below ran next := rfl
    rw [hstep]
    obtain ⟨_, hd, _⟩ | ⟨_, queue, _, hd, _⟩ | ⟨_, _, _, queue, _, _, _, hd, _⟩ |
      ⟨_, _, queue, _, _, hd, _⟩ := drain_cases w below ran next <;> rw [hd]
    · exact .inl (hsame [.run _] rfl (by simp [Frame.waitingAt]))
    · exact .inl (hsame [.run _, .mark _, .drain _ _] (hqueue queue) (by simp [Frame.waitingAt]))
    · exact .inl (hsame [.run _, .mark _, .drain _ _]
        ((World.subject_write _ _).trans (hqueue queue)) (by simp [Frame.waitingAt]))
    · exact .inl (hsame [.drain _ _] (hqueue queue) (by simp [Frame.waitingAt]))
  | .deliver other notice (sub :: waiting) :: below =>
    refine .inl (hsame [.run _, .mark _, .deliver other notice waiting] rfl ?_)
    by_cases ho : other = source <;> simp [Frame.waitingAt, ho]
  | .deliver other notice [] :: below =>
    have hstep : step ⟨w, .deliver other notice [] :: below⟩ =
      deliver w below other notice [] := rfl
    rw [hstep]
    obtain ⟨n, line, s, _, rfl, hd, _⟩ | ⟨_, hd, _⟩ :=
      deliver_nil_cases w below other notice <;> rw [hd]
    · -- The round that begins is one of those who are registered.
      refine .inl (audience_subset [.deliver other (some n) _]
        (World.subscribers_putSubject (List.Subset.refl _)) ?_)
      by_cases ho : other = source <;> simp [Frame.waitingAt, ho]
    · exact .inl (audience_subset [] (World.subscribers_putSubject (List.Subset.refl _))
        (by simp))

/-- The subscriber is one of those that a machine starts with, or it has joined in one of the first
`n` steps, with this callback and under this number. -/
def HasJoined (start : Machine σ) (n : Nat) (source : SubjectId) (sub : Subscriber σ) : Prop :=
  sub ∈ (start.world.subject source).subscribers ∨
    ∃ k < n, ∃ next below, (run k start).stack =
      .run (.subscribe source sub.callback next) :: below ∧
      ((run k start).world.subject source).nextId = sub.id

/-- Whoever is in the audience has joined. -/
theorem hasJoined_run (w : World σ) (script : Script σ) (n : Nat) :
    ∀ sub ∈ (run n ⟨w, [.run script]⟩).audienceAt source,
    HasJoined ⟨w, [.run script]⟩ n source sub := by
  induction n with
  | zero => exact fun sub hsub => .inl (by simpa [run, audienceAt, Frame.waitingAt] using hsub)
  | succ n ih =>
    have hlater : ∀ sub ∈ (run n ⟨w, [.run script]⟩).audienceAt source,
        HasJoined ⟨w, [.run script]⟩ (n + 1) source sub := by
      intro sub hsub
      obtain hfirst | ⟨k, hk, h⟩ := ih sub hsub
      · exact .inl hfirst
      · exact .inr ⟨k, Nat.lt_succ_of_lt hk, h⟩
    rw [run_succ_step]
    obtain h | ⟨callback, next, below, hstack, h⟩ := audience_step (run n ⟨w, [.run script]⟩) source
    · exact fun sub hsub => hlater sub (h hsub)
    · intro sub hsub
      rcases List.mem_cons.1 (h hsub) with rfl | hsub
      · exact .inr ⟨n, Nat.lt_succ_self n, next, below, hstack, rfl⟩
      · exact hlater sub hsub

/-! ## The calls of a subject -/

/-- In the first `n` steps the subscribers of a source are called as the trace tells, and not
otherwise. -/
structure CallsMade (source : SubjectId) (start : Machine σ) (n : Nat) : Prop where
  /-- A subscriber that joins is called with the notice begun last. The script that it was
  registered by waits, to go on with its number. -/
  joined : ∀ k < n, ∀ id latest, .subject source (.joined id latest) ∈ (run k start).events →
    ∃ callback next below, (run k start).stack = .run (.subscribe source callback next) :: below ∧
      (run (k + 1) start).stack =
        .run (callback latest) :: .mark (.subscriber source id) :: .run (next id) :: below
  /-- A delivery calls the subscriber with its notice, by the callback with which it has joined. -/
  called : ∀ k < n, ∀ id notice, .subject source (.called id notice) ∈ (run k start).events →
    ∃ sub waiting below, sub.id = id ∧ HasJoined start k source sub ∧
      (run k start).stack = .deliver source notice (sub :: waiting) :: below ∧
      (run (k + 1) start).stack = .run (sub.callback notice) :: .mark (.subscriber source id)
        :: .deliver source notice waiting :: below
  /-- An emission puts its notice in line and begins a delivery, unless one is in progress. Its
  script waits for it, and goes on. -/
  emitted : ∀ k < n, ∀ number v next below,
    (run k start).stack = .run (.emit number v next) :: below →
    (run (k + 1) start).stack =
        (if ((run k start).world.subject (.own number)).delivering then []
          else [.deliver (.own number) none []]) ++ .run next :: below ∧
      Resumes (.run next :: below) (k + 1) n start
  /-- When the call has come to its end the delivery goes on. -/
  returned : ∀ k < n, ∀ id, .subject source (.returned id) ∈ (run k start).events →
    ∃ notice waiting below,
      (run k start).stack =
        .mark (.subscriber source id) :: .deliver source notice waiting :: below ∧
      (run (k + 1) start).stack = .deliver source notice waiting :: below
  /-- Every call of a subscriber that has not come to its end is one that the trace tells of. -/
  told : ∀ id rest, .mark (.subscriber source id) :: rest <:+ (run n start).stack →
    ∃ k < n, ((∃ latest, .subject source (.joined id latest) ∈ (run k start).events) ∨
        ∃ notice, .subject source (.called id notice) ∈ (run k start).events) ∧
      (run (k + 1) start).stack.tail = .mark (.subscriber source id) :: rest

private theorem step_of_emit {m : Machine σ} {number : Nat} {v : Value} {next : Script σ}
    {below : List (Frame σ)} (h : m.stack = .run (.emit number v next) :: below) :
    m.step.stack = (if (m.world.subject (.own number)).delivering then []
      else [.deliver (.own number) none []]) ++ .run next :: below := by
  rw [step, h]
  exact stack_emit _ _ _ _

theorem callsMade_run (w : World σ) (script : Script σ) (source : SubjectId) (n : Nat) :
    CallsMade source ⟨w, [.run script]⟩ n where
  joined k _ id latest h := by
    obtain ⟨callback, next, below, hstack, -, hstep⟩ := step_of_joined h
    exact ⟨callback, next, below, hstack, by rw [run_succ_step, hstep]⟩
  called k _ id notice h := by
    obtain ⟨sub, waiting, below, hstack, hid, hstep⟩ := step_of_called h
    refine ⟨sub, waiting, below, hid, hasJoined_run w script k sub ?_, hstack,
      by rw [run_succ_step, hstep]⟩
    refine List.mem_append_right _ (List.mem_flatMap.2 ⟨_, hstack ▸ List.mem_cons_self, ?_⟩)
    simp [Frame.waitingAt]
  emitted k hk number v next below h := by
    have hstep := step_of_emit h
    rw [← run_succ_step] at hstep
    exact ⟨hstep, resumes_run (hstep ▸ List.suffix_append _ _) hk⟩
  returned k _ id h := by
    obtain ⟨notice, waiting, below, hstack, hstep⟩ := step_of_returned h
    exact ⟨notice, waiting, below, hstack, by rw [run_succ_step, hstep]⟩
  told id rest h := by
    obtain ⟨k, hk, hcall, _, _, _, _, _, _, hstep, _⟩ := exists_call_of_mark h
    exact ⟨k, hk, event_of_call_subscriber hcall, by rw [hstep]; rfl⟩

end Machine

end ReactiveMarkup
