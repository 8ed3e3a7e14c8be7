-- SUMMARY: Subscribers that keep a property of an element in step with a path.
import ReactiveMarkup.Mount
import ReactiveMarkup.Proofs.Document
import ReactiveMarkup.Proofs.Reading

/-!
# Keeping properties in step

A `Sync` is a subscriber that keeps a property of an element in step with a path of a state. It is
called with every change of the state and writes what the change says about the path. So what the
element shows is the changes that the subscriber was called with, folded, but for a call in
progress; and what the path reads is the changes of the state, folded. When no delivery is in
progress these are the same changes.
-/

namespace ReactiveMarkup

variable {σ : Type}

/-! ## Subscribers that keep a property in step -/

/-- A property of an element that is tied to a path. -/
structure Sync where
  element : NodeId
  property : String
  path : Path

namespace Sync

/-- The subscriber that keeps the property in step. -/
def script (b : Sync) : Option Notice → Script σ := Render.syncScript b.element b.property b.path

/-- What the path reads after a notice, given what it read before. -/
def heard (b : Sync) (v : Value) : Option Notice → Value
  | some (.change c) => c.reads b.path v
  | _ => v

/-- The subscriber writes what a notice says about the path, and does nothing where it says
nothing. -/
theorem script_cases (b : Sync) (n : Option Notice) :
    (b.script n = (.done : Script σ) ∧ ∀ v, b.heard v n = v) ∨
    (∃ x, b.script n = (.edit (.setProperty b.element b.property x) fun _ => .done : Script σ) ∧
      ∀ v, b.heard v n = x) := by
  match n with
  | none => exact .inl ⟨rfl, fun _ => rfl⟩
  | some (.value v) => exact .inl ⟨rfl, fun _ => rfl⟩
  | some (.change c) =>
    cases hc : c.valueAt? b.path with
    | none =>
      exact .inl ⟨by simp [script, Render.syncScript, hc],
        fun v => by simp [heard, Change.reads, hc]⟩
    | some x =>
      exact .inr ⟨x, by simp [script, Render.syncScript, hc],
        fun v => by simp [heard, Change.reads, hc]⟩

/-- The subscribers in their order, numbered as a subject numbers them. -/
def numbered (l : List Sync) : List (Subscriber σ) := l.mapIdx fun id b => ⟨id, b.script⟩

theorem numbered_concat (l : List Sync) (b : Sync) :
    (numbered (l ++ [b]) : List (Subscriber σ)) = numbered l ++ [⟨l.length, b.script⟩] :=
  List.mapIdx_concat

theorem mem_numbered {l : List Sync} {sub : Subscriber σ} :
    sub ∈ numbered l ↔ ∃ b, l[sub.id]? = some b ∧ sub.callback = b.script := by
  constructor
  · intro h
    obtain ⟨id, hid, rfl⟩ := List.mem_mapIdx.1 h
    exact ⟨l[id], List.getElem?_eq_getElem hid, rfl⟩
  · rintro ⟨b, hb, hcall⟩
    obtain ⟨hid, rfl⟩ := List.getElem?_eq_some_iff.1 hb
    exact List.mem_mapIdx.2 ⟨sub.id, hid, by rw [← hcall]⟩

/-- A new subject that the subscribers have joined. -/
def subject (l : List Sync) : Subject σ := { subscribers := numbered l, nextId := l.length }

theorem idle_subject (l : List Sync) : (subject l : Subject σ).Idle := ⟨rfl, rfl⟩

private theorem numbered_subject (l : List Sync) : (subject l : Subject σ).Numbered := by
  constructor
  · have hids : (numbered l : List (Subscriber σ)).map (·.id) = List.range l.length := by
      simp [numbered, List.mapIdx_eq_zipIdx_map, Function.comp_def, List.range_eq_range']
    simp only [subject, hids]
    exact List.nodup_range
  · intro sub hsub
    obtain ⟨b, hb, _⟩ := mem_numbered.1 hsub
    exact (List.getElem?_eq_some_iff.1 hb).1

end Sync

/-- Which subscribers at each state keep properties in step. -/
abbrev Wiring := StateId → List Sync

/-- The states have the subscribers of the wiring and no others. -/
structure World.Wired (w : World σ) (wiring : Wiring) : Prop where
  named : ∀ s, wiring s ≠ [] → w.HasSource (.state s)
  subject : ∀ s, wiring s ≠ [] → w.subject (.state s) = Sync.subject (wiring s)

/-- Whether the callee is a subscriber of the wiring. -/
def Wiring.owns (wiring : Wiring) : Callee → Bool
  | .subscriber (.state s) id => id < (wiring s).length
  | _ => false

/-- No other subscriber of the wiring writes the property. -/
def Wiring.Sole (wiring : Wiring) (s : StateId) (id : Nat) (b : Sync) : Prop :=
  ∀ s' id' b', (wiring s')[id']? = some b' → b'.element = b.element →
    Document.sameProperty b'.property b.property = true → s' = s ∧ id' = id

/-! ## Who is called under a number -/

/-- The numbers that a subject had given out still mean the same subscribers. -/
structure Service.Known (s₀ : Subject σ) (v : Service σ) : Prop where
  nextId_le : s₀.nextId ≤ v.subject.nextId
  subscribers : ∀ sub ∈ v.subject.subscribers, sub.id < s₀.nextId → sub ∈ s₀.subscribers
  waiting : ∀ d ∈ v.delivery, ∀ sub ∈ d.waiting, sub.id < s₀.nextId → sub ∈ s₀.subscribers

theorem Service.Known.serve {s₀ : Subject σ} {v v' : Service σ} {e : List SubjectEvent}
    (h : v.Known s₀) (hv : Serve v e v') : v'.Known s₀ := by
  cases hv with
  | rest => exact h
  | open_ n hd => exact ⟨h.nextId_le, h.subscribers, by simp⟩
  | enqueue n hd => exact ⟨h.nextId_le, h.subscribers, h.waiting⟩
  | join callback =>
    refine ⟨Nat.le_succ_of_le h.nextId_le, ?_, h.waiting⟩
    intro sub hsub hlt
    rcases List.mem_append.1 hsub with hsub | hsub
    · exact h.subscribers sub hsub hlt
    · obtain rfl := List.mem_singleton.1 hsub
      exact absurd h.nextId_le (Nat.not_le_of_lt hlt)
  | leave ids =>
    rw [Subject.foldl_remove]
    exact ⟨h.nextId_le, fun sub hsub => h.subscribers sub (List.mem_filter.1 hsub).1, h.waiting⟩
  | call sub waiting =>
    refine ⟨h.nextId_le, h.subscribers, ?_⟩
    intro d hd other hother
    cases hd
    exact h.waiting _ rfl other (List.mem_cons_of_mem _ hother)
  | return_ id =>
    refine ⟨h.nextId_le, h.subscribers, ?_⟩
    intro d hd
    cases hd
    exact h.waiting ⟨_, _, some id⟩ rfl
  | @begin_ s s' n? n hb =>
    obtain ⟨rest, rfl⟩ : ∃ rest, s' = { s with latest := some n, pending := rest } := by
      unfold Subject.begin? at hb
      split at hb
      · cases hb
      · cases hb
        exact ⟨_, rfl⟩
    refine ⟨h.nextId_le, h.subscribers, ?_⟩
    intro d hd
    cases hd
    exact h.subscribers
  | close hb => exact ⟨h.nextId_le, h.subscribers, by simp⟩

namespace Machine

/-- Nobody new is called under the number of a subscriber of the wiring. -/
theorem known_run {w : World σ} {wiring : Wiring} (hw : w.Wired wiring)
    (script : Script σ) (n : Nat) {s : StateId} (hs : wiring s ≠ []) :
    (run n ⟨w, [.run script]⟩).Serves (.state s) ∧
      ((run n ⟨w, [.run script]⟩).service (.state s)).Known (Sync.subject (wiring s)) := by
  induction n with
  | zero =>
    have hsubject := hw.subject s hs
    refine ⟨serves_start (hw.named s hs) (hsubject ▸ Sync.idle_subject _) script, ?_⟩
    constructor
    case nextId_le => exact Nat.le_of_eq (congrArg Subject.nextId hsubject).symm
    case subscribers =>
      intro sub hsub _
      have hsub' : sub ∈ (w.subject (.state s)).subscribers := hsub
      rwa [hsubject] at hsub'
    case waiting => intro d hd; cases hd
  | succ n ih =>
    obtain ⟨hserves, hknown⟩ := ih
    rw [run_succ_step]
    obtain ⟨hserve, hserves'⟩ := serve_step hserves
    exact ⟨hserves', hknown.serve hserve⟩

end Machine

/-! ## Calls in progress -/

/-- Whether the frame is the mark of one of the callees. -/
def Frame.isMarkOf (own : Callee → Bool) : Frame σ → Bool
  | mark callee => own callee
  | _ => false

/-- A stack on which none of the callees is being called. -/
def Plain (own : Callee → Bool) (stack : List (Frame σ)) : Prop :=
  ∀ f ∈ stack, f.isMarkOf own = false

@[simp] theorem plain_cons {own : Callee → Bool} {f : Frame σ} {stack : List (Frame σ)} :
    Plain own (f :: stack) ↔ f.isMarkOf own = false ∧ Plain own stack :=
  List.forall_mem_cons

/-- A subscriber that is being called by a delivery has its mark on the stack. -/
theorem mem_of_deliveryOn {source : SubjectId} {d : Delivery σ} {id : Nat}
    (hd : d.active = some id) :
    ∀ (stack : List (Frame σ)) (above : Option Nat), deliveryOn source above stack = some d →
      above = some id ∨ .mark (.subscriber source id) ∈ stack
  | [], _, h => by cases h
  | .deliver s n waiting :: rest, above, h => by
    by_cases hs : s = source
    · rw [hs, deliveryOn_deliver_self] at h
      cases h
      exact .inl hd
    · rw [deliveryOn_deliver_of_ne hs] at h
      exact .inr
        (List.mem_cons_of_mem _ ((mem_of_deliveryOn hd rest none h).resolve_left (by simp)))
  | .run _ :: rest, _, h | .react _ _ :: rest, _, h | .watch _ _ _ :: rest, _, h
  | .drain _ _ :: rest, _, h | .dispatch _ _ _ :: rest, _, h
  | .mark (.watcher _ _) :: rest, _, h | .mark (.hook _ _) :: rest, _, h
  | .mark (.listener _ _) :: rest, _, h | .mark .task :: rest, _, h =>
    .inr (List.mem_cons_of_mem _ ((mem_of_deliveryOn hd rest none h).resolve_left (by simp)))
  | .mark (.subscriber s i) :: rest, _, h => by
    refine .inr ?_
    rcases mem_of_deliveryOn hd rest _ h with habove | hmem
    · by_cases hs : s = source
      · simp only [hs, if_true, Option.some.injEq] at habove
        rw [hs, habove]
        exact List.mem_cons_self
      · simp [hs] at habove
    · exact List.mem_cons_of_mem _ hmem

namespace Machine

/-- A step calls none of the callees, unless a delivery does. -/
theorem plain_step {m : Machine σ} {own : Callee → Bool}
    (hown : ∀ callee, own callee = true → ∃ s id, callee = .subscriber (.state s) id ∧
      id < (m.world.subject (.state s)).nextId)
    (h : Plain own m.stack) :
    Plain own m.step.stack ∨ ∃ s notice sub waiting rest,
      m.stack = .deliver (.state s) notice (sub :: waiting) :: rest ∧
        own (.subscriber (.state s) sub.id) = true := by
  by_cases hplain : Plain own m.step.stack
  · exact .inl hplain
  obtain ⟨f, hf, hmark⟩ : ∃ f ∈ m.step.stack, f.isMarkOf own = true := by simpa [Plain] using hplain
  obtain ⟨callee, rfl, hcallee⟩ : ∃ callee, f = .mark callee ∧ own callee = true := by
    cases f with
    | mark callee => exact ⟨callee, rfl, hmark⟩
    | run _ | react _ _ | watch _ _ _ | deliver _ _ _ | dispatch _ _ _ | drain _ _ => cases hmark
  obtain ⟨above, rest, hsplit⟩ := List.append_of_mem hf
  -- The mark is new, so its callee is called, and is a subscriber of a state.
  obtain hold | ⟨hcall, -⟩ := mark_step ⟨above, hsplit.symm⟩
  · have hnot := h _ (hold.subset List.mem_cons_self)
    rw [Frame.isMarkOf, hcallee] at hnot
    cases hnot
  obtain ⟨f, below, script, after, hstack, hstarts, -⟩ := starts_of_call hcall
  obtain ⟨s, id, rfl, hlt⟩ := hown callee hcallee
  cases hstarts with
  | join source callback next =>
    -- The number given out is new, and those of the callees were given out before.
    exact absurd hlt (Nat.lt_irrefl _)
  | deliver source notice sub waiting =>
    exact .inr ⟨s, notice, sub, waiting, below, hstack, hcallee⟩

/-- A step leaves the document alone or performs one edit. -/
theorem document_step (m : Machine σ) :
    m.step.world.document = m.world.document ∨ ∃ e next below z,
      m.stack = .run (.edit e next) :: below ∧
        m.world.document.edit e = .ok (z, m.step.world.document) := by
  obtain ⟨w, stack⟩ := m
  match stack with
  | [] | .mark _ :: stack | .watch _ _ [] :: stack | .watch _ _ (_ :: _) :: stack
  | .dispatch [] _ _ :: stack | .deliver _ _ (_ :: _) :: stack => exact .inl rfl
  | .react state c :: stack =>
    cases hh : (w.behavior state).hook?.isSome <;> exact .inl (by simp [step, react, hh])
  | .dispatch (l :: waiting) called next :: stack =>
    cases hc : isCalled stack l.id <;> exact .inl (by simp [step, dispatch, hc])
  | .drain ran next :: stack =>
    have hstep : step ⟨w, .drain ran next :: stack⟩ = drain w stack ran next := rfl
    rw [hstep]
    obtain ⟨_, hd, _⟩ | ⟨_, _, _, hd, _⟩ | ⟨_, _, _, _, _, _, _, hd, _⟩ | ⟨_, _, _, _, _, hd, _⟩ :=
      drain_cases w stack ran next <;> rw [hd] <;> exact .inl rfl
  | .deliver source notice [] :: stack =>
    have hstep : step ⟨w, .deliver source notice [] :: stack⟩ =
        deliver w stack source notice [] := rfl
    rw [hstep]
    obtain ⟨n, rest, s, _, _, hd, _⟩ | ⟨_, hd, _⟩ := deliver_nil_cases w stack source notice <;>
      exact .inl (by simp [hd])
  | .run script :: stack =>
    have hstep : step ⟨w, .run script :: stack⟩ = perform w stack script := rfl
    rw [hstep]
    cases script with
    | edit e next =>
      cases he : w.document.edit e with
      | error err => exact .inl (by simp [perform, World.edit, he])
      | ok p => exact .inr ⟨e, next, stack, p.1, rfl, by simp [perform, World.edit, he]⟩
    | set other path v next =>
      refine .inl ?_
      rcases hr : w.assign other path v with ⟨e | _ | c, w'⟩ <;>
        obtain rfl : (w.assign other path v).2 = w' := by rw [hr]
      · simp [perform_set_refused hr]
      · simp [perform_set_silent hr]
      · rw [perform_set_effective hr]
        obtain ⟨s, h | h⟩ := emit_cases (w.assign other path v).2
          (.react other c :: .run (next (.ok true)) :: stack) (.state other) (.change c) <;>
          simp [h]
    | emit number v next =>
      obtain ⟨s, h | h⟩ := emit_cases w (.run next :: stack) (.own number) (.value v) <;>
        exact .inl (by simp [perform, h])
    | done | log _ _ | readMemory _ | writeMemory _ _ | readState _ _ | retain _ _ | release _ _
    | readSubject _ _ | runPending _ | pending _ | readDocument _ | listen _ _ _ _ | unlisten _ _
    | listeners _ _ | dispatch _ _ _ | defer _ _ | subscribe _ _ _ | unsubscribe _ _ _
    | unmount _ _ =>
      exact .inl (by simp [perform])

end Machine

/-! ## What an element shows during a run -/

/-- A subscriber of a state that was called with a notice and has not written. -/
structure Call where
  state : StateId
  subscription : Nat
  notice : Option Notice

/-- What the subscriber with the number is about to hear. -/
def Call.to? (state : StateId) (id : Nat) (call : Call) : Option (Option Notice) :=
  if call.state = state ∧ call.subscription = id then some call.notice else none

/-- A subscriber that keeps a property in step is called by deliveries only, and calls nothing back.
So at most one of them is being called, and nothing is above its script. -/
inductive Orderly (wiring : Wiring) : Option Call → List (Frame σ) → Prop
  | plain {stack : List (Frame σ)} (h : Plain wiring.owns stack) : Orderly wiring none stack
  | called {s : StateId} {id : Nat} {b : Sync} (hb : (wiring s)[id]? = some b) (n : Option Notice)
      (waiting : List (Subscriber σ)) {stack : List (Frame σ)} (h : Plain wiring.owns stack) :
      Orderly wiring (some ⟨s, id, n⟩)
        (.run (b.script n) :: .mark (.subscriber (.state s) id) :: .deliver
          (.state s) n waiting :: stack)
  | written (s : StateId) (id : Nat) (n : Option Notice) (waiting : List (Subscriber σ))
      {stack : List (Frame σ)} (h : Plain wiring.owns stack) :
      Orderly wiring none
        (.run .done :: .mark (.subscriber (.state s) id) :: .deliver (.state s) n waiting :: stack)
  | returning (s : StateId) (id : Nat) (n : Option Notice) (waiting : List (Subscriber σ))
      {stack : List (Frame σ)} (h : Plain wiring.owns stack) :
      Orderly wiring none
        (.mark (.subscriber (.state s) id) :: .deliver (.state s) n waiting :: stack)

namespace Machine

/-- Whether the next step writes the property of the element by hand: in a script that is not the
one that one of the callees was called with. -/
def editsByHand (own : Callee → Bool) (x : NodeId) (property : String) (m : Machine σ) : Bool :=
  match m.stack with
  | .run (.edit e _) :: below => e.touches x property && !below.head?.any (·.isMarkOf own)
  | _ => false

/-- The element shows what the path read at the start, brought up to date by the calls of the
subscriber but for one in progress. -/
structure UpToDate (wiring : Wiring) (s : StateId) (id : Nat) (b : Sync) (v₀ : Value)
    (t : List (Event σ)) (m : Machine σ) (call? : Option Call)
    (heard : List (Option Notice)) : Prop where
  orderly : Orderly wiring call? m.stack
  calls : callsTo id (atSubject (.state s) t) = heard ++ (call?.bind (·.to? s id)).toList
  holds : m.world.document.Holds b.element b.property (heard.foldl b.heard v₀)

/-- What the machine knows of all subscribers of the wiring. -/
def KnowsAll (wiring : Wiring) (m : Machine σ) : Prop :=
  ∀ s, wiring s ≠ [] → m.Serves (.state s) ∧ (m.service (.state s)).Known (Sync.subject (wiring s))

section Steps

variable {wiring : Wiring} {s : StateId} {id : Nat} {b : Sync} {v₀ : Value} {t : List (Event σ)}
  {heard : List (Option Notice)}

private theorem lt_nextId_of_owns {m : Machine σ} (hk : KnowsAll wiring m) {callee : Callee}
    (h : wiring.owns callee = true) :
    ∃ s id, callee = .subscriber (.state s) id ∧ id < (m.world.subject (.state s)).nextId := by
  match callee, h with
  | .subscriber (.state s) id, h =>
    have hlt : id < (wiring s).length := by simpa [Wiring.owns] using h
    have hne : wiring s ≠ [] := List.ne_nil_of_length_pos (Nat.zero_lt_of_lt hlt)
    exact ⟨s, id, rfl, Nat.lt_of_lt_of_le hlt (hk s hne).2.nextId_le⟩

theorem callsTo_atSubject_append (t u : List (Event σ)) :
    callsTo id (atSubject (.state s) (t ++ u)) =
      callsTo id (atSubject (.state s) t) ++ callsTo id (atSubject (.state s) u) := by
  simp only [atSubject, List.filterMap_append, callsTo]

/-- A step without calls leaves the subscribers alone. -/
private theorem callsTo_of_plain {m : Machine σ} (hk : KnowsAll wiring m)
    (hb : (wiring s)[id]? = some b)
    (h : Plain wiring.owns m.step.stack) : callsTo id (atSubject (.state s) m.events) = [] := by
  have hlt : id < (wiring s).length := (List.getElem?_eq_some_iff.1 hb).1
  have hne : wiring s ≠ [] := List.ne_nil_of_length_pos (Nat.zero_lt_of_lt hlt)
  obtain ⟨hserves, hknown⟩ := hk s hne
  have hserve := (serve_step hserves).1
  generalize hv : m.service (.state s) = v at hserve hknown
  generalize hv' : m.step.service (.state s) = v' at hserve
  generalize atSubject (.state s) m.events = e at hserve
  cases hserve with
  | rest | open_ _ _ | enqueue _ _ | return_ _ | begin_ _ | close _ => rfl
  | join callback =>
    have hne : Subject.nextId _ ≠ id := Nat.ne_of_gt (Nat.lt_of_lt_of_le hlt hknown.nextId_le)
    simp [callsTo, SubjectEvent.callTo?, hne]
  | leave ids => simp [callsTo, SubjectEvent.callTo?]
  | call sub waiting =>
    have hne : sub.id ≠ id := by
      rintro rfl
      have hd : deliveryOn (.state s) none m.step.stack = some ⟨_, waiting, some sub.id⟩ :=
        congrArg Service.delivery hv'
      -- A call of the subscriber would have left its mark on the stack.
      have hmark := h _ ((mem_of_deliveryOn rfl _ none hd).resolve_left (by simp))
      simp [Frame.isMarkOf, Wiring.owns] at hmark
      omega
    simp [callsTo, SubjectEvent.callTo?, hne]

/-- A delivery calls a subscriber of the wiring, or the element goes on to show what it shows. -/
theorem UpToDate.plain {m : Machine σ} (hk : KnowsAll wiring m) (hb : (wiring s)[id]? = some b)
    (h : UpToDate wiring s id b v₀ t m none heard) (hplain : Plain wiring.owns m.stack)
    (hhand : editsByHand wiring.owns b.element b.property m = false) :
    ∃ call?, UpToDate wiring s id b v₀ (t ++ m.events) m.step call? heard := by
  have hcalls : callsTo id (atSubject (.state s) t) = heard := by simpa using h.calls
  rcases plain_step (fun _ => lt_nextId_of_owns hk) hplain with hstep | hstep
  · refine ⟨none, .plain hstep, ?_, ?_⟩
    · rw [callsTo_atSubject_append, callsTo_of_plain hk hb hstep, hcalls]
      rfl
    · obtain hsame | ⟨e, next, below, z, hstack, he⟩ := document_step m
      · rw [hsame]
        exact h.holds
      · refine h.holds.edit he ?_
        -- An edit made now is made by hand, since no subscriber of the wiring is being called.
        have hhead : below.head?.any (·.isMarkOf wiring.owns) = false := by
          rw [hstack, plain_cons] at hplain
          cases below with
          | nil => rfl
          | cons f below => exact (plain_cons.1 hplain.2).1
        simpa [editsByHand, hstack, hhead] using hhand
  · obtain ⟨s', notice, sub, waiting, rest, hstack, hown⟩ := hstep
    have hlt : sub.id < (wiring s').length := by simpa [Wiring.owns] using hown
    have hne : wiring s' ≠ [] := List.ne_nil_of_length_pos (Nat.zero_lt_of_lt hlt)
    have hdelivery : (m.service (.state s')).delivery = some ⟨notice, sub :: waiting, none⟩ := by
      simp [service, hstack]
    -- The delivery calls a subscriber of the wiring, whose script is known.
    obtain ⟨b', hb', hcallback⟩ := Sync.mem_numbered.1
      ((hk s' hne).2.waiting _ hdelivery sub List.mem_cons_self hlt)
    have hafter :
        m.step = ⟨m.world, .run (b'.script notice) :: .mark (.subscriber (.state s') sub.id)
        :: .deliver (.state s') notice waiting :: rest⟩ := by
      rw [step, hstack, ← hcallback]
      rfl
    have hevents : m.events = [.subject (.state s') (.called sub.id notice)] := by
      simp [events, hstack]
    refine ⟨some ⟨s', sub.id, notice⟩, ?_, ?_, ?_⟩
    · rw [hafter]
      refine .called hb' notice waiting ?_
      rw [hstack] at hplain
      exact (plain_cons.1 hplain).2
    · rw [callsTo_atSubject_append, hcalls, hevents]
      by_cases hs : s' = s <;> by_cases hid : sub.id = id <;>
        simp [hs, hid, atSubject, Event.atSubject?, callsTo, SubjectEvent.callTo?, Call.to?]
    · rw [hafter]
      exact h.holds

/-- The subscriber that was called has the element show what it heard. -/
theorem UpToDate.called {m : Machine σ} {s' : StateId} {id' : Nat} {b' : Sync} {n : Option Notice}
    {waiting : List (Subscriber σ)} {stack : List (Frame σ)} (hb : (wiring s)[id]? = some b)
    (hsole : wiring.Sole s id b)
    (h : UpToDate wiring s id b v₀ t m (some ⟨s', id', n⟩) heard)
    (hb' : (wiring s')[id']? = some b')
    (hstack : m.stack = .run (b'.script n) :: .mark (.subscriber (.state s') id')
      :: .deliver (.state s') n waiting :: stack) (hplain : Plain wiring.owns stack) :
    ∃ heard', UpToDate wiring s id b v₀ (t ++ m.events) m.step none heard' := by
  obtain ⟨w, _⟩ := m
  subst hstack
  -- The subscriber that was called may be the one of this property or another.
  have hours : s' = s → id' = id → b' = b := by
    rintro rfl rfl
    exact Option.some.inj (hb'.symm.trans hb)
  let call : Call := ⟨s', id', n⟩
  have hto : (call.to? s id).toList = if s' = s ∧ id' = id then [n] else [] := by
    by_cases hc : s' = s ∧ id' = id <;> simp [call, Call.to?, hc]
  refine ⟨heard ++ (call.to? s id).toList, ?_⟩
  have hcalls : callsTo id (atSubject (.state s) t) = heard ++ (call.to? s id).toList := h.calls
  obtain ⟨hscript, hheard⟩ | ⟨x, hscript, hheard⟩ := b'.script_cases (σ := σ) n
  · rw [hscript]
    refine ⟨.returning s' id' n waiting hplain, ?_, ?_⟩
    · rw [callsTo_atSubject_append, hcalls]
      rfl
    · rw [hto, List.foldl_append]
      by_cases hc : s' = s ∧ id' = id
      · obtain rfl := hours hc.1 hc.2
        rw [if_pos hc]
        simp only [List.foldl_cons, List.foldl_nil, hheard]
        exact h.holds
      · rw [if_neg hc]
        exact h.holds
  · rw [hscript]
    refine ⟨.written s' id' n waiting hplain, ?_, ?_⟩
    · rw [callsTo_atSubject_append, hcalls]
      rfl
    · have hdoc : (step ⟨w, .run (.edit (.setProperty b'.element b'.property x) fun _ => .done)
          :: .mark (.subscriber (.state s') id') :: .deliver
            (.state s') n waiting :: stack⟩).world.document =
          w.document.setProperty b'.element b'.property x := rfl
      rw [hdoc, hto, List.foldl_append]
      by_cases hc : s' = s ∧ id' = id
      · obtain rfl := hours hc.1 hc.2
        rw [if_pos hc]
        simp only [List.foldl_cons, List.foldl_nil, hheard]
        exact Document.holds_setProperty h.holds.lt (by simp [Document.sameProperty])
      · rw [if_neg hc]
        refine Document.Holds.edit h.holds (e := .setProperty b'.element b'.property x) rfl ?_
        cases ht : (Edit.setProperty b'.element b'.property x).touches b.element b.property with
        | false => rfl
        | true =>
          simp only [Edit.touches, Bool.and_eq_true, beq_iff_eq] at ht
          -- Another subscriber does not write this property.
          exact absurd (hsole s' id' b' hb' ht.1 ht.2) hc

/-- While nobody writes the property by hand, a step keeps the element up to date. -/
theorem UpToDate.step {m : Machine σ} {call? : Option Call} (hk : KnowsAll wiring m)
    (hb : (wiring s)[id]? = some b) (hsole : wiring.Sole s id b)
    (h : UpToDate wiring s id b v₀ t m call? heard)
    (hhand : editsByHand wiring.owns b.element b.property m = false) :
    ∃ call? heard, UpToDate wiring s id b v₀ (t ++ m.events) m.step call? heard := by
  obtain ⟨w, stack⟩ := m
  cases h.orderly with
  | plain hplain =>
    obtain ⟨call?, hup⟩ := h.plain hk hb hplain hhand
    exact ⟨call?, heard, hup⟩
  | called hb' n waiting hplain =>
    obtain ⟨heard', hup⟩ := h.called hb hsole hb' rfl hplain
    exact ⟨none, heard', hup⟩
  | written s' id' n waiting hplain =>
    refine ⟨none, heard, .returning s' id' n waiting hplain, ?_, h.holds⟩
    rw [callsTo_atSubject_append, h.calls]
    exact List.append_nil _
  | returning s' id' n waiting hplain =>
    refine ⟨none, heard, .plain (plain_cons.2 ⟨rfl, hplain⟩), ?_, h.holds⟩
    rw [callsTo_atSubject_append, h.calls]
    by_cases hs : s' = s <;>
      simp [events, hs, atSubject, Event.atSubject?, callsTo, SubjectEvent.callTo?]

end Steps

theorem upToDate_run {w : World σ} {wiring : Wiring} (hw : w.Wired wiring) (script : Script σ)
    {s : StateId} {id : Nat} {b : Sync} (hb : (wiring s)[id]? = some b) (hsole : wiring.Sole s id b)
    {v₀ : Value} (hv : w.document.Holds b.element b.property v₀) (n : Nat)
    (hhand : ∀ k < n,
      editsByHand wiring.owns b.element b.property (run k ⟨w, [.run script]⟩) = false) :
    ∃ call? heard, UpToDate wiring s id b v₀ (trace n ⟨w, [.run script]⟩)
      (run n ⟨w, [.run script]⟩) call? heard := by
  induction n with
  | zero => exact ⟨none, [], .plain (by simp [Plain, run, Frame.isMarkOf]), rfl, hv⟩
  | succ n ih =>
    obtain ⟨call?, heard, hup⟩ := ih fun k hk => hhand k (Nat.lt_succ_of_lt hk)
    rw [trace_succ, run_succ_step]
    exact hup.step (fun _ hs => known_run hw script n hs) hb hsole (hhand n (Nat.lt_succ_self n))

/-- When no delivery of the state is in progress, the element shows what the path reads. -/
theorem shows_run {w : World σ} {wiring : Wiring} (hw : w.Wired wiring) (script : Script σ)
    {s : StateId} {id : Nat} {b : Sync} (hb : (wiring s)[id]? = some b) (hsole : wiring.Sole s id b)
    (hproper : b.path.isProper = true) (hplain : b.path.isPlain = true)
    (hv : w.document.Holds b.element b.property (b.path.valueOrNull (w.data s))) (n : Nat)
    (hhand : ∀ k < n,
      editsByHand wiring.owns b.element b.property (run k ⟨w, [.run script]⟩) = false)
    (hwritten : ∀ q ∈ written (atState s (trace n ⟨w, [.run script]⟩)),
      q.isPlain = true ∧ b.path.isAbove q = false)
    (hleft : SubjectEvent.left id ∉ atSubject (.state s) (trace n ⟨w, [.run script]⟩))
    (hidle : ((run n ⟨w, [.run script]⟩).world.subject (.state s)).delivering = false) :
    (run n ⟨w, [.run script]⟩).world.document.Shows b.element b.property
      (b.path.valueOrNull ((run n ⟨w, [.run script]⟩).world.data s)) := by
  obtain ⟨hlt, _⟩ := List.getElem?_eq_some_iff.1 hb
  have hne : wiring s ≠ [] := List.ne_nil_of_length_pos (Nat.zero_lt_of_lt hlt)
  have hsubject := hw.subject s hne
  have hserving (k : Nat) := serving_run (hw.named s hne) (hsubject ▸ Sync.idle_subject _)
    (hsubject ▸ Sync.numbered_subject _) script k
  have hnone : ((run n ⟨w, [.run script]⟩).service (.state s)).delivery = none :=
    deliveryOn_of_idle (hserving n).1 hidle none
  obtain ⟨call?, heard, hup⟩ := upToDate_run hw script hb hsole hv n hhand
  -- A call in progress would be part of a delivery in progress.
  have hover : call?.bind (·.to? s id) = none := by
    have horderly := hup.orderly
    generalize hstack : (run n ⟨w, [.run script]⟩).stack = stack at horderly
    cases horderly with
    | plain _ | written _ _ _ _ _ | returning _ _ _ _ _ => rfl
    | @called s' id' _ hb' notice waiting _ hp =>
      refine if_neg ?_
      rintro ⟨rfl, _⟩
      simp [service, hstack] at hnone
  have hcalls : callsTo id (atSubject (.state s) (trace n ⟨w, [.run script]⟩)) = heard := by
    rw [hup.calls, hover]
    exact List.append_nil _
  -- So the subscriber has heard every change, and the element shows what they add up to.
  have hsub : (⟨id, b.script⟩ : Subscriber σ) ∈ (w.subject (.state s)).subscribers := by
    rw [hsubject]
    exact Sync.mem_numbered.2 ⟨b, hb, rfl⟩
  have heq := (hserving n).2.callsTo_eq hnone hsub hleft
  rw [hcalls, emissions_run] at heq
  have hfold : heard.foldl b.heard (b.path.valueOrNull (w.data s)) =
      b.path.valueOrNull ((run n ⟨w, [.run script]⟩).world.data s) := by
    rw [valueOrNull_run script hproper hplain (fun k => (hserving k).1.named) n hwritten, heq,
      List.map_map, List.foldl_map]
    rfl
  exact hfold ▸ hup.holds.shows

end Machine

end ReactiveMarkup
