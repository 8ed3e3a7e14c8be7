-- SUMMARY: Runs as one subject sees them: every step is a move of its service.
import ReactiveMarkup.Proofs.Trace
import ReactiveMarkup.Proofs.World

/-!
# Runs as one subject sees them

A machine does many things at once, but a subject takes part in few of them. Its `Service` is the
subject with the delivery in progress, which is read off the stack, and `Serve` lists the moves that
a service can make. `Machine.serve_step` says that every step of a machine is such a move. So what
the moves of a service preserve holds of the subject in every run.
-/

namespace ReactiveMarkup

variable {σ : Type}

/-- A delivery in progress. -/
structure Delivery (σ : Type) where
  /-- The notice that is delivered, once one has been begun. -/
  notice : Option Notice
  /-- The subscribers that have not been called. -/
  waiting : List (Subscriber σ)
  /-- The subscriber that is being called. -/
  active : Option Nat

/-- A subject with its delivery in progress. -/
structure Service (σ : Type) where
  subject : Subject σ
  delivery : Option (Delivery σ)

/-- The moves of a service, with what happens in each. -/
inductive Serve : Service σ → List SubjectEvent → Service σ → Prop
  | rest (v : Service σ) : Serve v [] v
  /-- The first notice in line starts a delivery. -/
  | open_ {s : Subject σ} (n : Notice) (h : s.delivering = false) :
      Serve ⟨s, none⟩ [.emitted n]
        ⟨{ s.enqueue n with delivering := true }, some ⟨none, [], none⟩⟩
  /-- A notice emitted during a delivery only joins the line. -/
  | enqueue {s : Subject σ} {d : Option (Delivery σ)} (n : Notice) (h : s.delivering = true) :
      Serve ⟨s, d⟩ [.emitted n] ⟨s.enqueue n, d⟩
  | join {s : Subject σ} {d : Option (Delivery σ)} (callback : Option Notice → Script σ) :
      Serve ⟨s, d⟩ [.joined s.nextId s.latest] ⟨(s.register callback).2, d⟩
  | leave {s : Subject σ} {d : Option (Delivery σ)} (ids : List Nat) :
      Serve ⟨s, d⟩ (ids.map .left) ⟨ids.foldl Subject.remove s, d⟩
  | call {s : Subject σ} {n : Option Notice} (sub : Subscriber σ) (waiting : List (Subscriber σ)) :
      Serve ⟨s, some ⟨n, sub :: waiting, none⟩⟩ [.called sub.id n]
        ⟨s, some ⟨n, waiting, some sub.id⟩⟩
  | return_ {s : Subject σ} {n : Option Notice} {waiting : List (Subscriber σ)} (id : Nat) :
      Serve ⟨s, some ⟨n, waiting, some id⟩⟩ [.returned id] ⟨s, some ⟨n, waiting, none⟩⟩
  | begin_ {s s' : Subject σ} {n? : Option Notice} {n : Notice} (h : s.begin? = some (n, s')) :
      Serve ⟨s, some ⟨n?, [], none⟩⟩ [.begun n] ⟨s', some ⟨some n, s'.subscribers, none⟩⟩
  /-- The delivery ends when no notice is left in line. -/
  | close {s : Subject σ} {n? : Option Notice} (h : s.begin? = none) :
      Serve ⟨s, some ⟨n?, [], none⟩⟩ [] ⟨{ s with delivering := false }, none⟩

/-! ## Deliveries on a stack -/

/-- Whether the frame is a delivery from the source. -/
def Frame.deliversFrom (source : SubjectId) : Frame σ → Bool
  | deliver s _ _ => s == source
  | _ => false

/-- The innermost delivery from a source on a stack. The mark of a subscriber right above the
delivery says who is being called; `above` is such a mark above the whole stack. -/
def deliveryOn (source : SubjectId) : (above : Option Nat) → List (Frame σ) → Option (Delivery σ)
  | _, [] => none
  | above, .deliver s n waiting :: rest =>
    if s = source then some ⟨n, waiting, above⟩ else deliveryOn source none rest
  | _, .mark (.subscriber s id) :: rest =>
    deliveryOn source (if s = source then some id else none) rest
  | _, _ :: rest => deliveryOn source none rest

section Stack

variable {source : SubjectId} {stack : List (Frame σ)} {above : Option Nat}

@[simp] theorem deliveryOn_run (script : Script σ) :
    deliveryOn source above (.run script :: stack) = deliveryOn source none stack := rfl

@[simp] theorem deliveryOn_react (state : StateId) (c : Change) :
    deliveryOn source above (.react state c :: stack) = deliveryOn source none stack := rfl

@[simp] theorem deliveryOn_watch (state : StateId) (c : Change) (waiting : List (Watcher σ)) :
    deliveryOn source above (.watch state c waiting :: stack) = deliveryOn source none stack := rfl

@[simp] theorem deliveryOn_drain (ran : Nat) (next : Nat → Script σ) :
    deliveryOn source above (.drain ran next :: stack) = deliveryOn source none stack := rfl

@[simp] theorem deliveryOn_dispatch (waiting : List (Listener σ)) (called : Nat)
    (next : Nat → Script σ) :
    deliveryOn source above (.dispatch waiting called next :: stack) =
      deliveryOn source none stack := rfl

@[simp] theorem deliveryOn_deliver_self (n : Option Notice) (waiting : List (Subscriber σ)) :
    deliveryOn source above (.deliver source n waiting :: stack) = some ⟨n, waiting, above⟩ := by
  simp [deliveryOn]

theorem deliveryOn_deliver_of_ne {s : SubjectId} (h : s ≠ source) (n : Option Notice)
    (waiting : List (Subscriber σ)) :
    deliveryOn source above (.deliver s n waiting :: stack) = deliveryOn source none stack := by
  simp [deliveryOn, h]

@[simp] theorem deliveryOn_subscriber (s : SubjectId) (id : Nat) :
    deliveryOn source above (.mark (.subscriber s id) :: stack) =
      deliveryOn source (if s = source then some id else none) stack := rfl

@[simp] theorem deliveryOn_watcher (state : StateId) (path : Path) :
    deliveryOn source above (.mark (.watcher state path) :: stack) =
      deliveryOn source none stack := rfl

@[simp] theorem deliveryOn_hook (state : StateId) (c : Change) :
    deliveryOn source above (.mark (.hook state c) :: stack) = deliveryOn source none stack := rfl

@[simp] theorem deliveryOn_listener (id : ListenerId) (owner : Option StateId) :
    deliveryOn source above (.mark (.listener id owner) :: stack) =
      deliveryOn source none stack := rfl

@[simp] theorem deliveryOn_task :
    deliveryOn source above (.mark .task :: stack) = deliveryOn source none stack := rfl

/-- What stands above a stack counts only where its first frame is a delivery from the source. -/
private theorem deliveryOn_above (h : ∀ f ∈ stack.head?, Frame.deliversFrom source f = false) :
    deliveryOn source above stack = deliveryOn source none stack := by
  match stack with
  | [] => rfl
  | .deliver s n waiting :: rest =>
    have hs : s ≠ source := by simpa [Frame.deliversFrom] using h
    rw [deliveryOn_deliver_of_ne hs, deliveryOn_deliver_of_ne hs]
  | .run _ :: _ | .react _ _ :: _ | .watch _ _ _ :: _ | .drain _ _ :: _ |
    .dispatch _ _ _ :: _ => rfl
  | .mark (.subscriber _ _) :: _ | .mark (.watcher _ _) :: _ | .mark (.hook _ _) :: _ => rfl
  | .mark (.listener _ _) :: _ | .mark .task :: _ => rfl

end Stack

/-- There is no delivery from a source on a stack without a frame that delivers from it. -/
theorem deliveryOn_eq_none_iff {source : SubjectId} :
    ∀ (stack : List (Frame σ)) (above : Option Nat),
      deliveryOn source above stack = none ↔ stack.countP (Frame.deliversFrom source) = 0
  | [], _ => by simp [deliveryOn]
  | .deliver s n waiting :: rest, above => by
    by_cases hs : s = source
    · simp [deliveryOn, hs, Frame.deliversFrom]
    · rw [deliveryOn_deliver_of_ne hs, deliveryOn_eq_none_iff rest none]
      simp [Frame.deliversFrom, hs]
  | .run _ :: rest, _ | .react _ _ :: rest, _ | .watch _ _ _ :: rest, _ | .drain _ _ :: rest, _
  | .dispatch _ _ _ :: rest, _ => by
    simpa [Frame.deliversFrom] using deliveryOn_eq_none_iff rest none
  | .mark (.subscriber _ _) :: rest, _ => by
    simpa [Frame.deliversFrom] using deliveryOn_eq_none_iff rest _
  | .mark (.watcher _ _) :: rest, _ | .mark (.hook _ _) :: rest, _
  | .mark (.listener _ _) :: rest, _ | .mark .task :: rest, _ => by
    simpa [Frame.deliversFrom] using deliveryOn_eq_none_iff rest none

/-! ## Every step is a move -/

namespace Machine

/-- A subject in a machine with the delivery in progress. -/
def service (m : Machine σ) (source : SubjectId) : Service σ :=
  ⟨m.world.subject source, deliveryOn source none m.stack⟩

/-- A subject of the machine is marked as delivering exactly while a delivery from it is on the
stack, and then there is one. -/
structure Serves (m : Machine σ) (source : SubjectId) : Prop where
  named : m.world.HasSource source
  balanced : m.stack.countP (Frame.deliversFrom source) =
    if (m.world.subject source).delivering then 1 else 0

/-- A subject from which nothing on the stack delivers is not delivering. -/
theorem Serves.delivering_eq_false {m : Machine σ} {source : SubjectId} (hs : m.Serves source)
    (hstack : m.stack.countP (Frame.deliversFrom source) = 0) :
    (m.world.subject source).delivering = false := by
  have hb := hs.balanced
  rw [hstack] at hb
  cases hd : (m.world.subject source).delivering with
  | false => rfl
  | true => simp [hd] at hb

section Steps

variable {source : SubjectId} {w : World σ} {stack : List (Frame σ)}

/-- Two machines in which a subject and its delivery are the same. -/
structure SameService (source : SubjectId) (m m' : Machine σ) : Prop where
  named : m'.world.HasSource source ↔ m.world.HasSource source
  subject : m'.world.subject source = m.world.subject source
  delivery : deliveryOn source none m'.stack = deliveryOn source none m.stack
  count : m'.stack.countP (Frame.deliversFrom source) = m.stack.countP (Frame.deliversFrom source)

theorem SameService.serve {m m' : Machine σ} (h : SameService source m m') (hm : m.Serves source) :
    Serve (m.service source) [] (m'.service source) ∧ m'.Serves source := by
  have hs : m'.service source = m.service source := by
    simp only [service, h.subject, h.delivery]
  refine ⟨hs ▸ .rest _, h.named.2 hm.named, ?_⟩
  rw [h.count, h.subject]
  exact hm.balanced

theorem deliveryOn_of_idle (h : (⟨w, stack⟩ : Machine σ).Serves source)
    (hi : (w.subject source).delivering = false) (above : Option Nat) :
    deliveryOn source above stack = none := by
  have hb := h.balanced
  simp only [hi, Bool.false_eq_true, if_false] at hb
  exact (deliveryOn_eq_none_iff stack above).2 hb

/-- Whatever comes of a notice emitted from one subject, other subjects are left alone. -/
private theorem sameService_emit {other : SubjectId} (hne : source ≠ other) (n : Notice) :
    SameService source ⟨w, stack⟩ (emit w stack other n) := by
  unfold emit
  cases hd : ((w.subject other).enqueue n).delivering with
  | true =>
    simp only [hd, if_true]
    exact ⟨by simp, World.subject_putSubject_of_ne hne _, rfl, rfl⟩
  | false =>
    simp only [hd, Bool.false_eq_true, if_false]
    refine ⟨by simp, World.subject_putSubject_of_ne hne _, ?_, ?_⟩
    · exact deliveryOn_deliver_of_ne (Ne.symm hne) none []
    · simp [Frame.deliversFrom, Ne.symm hne]

/-- A notice joins the line, and starts a delivery where none is in progress. -/
private theorem serve_emit_self (h : (⟨w, stack⟩ : Machine σ).Serves source) (n : Notice) :
    Serve ((⟨w, stack⟩ : Machine σ).service source) [.emitted n]
        ((emit w stack source n).service source) ∧
      (emit w stack source n).Serves source := by
  have hb := h.balanced
  unfold emit
  cases hd : (w.subject source).delivering with
  | true =>
    have he : ((w.subject source).enqueue n).delivering = true := hd
    simp only [he, if_true]
    constructor
    · simp only [service, World.subject_putSubject_self h.named]
      exact .enqueue n hd
    · refine ⟨by simpa using h.named, ?_⟩
      simpa [World.subject_putSubject_self h.named, he, hd] using hb
  | false =>
    have he : ((w.subject source).enqueue n).delivering = false := hd
    simp only [he, Bool.false_eq_true, if_false]
    constructor
    · simp only [service, World.subject_putSubject_self h.named, deliveryOn_deliver_self,
        deliveryOn_of_idle h hd]
      exact .open_ n hd
    · refine ⟨by simpa using h.named, ?_⟩
      have hz : stack.countP (Frame.deliversFrom source) = 0 := by simpa [hd] using hb
      simp [World.subject_putSubject_self h.named, Frame.deliversFrom, hz]

theorem serve_emit (h : (⟨w, stack⟩ : Machine σ).Serves source) (other : SubjectId) (n : Notice) :
    Serve ((⟨w, stack⟩ : Machine σ).service source) (if other = source then [.emitted n] else [])
        ((emit w stack other n).service source) ∧
      (emit w stack other n).Serves source := by
  by_cases ho : other = source
  · subst ho
    simpa using serve_emit_self h n
  · rw [if_neg ho]
    exact (sameService_emit (Ne.symm ho) n).serve h

/-- Who runs a script is in no delivery of its own. -/
private theorem balanced_run {script : Script σ}
    (h : (⟨w, .run script :: stack⟩ : Machine σ).Serves source) :
    stack.countP (Frame.deliversFrom source) = if (w.subject source).delivering then 1 else 0 := by
  simpa [Frame.deliversFrom] using h.balanced

/-- A write is a move of the subject of its state: the notice that it may emit joins the line. -/
private theorem serve_set {state : StateId} {path : Path} {v : Value}
    {next : Except PathError Bool → Script σ}
    (h : (⟨w, .run (.set state path v next) :: stack⟩ : Machine σ).Serves source) :
    Serve ((⟨w, .run (.set state path v next) :: stack⟩ : Machine σ).service source)
        (atSubject source (scriptEvents w (.set state path v next)))
        ((perform w stack (.set state path v next)).service source) ∧
      (perform w stack (.set state path v next)).Serves source := by
  -- The write itself touches no subject, only the notice that follows may.
  have hw (stack' : List (Frame σ))
    (hd : deliveryOn source none stack' = deliveryOn source none stack)
      (hc : stack'.countP (Frame.deliversFrom source) = stack.countP (Frame.deliversFrom source)) :
      SameService source ⟨w, .run (.set state path v next) :: stack⟩
        ⟨(w.assign state path v).2, stack'⟩ :=
    ⟨by simp, by simp, by simp [hd], by simp [hc, Frame.deliversFrom]⟩
  rcases hr : w.assign state path v with ⟨e | _ | c, w'⟩
  · have hrest := hw (.run (next (.error e)) :: stack) (by simp) (by simp [Frame.deliversFrom])
    rw [hr] at hrest
    rw [perform_set_refused hr, scriptEvents_set_refused hr]
    exact hrest.serve h
  · have hrest := hw (.run (next (.ok false)) :: stack) (by simp) (by simp [Frame.deliversFrom])
    rw [hr] at hrest
    rw [perform_set_silent hr, scriptEvents_set_silent hr]
    exact hrest.serve h
  · have hrest := hw (.react state c :: .run (next (.ok true)) :: stack) (by simp)
      (by simp [Frame.deliversFrom])
    rw [hr] at hrest
    -- The notice is emitted from the machine in which the write is done.
    have hserv :
        (⟨w', .react state c :: .run (next (.ok true)) :: stack⟩ : Machine σ).service source =
        (⟨w, .run (.set state path v next) :: stack⟩ : Machine σ).service source := by
      simp only [service, hrest.subject, hrest.delivery]
    have hemit := serve_emit (hrest.serve h).2 (.state state) (.change c)
    rw [hserv] at hemit
    rw [perform_set_effective hr, scriptEvents_set_effective hr]
    by_cases he : SubjectId.state state = source <;>
      simpa [atSubject, Event.atSubject?, he] using hemit

/-- A subscriber that joins is a move of the subject that it joins. -/
private theorem serve_subscribe {other : SubjectId} {callback : Option Notice → Script σ}
    {next : Nat → Script σ}
    (h : (⟨w, .run (.subscribe other callback next) :: stack⟩ : Machine σ).Serves source) :
    Serve ((⟨w, .run (.subscribe other callback next) :: stack⟩ : Machine σ).service source)
        (atSubject source (scriptEvents w (.subscribe other callback next)))
        ((perform w stack (.subscribe other callback next)).service source) ∧
      (perform w stack (.subscribe other callback next)).Serves source := by
  by_cases ho : other = source
  · subst ho
    simp only [scriptEvents, atSubject, Event.atSubject?, perform, service, deliveryOn_run,
      deliveryOn_subscriber, List.filterMap_cons, List.filterMap_nil, if_true]
    constructor
    · rw [World.subject_register_self h.named]
      exact .join callback
    · refine ⟨by simpa using h.named, ?_⟩
      simpa [World.subject_register_self h.named, Frame.deliversFrom, Subject.register]
        using balanced_run h
  · have hrest : SameService source ⟨w, .run (.subscribe other callback next) :: stack⟩
        (perform w stack (.subscribe other callback next)) :=
      ⟨by simp [perform], World.subject_register_of_ne (Ne.symm ho) callback,
        by simp [perform], by simp [perform, Frame.deliversFrom]⟩
    simpa [scriptEvents, atSubject, Event.atSubject?, ho] using hrest.serve h

/-- A subscription that is given up is a move of its subject. -/
private theorem serve_unsubscribe {other : SubjectId} {id : Nat} {next : Script σ}
    (h : (⟨w, .run (.unsubscribe other id next) :: stack⟩ : Machine σ).Serves source) :
    Serve ((⟨w, .run (.unsubscribe other id next) :: stack⟩ : Machine σ).service source)
        (atSubject source (scriptEvents w (.unsubscribe other id next)))
        ((perform w stack (.unsubscribe other id next)).service source) ∧
      (perform w stack (.unsubscribe other id next)).Serves source := by
  by_cases ho : other = source
  · subst ho
    simp only [scriptEvents, atSubject, Event.atSubject?, perform, service, deliveryOn_run,
      List.filterMap_cons, List.filterMap_nil, if_true]
    constructor
    · rw [World.subject_unsubscribe_self h.named]
      exact .leave [id]
    · refine ⟨by simpa using h.named, ?_⟩
      simpa [World.subject_unsubscribe_self h.named, Frame.deliversFrom, Subject.remove]
        using balanced_run h
  · have hrest : SameService source ⟨w, .run (.unsubscribe other id next) :: stack⟩
        (perform w stack (.unsubscribe other id next)) :=
      ⟨by simp [perform], World.subject_unsubscribe_of_ne (Ne.symm ho) id,
        by simp [perform], by simp [perform, Frame.deliversFrom]⟩
    simpa [scriptEvents, atSubject, Event.atSubject?, ho] using hrest.serve h

/-- What an unmount does at a subject is to give up the subscriptions there. -/
private theorem atSubject_unmount (w : World σ) (source : SubjectId) (md : Module)
    (next : Script σ) : atSubject source (scriptEvents w (.unmount md next)) =
      (World.subscriptionsAt source md.instances).map .left := by
  have hone (i : Instance) (ids : List Nat) :
      (ids.map fun id => (Event.subject (.state i.state) (.left id) : Event σ)).filterMap
          (·.atSubject? source) =
        (if SubjectId.state i.state = source then ids else []).map .left := by
    by_cases hi : SubjectId.state i.state = source <;>
      induction ids <;> simp_all [Event.atSubject?]
  simp only [scriptEvents, atSubject, World.subscriptionsAt, List.filterMap_flatMap,
    List.map_flatMap, hone]

private theorem Subject.delivering_foldl_remove (ids : List Nat) (s : Subject σ) :
    (ids.foldl Subject.remove s).delivering = s.delivering := by
  induction ids generalizing s with
  | nil => rfl
  | cons id ids ih => rw [List.foldl_cons, ih]; rfl

/-- An unmount is a move of every subject at which it gives up subscriptions. -/
private theorem serve_unmount {md : Module} {next : Script σ}
    (h : (⟨w, .run (.unmount md next) :: stack⟩ : Machine σ).Serves source) :
    Serve ((⟨w, .run (.unmount md next) :: stack⟩ : Machine σ).service source)
        (atSubject source (scriptEvents w (.unmount md next)))
        ((perform w stack (.unmount md next)).service source) ∧
      (perform w stack (.unmount md next)).Serves source := by
  rw [atSubject_unmount]
  simp only [perform, service, deliveryOn_run]
  constructor
  · rw [World.subject_unmount h.named]
    exact .leave _
  · refine ⟨by simpa using h.named, ?_⟩
    simpa [World.subject_unmount h.named, Frame.deliversFrom, Subject.delivering_foldl_remove]
      using balanced_run h

/-- The first operation of a script is a move of every subject. -/
private theorem serve_perform (script : Script σ)
    (h : (⟨w, .run script :: stack⟩ : Machine σ).Serves source) :
    Serve ((⟨w, .run script :: stack⟩ : Machine σ).service source)
        (atSubject source (scriptEvents w script)) ((perform w stack script).service source) ∧
      (perform w stack script).Serves source := by
  cases script with
  | set state path v next => exact serve_set h
  | subscribe other callback next => exact serve_subscribe h
  | unsubscribe other id next => exact serve_unsubscribe h
  | unmount md next => exact serve_unmount h
  | emit number v next =>
    have hsame :
        SameService source ⟨w, .run (.emit number v next) :: stack⟩ ⟨w, .run next :: stack⟩ :=
      ⟨.rfl, rfl, rfl, by simp [Frame.deliversFrom]⟩
    have hemit := serve_emit (hsame.serve h).2 (.own number) (.value v)
    by_cases he : SubjectId.own number = source <;>
      simpa [perform, scriptEvents, atSubject, Event.atSubject?, he, service] using hemit
  | writeMemory memory next =>
    have hs : ({ w with memory } : World σ).subject source = w.subject source :=
      by cases source <;> rfl
    have hh : ({ w with memory } : World σ).HasSource source ↔ w.HasSource source := by
      cases source <;> rfl
    exact SameService.serve ⟨hh, hs, by simp [perform], by simp [perform, Frame.deliversFrom]⟩ h
  | done | log _ _ | readMemory _ | readState _ _ | retain _ _ | release _ _ | readSubject _ _
  | defer _ _ | runPending _ | pending _ | readDocument _ | edit _ _ | listen _ _ _ _ | unlisten _ _
  | listeners _ _ | dispatch _ _ _ =>
    exact SameService.serve ⟨by simp [perform], by simp [perform], by simp [perform],
      by simp [perform, Frame.deliversFrom]⟩ h

/-- A delivery goes on by a call, by the next notice in line, or by its end. -/
private theorem serve_deliver (other : SubjectId) (notice : Option Notice)
    (waiting : List (Subscriber σ))
    (h : (⟨w, .deliver other notice waiting :: stack⟩ : Machine σ).Serves source) :
    Serve ((⟨w, .deliver other notice waiting :: stack⟩ : Machine σ).service source)
        (atSubject source (⟨w, .deliver other notice waiting :: stack⟩ : Machine σ).events)
        ((deliver w stack other notice waiting).service source) ∧
      (deliver w stack other notice waiting).Serves source := by
  have hn := h.named
  by_cases ho : other = source
  · subst ho
    have hb : stack.countP (Frame.deliversFrom other) + 1 =
        if (w.subject other).delivering then 1 else 0 := by
      simpa [Frame.deliversFrom] using h.balanced
    -- A delivery on the stack is the only one, so there is none below it.
    have hd : (w.subject other).delivering = true := by
      cases hd : (w.subject other).delivering with
      | true => rfl
      | false => simp [hd] at hb
    have hz : stack.countP (Frame.deliversFrom other) = 0 := by simpa [hd] using hb
    cases waiting with
    | cons sub waiting =>
      constructor
      · simpa [service, deliver, events, atSubject, Event.atSubject?] using Serve.call sub waiting
      · exact ⟨hn, by simpa [deliver, Frame.deliversFrom, hd] using hz⟩
    | nil =>
      cases hp : (w.subject other).pending with
      | cons n rest =>
        have hbeg : (w.subject other).begin? =
            some (n, { w.subject other with latest := some n, pending := rest }) := by
          simp only [Subject.begin?, hp]
        constructor
        · simpa [service, deliver, hbeg, events, hp, atSubject, Event.atSubject?,
            World.subject_putSubject_self hn] using Serve.begin_ hbeg
        · refine ⟨by simpa [deliver, hbeg] using hn, ?_⟩
          simp [deliver, hbeg, World.subject_putSubject_self hn, Frame.deliversFrom, hd, hz]
      | nil =>
        have hbeg : (w.subject other).begin? = none := by simp only [Subject.begin?, hp]
        constructor
        · simpa [service, deliver, hbeg, events, hp, atSubject,
            World.subject_putSubject_self hn, (deliveryOn_eq_none_iff stack none).2 hz] using
            Serve.close hbeg
        · refine ⟨by simpa [deliver, hbeg] using hn, ?_⟩
          simp [deliver, hbeg, World.subject_putSubject_self hn, hz]
  · -- The delivery of another subject is of no concern to this one.
    have hev : atSubject source (⟨w, .deliver other notice waiting :: stack⟩ : Machine σ).events =
        [] := by
      cases waiting with
      | cons sub waiting => simp [events, atSubject, Event.atSubject?, ho]
      | nil => cases hp : (w.subject other).pending <;>
        simp [events, hp, atSubject, Event.atSubject?, ho]
    rw [hev]
    refine SameService.serve ?_ h
    have hs : ∀ s : Subject σ, (w.putSubject other s).subject source = w.subject source :=
      fun s => World.subject_putSubject_of_ne (Ne.symm ho) s
    cases waiting with
    | cons sub waiting =>
      exact ⟨.rfl, rfl, by simp [deliver, ho, deliveryOn_deliver_of_ne ho],
        by simp [deliver, Frame.deliversFrom, ho]⟩
    | nil =>
      cases hbeg : (w.subject other).begin? with
      | none =>
        exact ⟨by simp [deliver, hbeg], by simp [deliver, hbeg, hs],
          by simp [deliver, hbeg, deliveryOn_deliver_of_ne ho],
          by simp [deliver, hbeg, Frame.deliversFrom, ho]⟩
      | some p =>
        exact ⟨by simp [deliver, hbeg], by simp [deliver, hbeg, hs],
          by simp [deliver, hbeg, deliveryOn_deliver_of_ne ho],
          by simp [deliver, hbeg, Frame.deliversFrom, ho]⟩

/-- A callback that ends is the end of a call where a delivery is right below. -/
private theorem serve_mark (callee : Callee)
    (h : (⟨w, .mark callee :: stack⟩ : Machine σ).Serves source) :
    Serve ((⟨w, .mark callee :: stack⟩ : Machine σ).service source)
        (atSubject source (⟨w, .mark callee :: stack⟩ : Machine σ).events)
        ((⟨w, stack⟩ : Machine σ).service source) ∧
      (⟨w, stack⟩ : Machine σ).Serves source := by
  have hs : (⟨w, stack⟩ : Machine σ).Serves source :=
    ⟨h.named, by simpa [Frame.deliversFrom] using h.balanced⟩
  refine ⟨?_, hs⟩
  have hrest : deliveryOn source none (.mark callee :: stack) = deliveryOn source none stack →
      Serve ((⟨w, .mark callee :: stack⟩ : Machine σ).service source) []
        ((⟨w, stack⟩ : Machine σ).service source) := by
    intro hd
    simp only [service, hd]
    exact .rest _
  obtain ⟨hnot, he⟩ | ⟨other, id, n, waiting, below, rfl, rfl, he⟩ := events_mark w callee stack
  · rw [he]
    refine hrest ?_
    -- A mark of the source itself counts only right above a delivery from it.
    have habove : ∀ id, callee = .subscriber source id →
        deliveryOn source (some id) stack = deliveryOn source none stack := by
      intro id hc
      refine deliveryOn_above fun f hf => ?_
      obtain ⟨below, rfl⟩ := List.head?_eq_some_iff.1 hf
      cases f with
      | deliver other n waiting =>
        cases hd : Frame.deliversFrom source (.deliver other n waiting : Frame σ) with
        | false => rfl
        | true =>
          have ho : other = source := by simpa [Frame.deliversFrom] using hd
          exact absurd (ho ▸ rfl) (hnot source id n waiting below hc)
      | run _ | mark _ | react _ _ | watch _ _ _ | drain _ _ | dispatch _ _ _ => rfl
    cases callee with
    | subscriber other id =>
      by_cases ho : other = source
      · subst ho
        rw [deliveryOn_subscriber, if_pos rfl, habove id rfl]
      · rw [deliveryOn_subscriber, if_neg ho]
    | watcher _ _ | hook _ _ | listener _ _ | task => rfl
  · rw [he]
    by_cases ho : other = source
    · subst ho
      simpa [service, atSubject, Event.atSubject?] using Serve.return_ id
    · have hd :
          deliveryOn source none
            (.mark (.subscriber other id) :: .deliver other n waiting :: below) =
          deliveryOn source none (.deliver other n waiting :: below) := by
        simp [ho]
      simpa [atSubject, Event.atSubject?, ho] using hrest hd

/-- A run of the queue touches no subject. -/
private theorem serve_drain (ran : Nat) (next : Nat → Script σ)
    (h : (⟨w, .drain ran next :: stack⟩ : Machine σ).Serves source) :
    Serve ((⟨w, .drain ran next :: stack⟩ : Machine σ).service source)
        (atSubject source (⟨w, .drain ran next :: stack⟩ : Machine σ).events)
        ((drain w stack ran next).service source) ∧
      (drain w stack ran next).Serves source := by
  have hs : ∀ queue, ({ w with queue } : World σ).subject source = w.subject source := by
    intro queue
    cases source <;> rfl
  have hh : ∀ queue, ({ w with queue } : World σ).HasSource source ↔ w.HasSource source := by
    intro queue
    cases source <;> rfl
  -- Whatever is taken off the queue, subjects and deliveries stay.
  have hframe : ∀ (w' : World σ) (stack' : List (Frame σ)), drain w stack ran next = ⟨w', stack'⟩ →
      w'.subject source = w.subject source → (w'.HasSource source ↔ w.HasSource source) →
      deliveryOn source none stack' = deliveryOn source none stack →
      stack'.countP (Frame.deliversFrom source) = stack.countP (Frame.deliversFrom source) →
      SameService source ⟨w, .drain ran next :: stack⟩ (drain w stack ran next) := by
    intro w' stack' hd hws hwh hdel hc
    rw [hd]
    exact ⟨hwh, hws, by simp [hdel], by simp [hc, Frame.deliversFrom]⟩
  obtain ⟨_, hd, he⟩ | ⟨_, queue, _, hd, he⟩ | ⟨_, c, _, queue, _, _, _, hd, he⟩ |
    ⟨_, _, queue, _, _, hd, he⟩ := drain_cases w stack ran next
  · rw [he]
    exact (hframe _ _ hd rfl .rfl (by simp) (by simp [Frame.deliversFrom])).serve h
  · rw [he]
    exact (hframe _ _ hd (hs queue) (hh queue) (by simp) (by simp [Frame.deliversFrom])).serve h
  · rw [he]
    exact (hframe _ _ hd ((World.subject_write _ _).trans (hs queue))
      ((World.hasSource_write _ _).trans (hh queue)) (by simp)
        (by simp [Frame.deliversFrom])).serve h
  · rw [he]
    exact (hframe _ _ hd (hs queue) (hh queue) (by simp) (by simp [Frame.deliversFrom])).serve h

end Steps

/-- Every step of a machine is a move of each of its subjects. -/
theorem serve_step {m : Machine σ} {source : SubjectId} (h : m.Serves source) :
    Serve (m.service source) (atSubject source m.events) (m.step.service source) ∧
      m.step.Serves source := by
  obtain ⟨w, stack⟩ := m
  match stack with
  | [] => exact ⟨.rest _, h⟩
  | .run script :: stack => exact serve_perform script h
  | .mark callee :: stack => exact serve_mark callee h
  | .deliver other notice waiting :: stack => exact serve_deliver other notice waiting h
  | .react state c :: stack =>
    have hev : atSubject source (⟨w, .react state c :: stack⟩ : Machine σ).events = [] := by
      cases hh : (w.behavior state).hook?.isSome <;> simp [events, hh, atSubject, Event.atSubject?]
    rw [hev]
    refine SameService.serve ?_ h
    cases hh : (w.behavior state).hook?.isSome <;>
      exact ⟨by simp [step, react, hh], by simp [step, react, hh], by simp [step, react],
        by simp [step, react, Frame.deliversFrom]⟩
  | .watch state c [] :: stack =>
    exact SameService.serve ⟨.rfl, rfl, rfl, by simp [step, watch, Frame.deliversFrom]⟩ h
  | .watch state c (watcher :: waiting) :: stack =>
    exact SameService.serve ⟨.rfl, rfl, rfl, by simp [step, watch, Frame.deliversFrom]⟩ h
  | .dispatch [] called next :: stack =>
    exact SameService.serve ⟨.rfl, rfl, rfl, by simp [step, dispatch, Frame.deliversFrom]⟩ h
  | .dispatch (l :: waiting) called next :: stack =>
    refine SameService.serve ?_ h
    cases hc : isCalled stack l.id <;>
      exact ⟨by simp [step, dispatch, hc], by simp [step, dispatch, hc],
        by simp [step, dispatch, hc], by simp [step, dispatch, hc, Frame.deliversFrom]⟩
  | .drain ran next :: stack => exact serve_drain ran next h

end Machine

end ReactiveMarkup
