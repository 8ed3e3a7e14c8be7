-- SUMMARY: Subjects deliver in order and exactly once, whatever their subscribers do.
import ReactiveMarkup.Proofs.Callbacks
import ReactiveMarkup.Proofs.Service

/-!
# Delivery in order and exactly once

A subject may be called from within its own subscribers: they may emit, join and leave. Still it
delivers the notices in the order in which they were emitted, one at a time, and each subscriber is
called with the notice begun last when it joins, and then once with every notice whose delivery
begins before it leaves.

A `Roll` is what follows from the events at a subject by these rules alone: the rounds of calls, and
the calls that each subscriber is owed. `InOrder` compares it with the calls that were made.
-/

namespace ReactiveMarkup

variable {σ : Type}

namespace SubjectEvent

/-- The notice emitted. -/
def emitted? : SubjectEvent → Option Notice
  | emitted n => some n
  | _ => none

/-- The number of the subscription that joins. -/
def joined? : SubjectEvent → Option Nat
  | joined id _ => some id
  | _ => none

/-- What the subscriber with the number is called with, by a delivery or when it joins. -/
def callTo? (id : Nat) : SubjectEvent → Option (Option Notice)
  | joined i latest => if i = id then some latest else none
  | called i notice => if i = id then some notice else none
  | _ => none

/-- Whether a delivery does this. -/
def isServed : SubjectEvent → Bool
  | begun _ | called _ _ | returned _ => true
  | emitted _ | joined _ _ | left _ => false

end SubjectEvent

/-! ## What the rules of delivery ask for -/

/-- A notice with the subscribers registered when its delivery begins. -/
structure Round where
  notice : Notice
  audience : List Nat

/-- The events of a round: its subscribers are called one after the other, and the next one is
called when the one before has returned. -/
def Round.events (r : Round) : List SubjectEvent :=
  .begun r.notice :: r.audience.flatMap fun id => [.called id (some r.notice), .returned id]

/-- What the events at a subject entail. -/
structure Roll where
  /-- The notice begun last. -/
  latest : Option Notice
  /-- Who has joined and not left, in the order of joining. -/
  registered : List Nat
  rounds : List Round := []
  /-- The calls owed, each to a subscriber. -/
  owed : List (Nat × Option Notice) := []

namespace Roll

/-- The roll after one more event. -/
def after (r : Roll) : SubjectEvent → Roll
  | .joined id _ =>
    { r with registered := r.registered ++ [id], owed := r.owed ++ [(id, r.latest)] }
  | .left id => { r with registered := r.registered.filter (· != id) }
  | .begun n =>
    { r with
      latest := some n
      rounds := r.rounds ++ [⟨n, r.registered⟩]
      owed := r.owed ++ r.registered.map (·, some n) }
  | .emitted _ | .called _ _ | .returned _ => r

/-- What the subscriber with the number is owed, in order. -/
def dueTo (r : Roll) (id : Nat) : List (Option Notice) :=
  r.owed.filterMap fun p => if p.1 = id then some p.2 else none

end Roll

/-- The roll of a subject after events. -/
def Subject.roll (s : Subject σ) (t : List SubjectEvent) : Roll :=
  t.foldl Roll.after { latest := s.latest, registered := s.subscribers.map (·.id) }

@[simp] theorem Subject.roll_nil (s : Subject σ) :
    s.roll [] = { latest := s.latest, registered := s.subscribers.map (·.id) } := rfl

theorem Subject.roll_append (s : Subject σ) (t u : List SubjectEvent) :
    s.roll (t ++ u) = u.foldl Roll.after (s.roll t) :=
  List.foldl_append

/-- The latest notice of a roll is that of the last round, if there was one. -/
private theorem Roll.latest_foldl {latest : Option Notice} (t : List SubjectEvent) {r : Roll}
    (h : r.latest = ((r.rounds.map (·.notice)).getLast?).or latest) :
    (t.foldl Roll.after r).latest =
      (((t.foldl Roll.after r).rounds.map (·.notice)).getLast?).or latest := by
  induction t generalizing r with
  | nil => exact h
  | cons e t ih =>
    refine ih ?_
    cases e with
    | begun n => simp [after]
    | joined _ _ | left _ | emitted _ | called _ _ | returned _ => exact h

private theorem Subject.latest_roll (s : Subject σ) (t : List SubjectEvent) :
    (s.roll t).latest = (((s.roll t).rounds.map (·.notice)).getLast?).or s.latest :=
  Roll.latest_foldl t rfl

/-- The numbers of the subscriptions that joined. -/
def joiners (t : List SubjectEvent) : List Nat := t.filterMap (·.joined?)

/-- In a list without repetitions a member is found once. -/
theorem filterMap_of_mem {α : Type} {l : List Nat} {id : Nat} (x : α) (hnd : l.Nodup)
    (hmem : id ∈ l) : l.filterMap (fun i => if i = id then some x else none) = [x] := by
  have hcount : l.filter (· == id) = [id] := by
    rw [List.filter_beq, hnd.count, if_pos hmem]
    rfl
  have hmap : l.filterMap (fun i => if i = id then some x else none) =
      (l.filter (· == id)).map fun _ => x := by
    rw [← List.filterMap_eq_map, ← List.filterMap_eq_filter, List.filterMap_filterMap]
    congr 1
    funext i
    by_cases hi : i = id <;> simp [hi, Option.guard]
  rw [hmap, hcount]
  rfl

/-- A subscriber that stays is owed the notice of every round. -/
private theorem Roll.dueTo_foldl {id : Nat} (t : List SubjectEvent) {r : Roll}
    (hmem : id ∈ r.registered)
    (hnd : (r.registered ++ joiners t).Nodup) (hleft : SubjectEvent.left id ∉ t)
    (h : r.dueTo id = r.rounds.map fun x => some x.notice) :
    (t.foldl Roll.after r).dueTo id = (t.foldl Roll.after r).rounds.map fun x => some x.notice := by
  induction t generalizing r with
  | nil => exact h
  | cons e t ih =>
    have hleft' : SubjectEvent.left id ∉ t := fun ht => hleft (List.mem_cons_of_mem _ ht)
    rw [List.foldl_cons]
    cases e with
    | emitted _ | called _ _ | returned _ => exact ih hmem hnd hleft' h
    | joined i latest =>
      have hne : i ≠ id := by
        rintro rfl
        -- A number that is registered cannot join again.
        exact (List.nodup_append.1 hnd).2.2 i hmem i (by simp [joiners, SubjectEvent.joined?]) rfl
      refine ih (List.mem_append_left _ hmem) ?_ hleft' ?_
      · simpa [after, joiners, SubjectEvent.joined?] using hnd
      · simpa [after, dueTo, hne] using h
    | left i =>
      have hne : id ≠ i := by
        rintro rfl
        exact hleft List.mem_cons_self
      refine ih (List.mem_filter.2 ⟨hmem, by simpa using hne⟩) ?_ hleft' h
      exact hnd.sublist (List.Sublist.append List.filter_sublist (List.Sublist.refl _))
    | begun n =>
      refine ih hmem hnd hleft' ?_
      -- The round has the subscriber in it once, so it is owed the notice once.
      have honce := filterMap_of_mem (some n) (List.nodup_append.1 hnd).1 hmem
      have hdue : r.owed.filterMap (fun p => if p.1 = id then some p.2 else none) =
          r.rounds.map fun x => some x.notice := h
      simp only [after, dueTo, List.filterMap_append, List.filterMap_map,
        Function.comp_def, honce, hdue, List.map_append, List.map_cons, List.map_nil]

/-! ## What was done -/

/-- The notices emitted, in order. -/
def emissions (t : List SubjectEvent) : List Notice := t.filterMap (·.emitted?)

/-- What the subscriber with the number was called with, in order. -/
def callsTo (id : Nat) (t : List SubjectEvent) : List (Option Notice) := t.filterMap (·.callTo? id)

/-- What deliveries did, in order. -/
def served (t : List SubjectEvent) : List SubjectEvent := t.filter (·.isServed)

/-- A subject at which nothing is in progress. -/
structure Subject.Idle (s : Subject σ) : Prop where
  delivering : s.delivering = false
  pending : s.pending = []

/-- A subject whose subscriptions have different numbers, all of them given out. -/
structure Subject.Numbered (s : Subject σ) : Prop where
  nodup : (s.subscribers.map (·.id)).Nodup
  lt : ∀ sub ∈ s.subscribers, sub.id < s.nextId

/-- Nothing is left to be delivered: the last notice emitted is the latest, and all calls were
made. -/
structure Settled (s₀ : Subject σ) (t : List SubjectEvent) (s : Subject σ) :
    Prop extends s.Idle where
  latest : s.latest = ((emissions t).getLast?).or s₀.latest
  rounds : served t = (s₀.roll t).rounds.flatMap Round.events
  calls : ∀ id, callsTo id t = (s₀.roll t).dueTo id

/-! ## The invariant of the moves -/

/-- The events of a delivery that are to come. -/
def Delivery.rest (d : Delivery σ) : List SubjectEvent :=
  d.active.toList.map .returned ++
    d.waiting.flatMap fun sub => [.called sub.id d.notice, .returned sub.id]

/-- The calls of one subscriber that are to come in a delivery. -/
def Delivery.callsTo (id : Nat) (d : Delivery σ) : List (Option Notice) :=
  d.waiting.filterMap fun sub => if sub.id = id then some d.notice else none

/-- What holds of a subject and its delivery after every run: the roll agrees with the subject, and
what was done together with what is to come is what the roll asks for. -/
structure Serving (s₀ : Subject σ) (t : List SubjectEvent) (v : Service σ) : Prop where
  latest : (s₀.roll t).latest = v.subject.latest
  registered : (s₀.roll t).registered = v.subject.subscribers.map (·.id)
  numbered : v.subject.Numbered
  joined : (s₀.subscribers.map (·.id) ++ joiners t).Nodup
  joined_lt : ∀ id ∈ s₀.subscribers.map (·.id) ++ joiners t, id < v.subject.nextId
  waiting_lt : ∀ d ∈ v.delivery, ∀ sub ∈ d.waiting, sub.id < v.subject.nextId
  line : (s₀.roll t).rounds.map (·.notice) ++ v.subject.pending = emissions t
  inProgress : v.delivery.isSome = v.subject.delivering
  idle : v.delivery = none → v.subject.pending = []
  audience : ∀ r ∈ (s₀.roll t).rounds, r.audience.Nodup
  rounds : served t ++ v.delivery.elim [] Delivery.rest = (s₀.roll t).rounds.flatMap Round.events
  calls : ∀ id, callsTo id t ++ v.delivery.elim [] (Delivery.callsTo id) = (s₀.roll t).dueTo id

theorem serving_start {s₀ : Subject σ} (hi : s₀.Idle) (hn : s₀.Numbered) :
    Serving s₀ [] ⟨s₀, none⟩ where
  latest := rfl
  registered := rfl
  numbered := hn
  joined := by simpa [joiners] using hn.nodup
  joined_lt := by
    intro id hid
    obtain ⟨sub, hsub, rfl⟩ : ∃ sub ∈ s₀.subscribers, sub.id = id := by simpa [joiners] using hid
    exact hn.lt sub hsub
  waiting_lt := by simp
  line := by simp [emissions, hi.pending]
  inProgress := hi.delivering.symm
  idle := fun _ => hi.pending
  audience := by simp
  rounds := by simp [served]
  calls := by simp [callsTo, Roll.dueTo]

/-! ### What single events add -/

section Single

variable {id : Nat}

theorem emissions_append (t u : List SubjectEvent) : emissions
    (t ++ u) = emissions t ++ emissions u :=
  List.filterMap_append

theorem callsTo_append (t u : List SubjectEvent) : callsTo id
    (t ++ u) = callsTo id t ++ callsTo id u :=
  List.filterMap_append

theorem served_append (t u : List SubjectEvent) : served (t ++ u) = served t ++ served u :=
  List.filter_append t u

theorem Subject.roll_concat (s : Subject σ) (t : List SubjectEvent) (e : SubjectEvent) :
    s.roll (t ++ [e]) = (s.roll t).after e :=
  s.roll_append t [e]

theorem emissions_concat (t : List SubjectEvent) (e : SubjectEvent) :
    emissions (t ++ [e]) = emissions t ++ e.emitted?.toList := by
  rw [emissions_append]
  cases e <;> rfl

theorem joiners_concat (t : List SubjectEvent) (e : SubjectEvent) :
    joiners (t ++ [e]) = joiners t ++ e.joined?.toList := by
  have happend : joiners (t ++ [e]) = joiners t ++ joiners [e] := List.filterMap_append
  rw [happend]
  cases e <;> rfl

theorem callsTo_concat (t : List SubjectEvent) (e : SubjectEvent) :
    callsTo id (t ++ [e]) = callsTo id t ++ (e.callTo? id).toList := by
  rw [callsTo_append]
  cases he : e.callTo? id <;> simp [callsTo, he]

theorem served_concat (t : List SubjectEvent) (e : SubjectEvent) :
    served (t ++ [e]) = served t ++ if e.isServed then [e] else [] := by
  rw [served_append]
  cases e <;> rfl

end Single

/-- Taking subscribers away leaves everything else of a subject as it was. -/
theorem Subject.foldl_remove (ids : List Nat) (s : Subject σ) :
    ids.foldl Subject.remove s =
      { s with subscribers := s.subscribers.filter fun sub => !ids.contains sub.id } := by
  induction ids generalizing s with
  | nil =>
    have hall : s.subscribers.filter (fun sub => !List.contains [] sub.id) = s.subscribers :=
      List.filter_eq_self.2 (by simp)
    rw [hall]
    rfl
  | cons id ids ih =>
    rw [List.foldl_cons, ih]
    simp only [remove, List.filter_filter]
    congr 2
    funext sub
    by_cases h : sub.id = id <;> simp [h]

theorem Roll.foldl_left (ids : List Nat) (r : Roll) :
    (ids.map SubjectEvent.left).foldl Roll.after r =
      { r with registered := r.registered.filter fun id => !ids.contains id } := by
  induction ids generalizing r with
  | nil =>
    have hall : r.registered.filter (fun id => !List.contains [] id) = r.registered :=
      List.filter_eq_self.2 (by simp)
    rw [hall]
    rfl
  | cons id ids ih =>
    rw [List.map_cons, List.foldl_cons, ih]
    simp only [after, List.filter_filter]
    congr 2
    funext i
    by_cases h : i = id <;> simp [h]

/-! ### One lemma for each move -/

section Moves

variable {s₀ s : Subject σ} {t : List SubjectEvent} {d? : Option (Delivery σ)}

theorem Serving.emit (h : Serving s₀ t ⟨s, d?⟩) (n : Notice) (d : Delivery σ)
    (hrest : d.rest = d?.elim [] Delivery.rest)
    (hcalls : ∀ id, d.callsTo id = d?.elim [] (Delivery.callsTo id))
    (hwait : ∀ sub ∈ d.waiting, sub.id < s.nextId) :
    Serving s₀ (t ++ [.emitted n]) ⟨{ s.enqueue n with delivering := true }, some d⟩ := by
  constructor
  case latest => rw [Subject.roll_concat]; exact h.latest
  case registered => rw [Subject.roll_concat]; exact h.registered
  case numbered => exact ⟨h.numbered.nodup, h.numbered.lt⟩
  case joined => simpa [joiners_concat, SubjectEvent.joined?] using h.joined
  case joined_lt => simpa [joiners_concat, SubjectEvent.joined?, Subject.enqueue] using h.joined_lt
  case waiting_lt =>
    intro d' hd'
    obtain rfl : d = d' := by simpa using hd'
    exact hwait
  case line =>
    rw [Subject.roll_concat, emissions_concat, ← h.line, List.append_assoc]
    rfl
  case inProgress => rfl
  case idle => intro hd; cases hd
  case audience => rw [Subject.roll_concat]; exact h.audience
  case rounds =>
    rw [Subject.roll_concat, served_concat]
    simpa [Roll.after, SubjectEvent.isServed, hrest] using h.rounds
  case calls =>
    intro id
    rw [Subject.roll_concat, callsTo_concat]
    simpa [Roll.after, SubjectEvent.callTo?, hcalls] using h.calls id

theorem Serving.join (h : Serving s₀ t ⟨s, d?⟩) (callback : Option Notice → Script σ) :
    Serving s₀ (t ++ [.joined s.nextId s.latest]) ⟨(s.register callback).2, d?⟩ := by
  have hfresh : ∀ sub ∈ s.subscribers, sub.id ≠ s.nextId :=
    fun sub hsub => Nat.ne_of_lt (h.numbered.lt sub hsub)
  have hjoin : joiners (t ++ [.joined s.nextId s.latest]) = joiners t ++ [s.nextId] :=
    joiners_concat t _
  constructor
  case latest => rw [Subject.roll_concat]; exact h.latest
  case registered => rw [Subject.roll_concat]; simp [Roll.after, h.registered, Subject.register]
  case numbered =>
    constructor
    · simp only [Subject.register, List.map_append, List.map_cons, List.map_nil]
      refine List.nodup_append.2 ⟨h.numbered.nodup, by simp, ?_⟩
      simpa using hfresh
    · intro sub hsub
      rcases List.mem_append.1 hsub with hsub | hsub
      · exact Nat.lt_succ_of_lt (h.numbered.lt sub hsub)
      · obtain rfl := List.mem_singleton.1 hsub
        exact Nat.lt_succ_self _
  case joined =>
    rw [hjoin, ← List.append_assoc]
    -- Numbers are given out in order, so the new one is larger than all before.
    refine List.nodup_append.2 ⟨h.joined, by simp, ?_⟩
    intro a ha b hb
    obtain rfl := List.mem_singleton.1 hb
    exact Nat.ne_of_lt (h.joined_lt a ha)
  case joined_lt =>
    rw [hjoin, ← List.append_assoc]
    intro id hid
    rcases List.mem_append.1 hid with hid | hid
    · exact Nat.lt_succ_of_lt (h.joined_lt id hid)
    · obtain rfl := List.mem_singleton.1 hid
      exact Nat.lt_succ_self _
  case waiting_lt => exact fun d hd sub hsub => Nat.lt_succ_of_lt (h.waiting_lt d hd sub hsub)
  case line =>
    rw [Subject.roll_concat, emissions_concat]
    simpa [Roll.after, SubjectEvent.emitted?, Subject.register] using h.line
  case inProgress => exact h.inProgress
  case idle => exact h.idle
  case audience => rw [Subject.roll_concat]; exact h.audience
  case rounds =>
    rw [Subject.roll_concat, served_concat]
    simpa [Roll.after, SubjectEvent.isServed] using h.rounds
  case calls =>
    intro id
    have hdue : (s₀.roll (t ++ [.joined s.nextId s.latest])).dueTo id =
        (s₀.roll t).dueTo id ++ if s.nextId = id then [s.latest] else [] := by
      rw [Subject.roll_concat]
      simp only [Roll.after, Roll.dueTo, List.filterMap_append, h.latest]
      by_cases hid : s.nextId = id <;> simp [hid]
    rw [hdue, ← h.calls, callsTo_concat]
    by_cases hid : s.nextId = id
    · -- Nobody has been waiting under a number that was not given out.
      have hnone : d?.elim [] (Delivery.callsTo id) = [] := by
        cases d? with
        | none => rfl
        | some d =>
          refine List.filterMap_eq_nil_iff.2 fun sub hsub => if_neg ?_
          have hlt : sub.id < s.nextId := h.waiting_lt d rfl sub hsub
          omega
      simp [hnone, SubjectEvent.callTo?, hid]
    · simp [SubjectEvent.callTo?, hid]

theorem Serving.leave (h : Serving s₀ t ⟨s, d?⟩) (ids : List Nat) :
    Serving s₀ (t ++ ids.map .left) ⟨ids.foldl Subject.remove s, d?⟩ := by
  have hroll : s₀.roll (t ++ ids.map .left) =
      { s₀.roll t
        with registered := (s₀.roll t).registered.filter fun id => !ids.contains id } := by
    rw [Subject.roll_append, Roll.foldl_left]
  -- Who leaves is seen by the roll only.
  have hnone : ∀ {α : Type} (f : SubjectEvent → Option α), (∀ id, f (SubjectEvent.left id) = none) →
      (t ++ ids.map SubjectEvent.left).filterMap f = t.filterMap f := by
    intro α f hf
    have hleft : (ids.map SubjectEvent.left).filterMap f = [] :=
      List.filterMap_eq_nil_iff.2 fun e he => by
        obtain ⟨id, _, rfl⟩ := List.mem_map.1 he
        exact hf id
    rw [List.filterMap_append, hleft, List.append_nil]
  have hserved : served (t ++ ids.map .left) = served t := by
    have hleft : served (ids.map .left) = [] :=
      List.filter_eq_nil_iff.2 fun e he => by
        obtain ⟨id, _, rfl⟩ := List.mem_map.1 he
        exact Bool.false_ne_true
    rw [served_append, hleft, List.append_nil]
  have hjoin : joiners (t ++ ids.map .left) = joiners t := hnone _ fun _ => rfl
  have hline : emissions (t ++ ids.map .left) = emissions t := hnone _ fun _ => rfl
  have hmade : ∀ id, callsTo id (t ++ ids.map .left) = callsTo id t :=
    fun id => hnone _ fun _ => rfl
  rw [Subject.foldl_remove]
  constructor
  case latest => rw [hroll]; exact h.latest
  case registered =>
    rw [hroll]
    simp only [h.registered, List.filter_map]
    rfl
  case numbered =>
    exact ⟨h.numbered.nodup.sublist (List.filter_sublist.map _),
      fun sub hsub => h.numbered.lt sub (List.mem_filter.1 hsub).1⟩
  case joined => rw [hjoin]; exact h.joined
  case joined_lt => rw [hjoin]; exact h.joined_lt
  case waiting_lt => exact h.waiting_lt
  case line => rw [hroll, hline]; exact h.line
  case inProgress => exact h.inProgress
  case idle => exact h.idle
  case audience => rw [hroll]; exact h.audience
  case rounds => rw [hroll, hserved]; exact h.rounds
  case calls => intro id; rw [hroll, hmade]; exact h.calls id

theorem Serving.call {n : Option Notice} (sub : Subscriber σ) (waiting : List (Subscriber σ))
    (h : Serving s₀ t ⟨s, some ⟨n, sub :: waiting, none⟩⟩) :
    Serving s₀ (t ++ [.called sub.id n]) ⟨s, some ⟨n, waiting, some sub.id⟩⟩ := by
  constructor
  case latest => rw [Subject.roll_concat]; exact h.latest
  case registered => rw [Subject.roll_concat]; exact h.registered
  case numbered => exact h.numbered
  case joined => simpa [joiners_concat, SubjectEvent.joined?] using h.joined
  case joined_lt => simpa [joiners_concat, SubjectEvent.joined?] using h.joined_lt
  case waiting_lt =>
    intro d hd s' hs'
    obtain rfl : ⟨n, waiting, some sub.id⟩ = d := by simpa using hd
    exact h.waiting_lt _ rfl s' (List.mem_cons_of_mem _ hs')
  case line =>
    rw [Subject.roll_concat, emissions_concat]
    simpa [Roll.after, SubjectEvent.emitted?] using h.line
  case inProgress => exact h.inProgress
  case idle => intro hd; cases hd
  case audience => rw [Subject.roll_concat]; exact h.audience
  case rounds =>
    -- What was to come first has now been done.
    have hr := h.rounds
    rw [Subject.roll_concat, served_concat, List.append_assoc]
    exact hr
  case calls =>
    intro id
    have hc := h.calls id
    rw [Subject.roll_concat, callsTo_concat, List.append_assoc]
    by_cases hid : sub.id = id <;>
      simpa [Roll.after, SubjectEvent.callTo?, Delivery.callsTo, hid] using hc

theorem Serving.return_ {n : Option Notice} {waiting : List (Subscriber σ)} (i : Nat)
    (h : Serving s₀ t ⟨s, some ⟨n, waiting, some i⟩⟩) :
    Serving s₀ (t ++ [.returned i]) ⟨s, some ⟨n, waiting, none⟩⟩ := by
  constructor
  case latest => rw [Subject.roll_concat]; exact h.latest
  case registered => rw [Subject.roll_concat]; exact h.registered
  case numbered => exact h.numbered
  case joined => simpa [joiners_concat, SubjectEvent.joined?] using h.joined
  case joined_lt => simpa [joiners_concat, SubjectEvent.joined?] using h.joined_lt
  case waiting_lt =>
    intro d hd s' hs'
    obtain rfl : ⟨n, waiting, none⟩ = d := by simpa using hd
    exact h.waiting_lt _ rfl s' hs'
  case line =>
    rw [Subject.roll_concat, emissions_concat]
    simpa [Roll.after, SubjectEvent.emitted?] using h.line
  case inProgress => exact h.inProgress
  case idle => intro hd; cases hd
  case audience => rw [Subject.roll_concat]; exact h.audience
  case rounds =>
    have hr := h.rounds
    rw [Subject.roll_concat, served_concat, List.append_assoc]
    exact hr
  case calls =>
    intro id
    rw [Subject.roll_concat, callsTo_concat]
    simpa [Roll.after, SubjectEvent.callTo?, Delivery.callsTo] using h.calls id

theorem Serving.begin_ {n? : Option Notice} {n : Notice} {s' : Subject σ}
    (hb : s.begin? = some (n, s')) (h : Serving s₀ t ⟨s, some ⟨n?, [], none⟩⟩) :
    Serving s₀ (t ++ [.begun n]) ⟨s', some ⟨some n, s'.subscribers, none⟩⟩ := by
  obtain ⟨rest, hp, rfl⟩ : ∃ rest, s.pending = n :: rest ∧
      s' = { s with latest := some n, pending := rest } := by
    cases hp : s.pending with
    | nil => simp [Subject.begin?, hp] at hb
    | cons n' rest =>
      simp only [Subject.begin?, hp, Option.some.injEq, Prod.mk.injEq] at hb
      obtain ⟨rfl, hs⟩ := hb
      exact ⟨rest, rfl, hs.symm⟩
  constructor
  case latest => rw [Subject.roll_concat]; rfl
  case registered => rw [Subject.roll_concat]; exact h.registered
  case numbered => exact ⟨h.numbered.nodup, h.numbered.lt⟩
  case joined => simpa [joiners_concat, SubjectEvent.joined?] using h.joined
  case joined_lt => simpa [joiners_concat, SubjectEvent.joined?] using h.joined_lt
  case waiting_lt =>
    intro d hd sub hsub
    obtain rfl : ⟨some n, s.subscribers, none⟩ = d := by simpa using hd
    exact h.numbered.lt sub hsub
  case line =>
    have hl := h.line
    rw [Subject.roll_concat, emissions_concat, ← hl]
    simp [Roll.after, hp, SubjectEvent.emitted?]
  case inProgress => exact h.inProgress
  case idle => intro hd; cases hd
  case audience =>
    rw [Subject.roll_concat]
    intro r hr
    rcases List.mem_append.1 hr with hr | hr
    · exact h.audience r hr
    · obtain rfl := List.mem_singleton.1 hr
      exact h.registered ▸ h.numbered.nodup
  case rounds =>
    have hr := h.rounds
    simp only [Option.elim_some, Delivery.rest, Option.toList_none, List.map_nil, List.flatMap_nil,
      List.append_nil] at hr
    rw [Subject.roll_concat, served_concat, hr]
    -- The new round is all to come.
    simp only [Roll.after, h.registered, List.flatMap_append, List.flatMap_singleton, Round.events,
      List.flatMap_map, Option.elim_some, Delivery.rest, Option.toList_none, List.map_nil,
      List.nil_append, List.append_assoc]
    rfl
  case calls =>
    intro id
    have hc := h.calls id
    simp only [Option.elim_some, Delivery.callsTo, List.filterMap_nil, List.append_nil] at hc
    rw [Subject.roll_concat, callsTo_concat, hc]
    simp only [Roll.after, Roll.dueTo, h.registered, List.filterMap_append, List.filterMap_map,
      Option.elim_some, Delivery.callsTo, SubjectEvent.callTo?, Option.toList_none, List.append_nil,
      Function.comp_def]

theorem Serving.close {n? : Option Notice} (hb : s.begin? = none)
    (h : Serving s₀ t ⟨s, some ⟨n?, [], none⟩⟩) :
    Serving s₀ t ⟨{ s with delivering := false }, none⟩ := by
  have hp : s.pending = [] := by
    cases hp : s.pending with
    | nil => rfl
    | cons n rest => simp [Subject.begin?, hp] at hb
  constructor
  case latest => exact h.latest
  case registered => exact h.registered
  case numbered => exact ⟨h.numbered.nodup, h.numbered.lt⟩
  case joined => exact h.joined
  case joined_lt => exact h.joined_lt
  case waiting_lt => intro d hd; cases hd
  case line => exact h.line
  case inProgress => rfl
  case idle => exact fun _ => hp
  case audience => exact h.audience
  case rounds => exact h.rounds
  case calls => exact h.calls

/-- The moves of a service preserve what holds of its subject. -/
theorem Serving.serve {v v' : Service σ} {e : List SubjectEvent} (h : Serving s₀ t v)
    (hv : Serve v e v') : Serving s₀ (t ++ e) v' := by
  cases hv with
  | rest => rw [List.append_nil]; exact h
  | open_ n hd => exact h.emit n ⟨none, [], none⟩ rfl (fun _ => rfl) (by simp)
  | @enqueue s d? n hd =>
    have hs : { s.enqueue n with delivering := true } = s.enqueue n := by
      rw [← hd]
      rfl
    cases d? with
    | none => exact absurd (h.inProgress.trans hd) Bool.false_ne_true
    | some d => exact hs ▸ h.emit n d rfl (fun _ => rfl) (h.waiting_lt d rfl)
  | join callback => exact h.join callback
  | leave ids => exact h.leave ids
  | call sub waiting => exact h.call
  | return_ id => exact h.return_
  | begin_ hb => exact h.begin_ hb
  | close hb => rw [List.append_nil]; exact h.close hb

end Moves

/-! ## Every run -/

theorem Serving.settled {s₀ : Subject σ} {t : List SubjectEvent} {v : Service σ}
    (h : Serving s₀ t v) (hv : v.delivery = none) : Settled s₀ t v.subject := by
  have hp : v.subject.pending = [] := h.idle hv
  have hr := h.rounds
  rw [hv] at hr
  refine ⟨⟨?_, hp⟩, ?_, by simpa using hr, ?_⟩
  · rw [← h.inProgress, hv]
    rfl
  · rw [← h.latest, Subject.latest_roll, ← h.line, hp, List.append_nil]
  · intro id
    have hc := h.calls id
    rw [hv] at hc
    simpa using hc

/-- When nothing is left to be delivered, a subscriber that stayed has been called with every notice
emitted. -/
theorem Serving.callsTo_eq {s₀ : Subject σ} {t : List SubjectEvent} {v : Service σ}
    (h : Serving s₀ t v) (hv : v.delivery = none) {sub : Subscriber σ} (hsub : sub ∈ s₀.subscribers)
    (hleft : SubjectEvent.left sub.id ∉ t) : callsTo sub.id t = (emissions t).map some := by
  -- The roll starts with the subscriber in it and nothing owed.
  let start : Roll := { latest := s₀.latest, registered := s₀.subscribers.map (·.id) }
  have hdue := @Roll.dueTo_foldl sub.id t start (List.mem_map_of_mem hsub) h.joined hleft rfl
  have hline := h.line
  rw [(h.settled hv).pending, List.append_nil] at hline
  rw [(h.settled hv).calls, ← hline, List.map_map]
  exact hdue

namespace Machine

/-- A script that is about to run finds every idle subject without a delivery. -/
theorem serves_start {w : World σ} {source : SubjectId} (hw : w.HasSource source)
    (hi : (w.subject source).Idle) (script : Script σ) :
    (⟨w, [.run script]⟩ : Machine σ).Serves source :=
  ⟨hw, by simp [Frame.deliversFrom, hi.delivering]⟩

/-- The invariant of a subject holds after every run. -/
theorem serving_run {w : World σ} {source : SubjectId} (hw : w.HasSource source)
    (hi : (w.subject source).Idle) (hn : (w.subject source).Numbered)
    (script : Script σ) (n : Nat) :
    (run n ⟨w, [.run script]⟩).Serves source ∧
      Serving (w.subject source) (atSubject source (trace n ⟨w, [.run script]⟩))
        ((run n ⟨w, [.run script]⟩).service source) := by
  refine trace_induction (P := fun t m => m.Serves source ∧
    Serving (w.subject source) (atSubject source t) (m.service source)) ?_ ?_ n
  · exact ⟨serves_start hw hi script, serving_start hi hn⟩
  · rintro k ⟨hs, hv⟩
    obtain ⟨hstep, hs'⟩ := serve_step hs
    refine ⟨hs', ?_⟩
    rw [atSubject, List.filterMap_append]
    exact hv.serve hstep

end Machine

end ReactiveMarkup
