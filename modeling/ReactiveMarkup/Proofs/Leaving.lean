-- SUMMARY: Which call can still reach a subscriber that has left.
import ReactiveMarkup.Proofs.Delivery

/-!
# Calls to those who have left

A delivery goes through the subscribers that were registered when it began, so it does not pass over
those who leave meanwhile. Nothing else calls a subscriber that has left. `Service.owed` is what the
delivery in progress has still to do for one subscriber: while somebody is gone, calls only take
from it (`Service.Gone.serve`), and it is a single call at most (`Service.owed_cases`).
-/

namespace ReactiveMarkup

variable {σ : Type}

/-! ## Gone -/

/-- What the delivery in progress has still to call a subscriber with. -/
def Service.owed (v : Service σ) (id : Nat) : List (Option Notice) :=
  v.delivery.elim [] (Delivery.callsTo id)

/-- The number of a subscription was given out, and nobody is registered under it. -/
structure Subject.Gone (s : Subject σ) (id : Nat) : Prop where
  given : id < s.nextId
  nobody : ∀ sub ∈ s.subscribers, sub.id ≠ id

namespace Service

variable {v v' : Service σ} {e : List SubjectEvent} {id : Nat}

/-- Whoever leaves is gone, and is owed what was owed before. -/
private theorem gone_of_left (h : Serve v e v') (hid : id < v.subject.nextId) (hleft : .left id ∈
    e) : v'.subject.Gone id ∧ callsTo id e = [] ∧ v'.owed id = v.owed id := by
  cases h with
  | @leave s d? ids =>
    have hmem : id ∈ ids := by simpa using hleft
    refine ⟨⟨?_, fun sub hsub hsame => ?_⟩, ?_, rfl⟩
    · rw [Subject.foldl_remove]
      exact hid
    · rw [Subject.foldl_remove, List.mem_filter] at hsub
      simp [hsame, hmem] at hsub
    · refine List.filterMap_eq_nil_iff.2 fun x hx => ?_
      obtain ⟨i, -, rfl⟩ := List.mem_map.1 hx
      rfl
  | rest | open_ _ _ | enqueue _ _ | join _ | call _ _ | return_ _ | begin_ _ | close _ =>
    simp at hleft

/-- Nobody comes back, and a call to somebody who is gone is one that the delivery owed. -/
private theorem gone_serve (h : Serve v e v') (hgone : v.subject.Gone id) :
    v'.subject.Gone id ∧ callsTo id e ++ v'.owed id = v.owed id := by
  cases h with
  | rest => exact ⟨hgone, rfl⟩
  | open_ n hd => exact ⟨⟨hgone.given, hgone.nobody⟩, rfl⟩
  | enqueue n hd => exact ⟨⟨hgone.given, hgone.nobody⟩, rfl⟩
  | @join s d? callback =>
    -- The number that is given out is a new one.
    have hne : s.nextId ≠ id := Nat.ne_of_gt hgone.given
    refine ⟨⟨Nat.lt_succ_of_lt hgone.given, fun sub hsub => ?_⟩, ?_⟩
    · rcases List.mem_append.1 hsub with hold | hnew
      · exact hgone.nobody sub hold
      · obtain rfl := List.mem_singleton.1 hnew
        exact hne
    · simp [callsTo, SubjectEvent.callTo?, hne, owed]
  | @leave s d? ids =>
    refine ⟨⟨?_, fun sub hsub => ?_⟩, ?_⟩
    · rw [Subject.foldl_remove]
      exact hgone.given
    · rw [Subject.foldl_remove, List.mem_filter] at hsub
      exact hgone.nobody sub hsub.1
    · have hnone : callsTo id (ids.map .left) = [] := by
        refine List.filterMap_eq_nil_iff.2 fun x hx => ?_
        obtain ⟨i, -, rfl⟩ := List.mem_map.1 hx
        rfl
      rw [hnone]
      rfl
  | @call s n sub waiting =>
    refine ⟨hgone, ?_⟩
    by_cases hid : sub.id = id <;>
      simp [callsTo, SubjectEvent.callTo?, hid, owed, Delivery.callsTo]
  | return_ i => exact ⟨hgone, rfl⟩
  | @begin_ s s' n? n hb =>
    -- The round that begins is one of those who are registered.
    have hs' : s'.nextId = s.nextId ∧ s'.subscribers = s.subscribers := by
      cases hp : s.pending with
      | nil => simp [Subject.begin?, hp] at hb
      | cons n' rest =>
        simp only [Subject.begin?, hp, Option.some.injEq, Prod.mk.injEq] at hb
        obtain ⟨-, rfl⟩ := hb
        exact ⟨rfl, rfl⟩
    refine ⟨⟨hs'.1 ▸ hgone.given, hs'.2 ▸ hgone.nobody⟩, ?_⟩
    have hnone : Delivery.callsTo id ⟨some n, s'.subscribers, none⟩ = [] := by
      refine List.filterMap_eq_nil_iff.2 fun sub hsub => if_neg ?_
      rw [hs'.2] at hsub
      exact hgone.nobody sub hsub
    exact hnone
  | close hb => exact ⟨⟨hgone.given, hgone.nobody⟩, rfl⟩

/-! ## What is owed -/

/-- The subscribers that wait in a delivery are the last ones of the round begun last. -/
def InRound (r : Roll) (v : Service σ) : Prop :=
  ∀ d ∈ v.delivery, d.waiting = [] ∨ ∃ round ∈ r.rounds.getLast?,
    d.notice = some round.notice ∧ d.waiting.map (·.id) <:+ round.audience

private theorem inRound_serve {s₀ : Subject σ} {t : List SubjectEvent} (h : Serve v e v')
    (hv : Serving s₀ t v) (hround : v.InRound (s₀.roll t)) : v'.InRound (s₀.roll (t ++ e)) := by
  cases h with
  | rest => rwa [List.append_nil]
  | open_ n hd =>
    intro d hd
    obtain rfl : ⟨none, [], none⟩ = d := by simpa using hd
    exact .inl rfl
  | enqueue n hd =>
    rw [Subject.roll_concat]
    exact hround
  | join callback =>
    rw [Subject.roll_concat]
    exact hround
  | leave ids =>
    rw [Subject.roll_append, Roll.foldl_left]
    exact hround
  | @call s n sub waiting =>
    rw [Subject.roll_concat]
    intro d hd
    obtain rfl : ⟨n, waiting, some sub.id⟩ = d := by simpa using hd
    obtain hnil | ⟨round, hlast, hnotice, hsuffix⟩ := hround _ rfl
    · cases hnil
    · exact .inr ⟨round, hlast, hnotice, (List.suffix_cons sub.id _).trans hsuffix⟩
  | @return_ s n waiting i =>
    rw [Subject.roll_concat]
    intro d hd
    obtain rfl : ⟨n, waiting, none⟩ = d := by simpa using hd
    exact hround ⟨n, waiting, some i⟩ rfl
  | @begin_ s s' n? n hb =>
    have hafter := (hv.begin_ hb).registered
    rw [Subject.roll_concat] at hafter ⊢
    intro d hd
    obtain rfl : ⟨some n, s'.subscribers, none⟩ = d := by simpa using hd
    refine .inr ⟨⟨n, (s₀.roll t).registered⟩, by simp [Roll.after], rfl, ?_⟩
    rw [← hafter]
    exact List.suffix_refl _
  | close hb =>
    intro d hd
    cases hd

/-- A subscriber is owed nothing, or one call by the delivery of the last round, to which it
belongs. -/
theorem owed_cases {s₀ : Subject σ} {t : List SubjectEvent} (hv : Serving s₀ t v)
    (hround : v.InRound (s₀.roll t)) (id : Nat) :
    v.owed id = [] ∨ ∃ d ∈ v.delivery, ∃ round ∈ (s₀.roll t).rounds.getLast?,
      d.notice = some round.notice ∧ id ∈ d.waiting.map (·.id) ∧ id ∈ round.audience ∧
        v.owed id = [some round.notice] := by
  obtain ⟨s, d?⟩ := v
  cases d? with
  | none => exact .inl rfl
  | some d =>
    by_cases hmem : id ∈ d.waiting.map (·.id)
    · obtain hnil | ⟨round, hlast, hnotice, hsuffix⟩ := hround d rfl
      · simp [hnil] at hmem
      have haudience : round.audience.Nodup := hv.audience round (List.mem_of_getLast? hlast)
      refine .inr ⟨d, rfl, round, hlast, hnotice, hmem, hsuffix.subset hmem, ?_⟩
      -- Nobody is in the round twice, so nobody waits twice.
      have honce := filterMap_of_mem d.notice (haudience.sublist hsuffix.sublist) hmem
      rw [List.filterMap_map] at honce
      rw [← hnotice]
      exact honce
    · refine .inl (List.filterMap_eq_nil_iff.2 fun sub hsub => if_neg fun hid => hmem ?_)
      exact hid ▸ List.mem_map_of_mem hsub

end Service

/-! ## Runs -/

/-- The delivery in progress is on the stack. -/
theorem deliver_mem_of_deliveryOn {source : SubjectId} {d : Delivery σ} :
    ∀ (stack : List (Frame σ)) (above : Option Nat), deliveryOn source above stack = some d →
      .deliver source d.notice d.waiting ∈ stack
  | [], _, h => by cases h
  | .deliver s n waiting :: rest, above, h => by
    by_cases hs : s = source
    · rw [hs, deliveryOn_deliver_self] at h
      cases h
      rw [hs]
      exact List.mem_cons_self
    · rw [deliveryOn_deliver_of_ne hs] at h
      exact List.mem_cons_of_mem _ (deliver_mem_of_deliveryOn rest none h)
  | .run _ :: rest, _, h | .react _ _ :: rest, _, h | .watch _ _ _ :: rest, _, h
  | .drain _ _ :: rest, _, h | .dispatch _ _ _ :: rest, _, h
  | .mark (.watcher _ _) :: rest, _, h | .mark (.hook _ _) :: rest, _, h
  | .mark (.listener _ _) :: rest, _, h | .mark .task :: rest, _, h =>
    List.mem_cons_of_mem _ (deliver_mem_of_deliveryOn rest none h)
  | .mark (.subscriber _ _) :: rest, _, h =>
    List.mem_cons_of_mem _ (deliver_mem_of_deliveryOn rest _ h)

namespace Machine

/-- While a subscriber is gone, the calls to it are those that were owed at the start. -/
theorem owed_run {m : Machine σ} {source : SubjectId} {id : Nat} (hs : m.Serves source)
    (hgone : (m.world.subject source).Gone id) (n : Nat) :
    callsTo id (atSubject source (trace n m)) ++ ((run n m).service source).owed id =
      (m.service source).owed id := by
  have hrun := trace_induction (m := m) (P := fun t m' => m'.Serves source ∧
    (m'.world.subject source).Gone id ∧
      callsTo id (atSubject source t) ++ (m'.service source).owed id =
        (m.service source).owed id) ?_ ?_ n
  · exact hrun.2.2
  · exact ⟨hs, hgone, rfl⟩
  · rintro k ⟨hs', hgone', howed⟩
    obtain ⟨hstep, hs''⟩ := serve_step hs'
    obtain ⟨hgone'', hcalls⟩ := Service.gone_serve hstep hgone'
    refine ⟨hs'', hgone'', ?_⟩
    rw [atSubject, List.filterMap_append, callsTo_append, List.append_assoc]
    exact (congrArg _ hcalls).trans howed

/-- The delivery in progress after a run goes through the round begun last. -/
theorem inRound_run {w : World σ} {source : SubjectId} (hw : w.HasSource source)
    (hi : (w.subject source).Idle) (hn : (w.subject source).Numbered)
    (script : Script σ) (n : Nat) :
    ((run n ⟨w, [.run script]⟩).service source).InRound
      ((w.subject source).roll (atSubject source (trace n ⟨w, [.run script]⟩))) := by
  induction n with
  | zero =>
    intro d hd
    rw [run, service, deliveryOn_of_idle (serves_start hw hi script) hi.delivering] at hd
    cases hd
  | succ n ih =>
    obtain ⟨hserves, hserving⟩ := serving_run hw hi hn script n
    rw [run_succ_step, trace_succ, atSubject, List.filterMap_append]
    exact Service.inRound_serve (serve_step hserves).1 hserving ih

/-- A subscriber that leaves is not called any more, but for one call by the delivery in progress.
It is owed this call if the delivery began while it was registered and has not come to it, and then
it is called with the notice delivered. -/
theorem calls_after_leaving {w : World σ} {source : SubjectId} (hw : w.HasSource source)
    (hi : (w.subject source).Idle) (hn : (w.subject source).Numbered)
    (script : Script σ) {k id : Nat}
    (hid : id < ((run k ⟨w, [.run script]⟩).world.subject source).nextId)
    (hleft : .left id ∈ atSubject source (run k ⟨w, [.run script]⟩).events) (n : Nat) :
    let m := run k ⟨w, [.run script]⟩
    callsTo id (atSubject source (trace n m)) ++ ((run n m).service source).owed id =
        (m.service source).owed id ∧
      ((m.service source).owed id = [] ∨ ∃ round waiting,
        .deliver source (some round.notice) waiting ∈ m.stack ∧ id ∈ waiting.map (·.id) ∧
        ((w.subject source).roll (atSubject source (trace k ⟨w, [.run script]⟩))).rounds.getLast? =
          some round ∧
        id ∈ round.audience ∧ (m.service source).owed id = [some round.notice]) := by
  intro m
  obtain ⟨hserves, hserving⟩ := serving_run hw hi hn script k
  constructor
  · cases n with
    | zero => rfl
    | succ n =>
      obtain ⟨hstep, hserves'⟩ := serve_step hserves
      obtain ⟨hgone, hnone, hsame⟩ := Service.gone_of_left hstep hid hleft
      rw [trace, atSubject, List.filterMap_append, callsTo_append, run_succ, ← hsame]
      exact (congrArg (· ++ _) (congrArg (· ++ _) hnone)).trans (owed_run hserves' hgone n)
  · obtain hnil | ⟨d, hd, round, hlast, hnotice, hwaits, haudience, howed⟩ :=
      Service.owed_cases hserving (inRound_run hw hi hn script k) id
    · exact .inl hnil
    · refine .inr ⟨round, d.waiting, ?_, hwaits, hlast, haudience, howed⟩
      rw [← hnotice]
      exact deliver_mem_of_deliveryOn _ none hd

/-- Joins a subject with a subscriber that takes the next one off when true is emitted, and with
another one, and emits true. -/
def evicting : Script Unit :=
  .subscribe (.own 0)
    (fun
      | some (.value (.bool true)) => .unsubscribe (.own 0) 1 .done
      | _ => .done)
    fun _ => .subscribe (.own 0) (fun _ => .done) fun _ => .emit 0 (.bool true) .done

theorem calls_after_leaving_evicting :
    let m : Machine Unit := run 9 ⟨{ memory := (), subjects := [{}] }, [.run evicting]⟩
    .left 1 ∈ atSubject (.own 0) m.events ∧
      callsTo 1 (atSubject (.own 0) (trace 20 m)) ++ ((run 20 m).service (.own 0)).owed 1 =
        (m.service (.own 0)).owed 1 := by
  intro m
  have hnamed : World.HasSource ({ memory := (), subjects := [{}] } : World Unit) (.own 0) :=
    show 0 < 1 by decide
  have hid : 1 < (m.world.subject (.own 0)).nextId := by decide
  have hleft : SubjectEvent.left 1 ∈ atSubject (.own 0) m.events := List.mem_singleton.2 rfl
  have h :=
    calls_after_leaving hnamed ⟨rfl, rfl⟩ ⟨by decide, by decide⟩ evicting (k := 9) hid hleft 20
  exact ⟨hleft, h.1⟩

/-- The second subscriber is called with true after the first one has taken it off. -/
theorem called_after_leaving :
    let m : Machine Unit := run 9 ⟨{ memory := (), subjects := [{}] }, [.run evicting]⟩
    m.stack.head? = some (.run (.unsubscribe (.own 0) 1 .done)) ∧
      (m.step.world.subject (.own 0)).subscribers.map (·.id) = [0] ∧
      callsTo 1 (atSubject (.own 0) (trace 20 m.step)) = [some (.value (.bool true))] :=
  ⟨rfl, rfl, rfl⟩

end Machine

end ReactiveMarkup
