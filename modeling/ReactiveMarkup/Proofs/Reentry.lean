-- SUMMARY: Who can be called again before a call returns.
import ReactiveMarkup.Proofs.Delivery

/-!
# Calls within calls

A callback that is being called has its mark on the stack, and it can be called again only by
something above the mark. Deliveries of a subject do not nest, so what a delivery calls is not
called again before it returns. A subscriber that is called because it joins is in no delivery: it
is registered already, and a notice emitted within this call is delivered at once, to itself too.
`Machine.called_within_join` says that there is no other way.
-/

namespace ReactiveMarkup

variable {σ : Type}

namespace Machine

variable {m : Machine σ} {c : Callee} {source : SubjectId} {id : Nat}

/-! ## The calls of a subscriber -/

/-- A subscriber is called when it joins, or by a delivery. -/
theorem call_subscriber_cases (h : m.call? = some (.subscriber source id)) :
    (∃ callback next below, m.stack = .run (.subscribe source callback next) :: below ∧
        (m.world.subject source).nextId = id) ∨
      ∃ notice sub waiting below, m.stack = .deliver source notice (sub :: waiting) :: below ∧
        sub.id = id := by
  obtain ⟨f, below, script, after, hstack, hstarts, -⟩ := starts_of_call h
  cases hstarts with
  | join _ callback next => exact .inl ⟨callback, next, below, hstack, rfl⟩
  | deliver _ notice sub waiting => exact .inr ⟨notice, sub, waiting, below, hstack, rfl⟩

/-- Numbers go up along a run. -/
theorem nextId_le_run (source : SubjectId) (m : Machine σ) (n : Nat) :
    (m.world.subject source).nextId ≤ ((run n m).world.subject source).nextId := by
  induction n with
  | zero => exact Nat.le_refl _
  | succ n ih =>
    rw [run_succ_step]
    exact Nat.le_trans ih ((step_follows _).nextId_le source)

section Run

variable {w : World σ} (hw : w.HasSource source) (hi : (w.subject source).Idle)
  (hn : (w.subject source).Numbered) (script : Script σ)

include hw hi hn

/-- The number under which a subscriber is called has been given out when the call begins. -/
theorem lt_nextId_of_call {k n : Nat} (hk : k < n)
    (h : (run k ⟨w, [.run script]⟩).call? = some (.subscriber source id)) :
    id < ((run n ⟨w, [.run script]⟩).world.subject source).nextId := by
  obtain ⟨hserves, hserving⟩ := serving_run hw hi hn script k
  have hmono := nextId_le_run source (run (k + 1) ⟨w, [.run script]⟩) (n - (k + 1))
  rw [← run_add, Nat.add_sub_of_le hk] at hmono
  refine Nat.lt_of_lt_of_le ?_ hmono
  obtain ⟨callback, next, below, hstack, hid⟩ | ⟨notice, sub, waiting, below, hstack, hid⟩ :=
    call_subscriber_cases h
  · have hstep : (run (k + 1) ⟨w, [.run script]⟩).world =
        ((run k ⟨w, [.run script]⟩).world.register source callback).2 := by
      rw [run_succ_step, step, hstack]
      rfl
    rw [hstep, World.subject_register_self hserves.named, ← hid]
    exact Nat.lt_succ_self _
  · have hdelivery : ((run k ⟨w, [.run script]⟩).service source).delivery =
        some ⟨notice, sub :: waiting, none⟩ := by
      rw [service, hstack, deliveryOn_deliver_self]
    have hlt := hserving.waiting_lt _ hdelivery sub List.mem_cons_self
    rw [hid] at hlt
    rw [run_succ_step]
    exact Nat.lt_of_lt_of_le hlt ((step_follows _).nextId_le source)

/-- Nobody joins twice under one number. -/
private theorem join_unique {j k : Nat}
    (hj : (run j ⟨w, [.run script]⟩).call? = some (.subscriber source id))
    (hjid : ((run j ⟨w, [.run script]⟩).world.subject source).nextId = id)
    (hk : (run k ⟨w, [.run script]⟩).call? = some (.subscriber source id))
    (hkid : ((run k ⟨w, [.run script]⟩).world.subject source).nextId = id) : j = k := by
  rcases Nat.lt_trichotomy j k with hlt | heq | hlt
  · exact absurd hkid (Nat.ne_of_gt (lt_nextId_of_call hw hi hn script hlt hj))
  · exact heq
  · exact absurd hjid (Nat.ne_of_gt (lt_nextId_of_call hw hi hn script hlt hk))

/-- Where nothing delivers, the mark of a subscriber is that of its joining. -/
theorem join_of_mark {n : Nat} {rest : List (Frame σ)}
    (h : .mark (.subscriber source id) :: rest <:+ (run n ⟨w, [.run script]⟩).stack)
    (hquiet : rest.countP (Frame.deliversFrom source) = 0) :
    ∃ k < n, ∃ callback next below,
      (run k ⟨w, [.run script]⟩).stack = .run (.subscribe source callback next) :: below ∧
      ((run k ⟨w, [.run script]⟩).world.subject source).nextId = id ∧
      ((run k ⟨w, [.run script]⟩).world.subject source).delivering = false ∧
      (run k ⟨w, [.run script]⟩).call? = some (.subscriber source id) ∧
      (run k ⟨w, [.run script]⟩).step.stack.tail = .mark (.subscriber source id) :: rest ∧
      rest = .run (next id) :: below := by
  obtain ⟨k, hk, hcall, f, below, script', after, hstack, hstarts, hstep, rfl⟩ :=
    exists_call_of_mark h
  rw [run_succ_step] at hstep
  cases hstarts with
  | join _ callback next =>
    refine ⟨k, hk, callback, next, below, hstack, rfl, ?_, hcall, by rw [hstep]; rfl, rfl⟩
    refine (serving_run hw hi hn script k).1.delivering_eq_false ?_
    rw [hstack]
    exact hquiet
  | deliver _ notice sub waiting => simp [Frame.deliversFrom] at hquiet

/-- A subscriber that is called while a call of it has not returned is called by a delivery, and the
call that has not returned is the one that it got on joining. No delivery was in progress when it
joined, so the delivery is within this call. It has no other calls that have not returned. -/
theorem called_within_join {n : Nat}
    (hcall : (run n ⟨w, [.run script]⟩).call? = some (.subscriber source id))
    (hmem : .mark (.subscriber source id) ∈ (run n ⟨w, [.run script]⟩).stack) :
    ∃ k < n, ∃ callback next below,
      (run k ⟨w, [.run script]⟩).stack = .run (.subscribe source callback next) :: below ∧
      ((run k ⟨w, [.run script]⟩).world.subject source).nextId = id ∧
      ((run k ⟨w, [.run script]⟩).world.subject source).delivering = false ∧
      ∃ notice sub waiting above,
        (run n ⟨w, [.run script]⟩).stack = .deliver source notice (sub :: waiting) :: above ++
          .mark (.subscriber source id) :: .run (next id) :: below ∧
        sub.id = id ∧ .mark (.subscriber source id) ∉ above ∧
        .mark (.subscriber source id) ∉ below := by
  obtain ⟨before, after, hsplit, hfirst⟩ := List.eq_append_cons_of_mem hmem
  have hsuffix : .mark (.subscriber source id) :: after <:+ (run n ⟨w, [.run script]⟩).stack :=
    ⟨before, hsplit.symm⟩
  obtain ⟨callback, next, below, hstack, hid⟩ | ⟨notice, sub, waiting, below, hstack, hid⟩ :=
    call_subscriber_cases hcall
  · -- The number that is about to be given out has not been called.
    obtain ⟨k, hk, hcalled, -⟩ := exists_call_of_mark hsuffix
    exact absurd hid (Nat.ne_of_gt (lt_nextId_of_call hw hi hn script hk hcalled))
  · -- The delivery that calls is the only one on the stack.
    have hquiet : below.countP (Frame.deliversFrom source) = 0 := by
      have hb := (serving_run hw hi hn script n).1.balanced
      rw [hstack] at hb
      simp only [Frame.deliversFrom, beq_self_eq_true, List.countP_cons_of_pos] at hb
      split at hb <;> omega
    obtain ⟨above, rfl, rfl⟩ : ∃ above, before = .deliver source notice (sub :: waiting) :: above ∧
        below = above ++ .mark (.subscriber source id) :: after := by
      cases before with
      | nil =>
        rw [hstack] at hsplit
        cases hsplit
      | cons f above =>
        rw [hstack] at hsplit
        cases hsplit
        exact ⟨above, rfl, rfl⟩
    have hrest : after.countP (Frame.deliversFrom source) = 0 := by
      rw [List.countP_append, List.countP_cons] at hquiet
      omega
    obtain ⟨k, hk, callback, next, below, hjoin, hnew, hidle, hcalled, htail, rfl⟩ :=
      join_of_mark hw hi hn script hsuffix hrest
    refine ⟨k, hk, callback, next, below, hjoin, hnew, hidle, notice, sub, waiting,
      above, hsplit, hid, fun hmem' => hfirst (List.mem_cons_of_mem _ hmem'), fun hmem' => ?_⟩
    -- A second mark further down would be that of a second joining under the same number.
    obtain ⟨above', after', rfl⟩ := List.append_of_mem hmem'
    have hsuffix' : .mark (.subscriber source id) :: after' <:+
        (run n ⟨w, [.run script]⟩).stack := by
      refine List.IsSuffix.trans ?_ hsuffix
      exact ⟨.mark (.subscriber source id) :: .run (next id) :: above', by simp⟩
    have hrest' : after'.countP (Frame.deliversFrom source) = 0 := by
      simp only [List.countP_cons, List.countP_append] at hrest
      omega
    obtain ⟨k', -, -, -, -, -, hnew', -, hcalled', htail', -⟩ :=
      join_of_mark hw hi hn script hsuffix' hrest'
    obtain rfl := join_unique hw hi hn script hcalled hnew hcalled' hnew'
    have hlength := congrArg List.length (htail.symm.trans htail')
    simp at hlength
    omega

end Run

/-- Joins a subject with a subscriber that emits true when it joins. -/
def announcing : Script Unit :=
  .subscribe (.own 0)
    (fun
      | none => .emit 0 (.bool true) .done
      | some _ => .done)
    fun _ => .done

theorem called_within_join_announcing :
    let m : Machine Unit := run 3 ⟨{ memory := (), subjects := [{}] }, [.run announcing]⟩
    m.call? = some (.subscriber (.own 0) 0) ∧ .mark (.subscriber (.own 0) 0) ∈ m.stack ∧
      ∃ notice sub waiting above next below,
        m.stack = .deliver (.own 0) notice (sub :: waiting) :: above ++
          .mark (.subscriber (.own 0) 0) :: .run next :: below ∧ sub.id = 0 := by
  intro m
  have hnamed : World.HasSource ({ memory := (), subjects := [{}] } : World Unit) (.own 0) :=
    show 0 < 1 by decide
  have hcall : m.call? = some (.subscriber (.own 0) 0) := rfl
  have hmem : .mark (.subscriber (.own 0) 0) ∈ m.stack :=
    List.mem_cons_of_mem _ (List.mem_cons_of_mem _ List.mem_cons_self)
  obtain ⟨k, -, callback, next, below, -, -, -, notice, sub, waiting, above, hstack, hid, -⟩ :=
    called_within_join hnamed ⟨rfl, rfl⟩ ⟨by decide, by decide⟩ announcing (n := 3) hcall hmem
  exact ⟨rfl, hmem, notice, sub, waiting, above, next 0, below, hstack, hid⟩

/-- The subscriber is called with the notice that it emits in its first call before this call
returns. -/
theorem called_within_call :
    let m : Machine Unit := run 3 ⟨{ memory := (), subjects := [{}] }, [.run announcing]⟩
    m.call? = some (.subscriber (.own 0) 0) ∧
      m.stack.tail = [.run .done, .mark (.subscriber (.own 0) 0), .run .done] ∧
      callsTo 0
        (atSubject (.own 0) (trace 4 ⟨{ memory := (), subjects := [{}] }, [.run announcing]⟩)) =
        [none, some (.value (.bool true))] :=
  ⟨rfl, rfl, rfl⟩

end Machine

end ReactiveMarkup
