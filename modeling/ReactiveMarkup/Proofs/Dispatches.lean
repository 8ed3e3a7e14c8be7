-- SUMMARY: A dispatch calls the listeners registered when it began, in order, and no other.
import Mathlib.Data.List.Perm.Subperm
import ReactiveMarkup.Proofs.CallStack

/-!
# Dispatches

A dispatch goes through the listeners that were registered for its event when it began, and passes
over those that are being called when their turn comes. At that time the dispatch has nothing above
it on the stack, so they are the listeners that were being called when it began. No listener is
called within a call of itself, and a dispatch that is not the innermost is in the middle of a call.
So there cannot be more dispatches within each other than there are listeners, and one. The
listeners that are counted as called are those whose callbacks are run.
`Machine.dispatch_in_order` puts this together.
-/

namespace ReactiveMarkup

variable {σ : Type}

/-- The listener whose call the frame is the end of. -/
def Frame.listener? : Frame σ → Option ListenerId
  | mark (.listener id _) => some id
  | _ => none

/-- Whether the frame is a dispatch. -/
def Frame.isDispatch : Frame σ → Bool
  | dispatch _ _ _ => true
  | _ => false

/-- A listener was registered in the first world or has got its number since, until the second. -/
def Callee.Known (w w' : World σ) : Callee → Prop
  | listener id _ => id ∈ w.listeners.map (·.id) ∨ w.nextListener ≤ id ∧ id < w'.nextListener
  | subscriber _ _ | watcher _ _ | hook _ _ | task => True

namespace Callee.Known

variable {w w' w'' : World σ} {c : Callee}

theorem follows (h : c.Known w w') (hw : w'.Follows w'') : c.Known w w'' := by
  cases c with
  | listener id owner => exact h.imp_right fun ⟨hge, hlt⟩ =>
    ⟨hge, Nat.lt_of_lt_of_le hlt hw.nextListener_le⟩
  | subscriber _ _ | watcher _ _ | hook _ _ | task => trivial

private theorem of_registers (hw : w.Follows w') (h : w'.Registers c) : c.Known w w' := by
  cases c with
  | listener id owner =>
    obtain ⟨l, hl, rfl⟩ := h
    exact (hw.listeners l hl).imp_left fun hl => List.mem_map.2 ⟨l, hl, rfl⟩
  | subscriber _ _ | watcher _ _ | hook _ _ | task => trivial

end Callee.Known

/-! ## The order of registration -/

namespace World

variable {w w' : World σ}

theorem listeners_putSubject (source : SubjectId) (s : Subject σ) :
    (w.putSubject source s).listeners = w.listeners := by
  cases source <;> rfl

private theorem listeners_assign (state : StateId) (path : Path) (v : Value) :
    (w.assign state path v).2.listeners = w.listeners := by
  unfold assign
  split
  · rfl
  · next tree change? _ => cases change? <;> rfl

private theorem listeners_edit (e : Edit) : (w.edit e).2.listeners = w.listeners := by
  unfold edit
  split <;> rfl

/-- The listeners for an event at a node are those registered for exactly this event there. -/
theorem listenersFor_eq (w : World σ) (node : NodeId) (event : String) :
    w.listenersFor node event = w.listeners.filter fun l => l.node = node ∧ l.event = event := by
  rw [listenersFor, listenersAt, List.filter_filter]
  exact List.filter_congr fun l _ => Bool.eq_iff_iff.2 (by simp [and_comm])

/-- The listeners are in the order of their registration, which is that of their numbers. -/
structure ListenersInOrder (w : World σ) : Prop where
  ascending : (w.listeners.map (·.id)).Pairwise (· < ·)
  numbered : ∀ l ∈ w.listeners, l.id < w.nextListener

namespace ListenersInOrder

private theorem of_sublist (h : w.ListenersInOrder) (hl : w'.listeners.Sublist w.listeners)
    (hn : w.nextListener ≤ w'.nextListener) : w'.ListenersInOrder where
  ascending := h.ascending.sublist (hl.map _)
  numbered l hmem := Nat.lt_of_lt_of_le (h.numbered l (hl.subset hmem)) hn

theorem listen (h : w.ListenersInOrder) (node : NodeId) (event : String) (owner : Option StateId)
    (callback : Script σ) : (w.listen node event owner callback).2.ListenersInOrder where
  ascending := by
    simp only [World.listen, List.map_append, List.map_cons, List.map_nil]
    refine List.pairwise_append.2 ⟨h.ascending, List.pairwise_singleton _ _, ?_⟩
    rintro id hid _ (_ | ⟨_, ⟨⟩⟩)
    obtain ⟨l, hl, rfl⟩ := List.mem_map.1 hid
    exact h.numbered l hl
  numbered l hl := by
    rcases List.mem_append.1 hl with hold | hnew
    · exact Nat.lt_succ_of_lt (h.numbered l hold)
    · obtain rfl := List.mem_singleton.1 hnew
      exact Nat.lt_succ_self _

end ListenersInOrder

end World

namespace Machine

theorem listeners_emit (w : World σ) (stack : List (Frame σ)) (source : SubjectId) (n : Notice) :
    (emit w stack source n).world.listeners = w.listeners := by
  obtain ⟨s, he | he⟩ := emit_cases w stack source n <;>
  · rw [he]
    exact World.listeners_putSubject source s

/-- A step takes listeners away or leaves them, unless a script registers one. -/
theorem listeners_step (m : Machine σ) : m.step.world.listeners.Sublist m.world.listeners ∨
    ∃ node event callback next below,
      m.stack = .run (.listen node event callback next) :: below := by
  obtain ⟨w, stack⟩ := m
  have hsame {w' : World σ} (h : w'.listeners = w.listeners) : w'.listeners.Sublist w.listeners :=
    h ▸ List.Sublist.refl _
  match stack with
  | [] | .mark _ :: _ | .watch _ _ [] :: _ | .dispatch [] _ _ :: _ | .watch _ _ (_ :: _) :: _
  | .deliver _ _ (_ :: _) :: _ => exact .inl (.refl _)
  | .react state c :: below =>
    refine .inl (hsame ?_)
    simp only [step, react]
    split <;> rfl
  | .deliver source notice [] :: below =>
    have hstep : step ⟨w, .deliver source notice [] :: below⟩ =
        deliver w below source notice [] := rfl
    obtain ⟨_, _, _, _, _, hd, _⟩ | ⟨_, hd, _⟩ := deliver_nil_cases w below source notice <;>
    · rw [hstep, hd]
      exact .inl (hsame (World.listeners_putSubject source _))
  | .drain ran next :: below =>
    have hstep : step ⟨w, .drain ran next :: below⟩ = drain w below ran next := rfl
    obtain ⟨_, hd, _⟩ | ⟨_, _, _, hd, _⟩ | ⟨_, _, _, _, _, _, _, hd, _⟩ | ⟨_, _, _, _, _, hd, _⟩ :=
      drain_cases w below ran next <;>
    · rw [hstep, hd]
      exact .inl (.refl _)
  | .dispatch (l :: waiting) called next :: below =>
    refine .inl (hsame ?_)
    simp only [step, dispatch]
    split <;> rfl
  | .run script :: below =>
    cases script with
    | listen node event callback next => exact .inr ⟨node, event, callback, next, below, rfl⟩
    | set state path v next =>
      refine .inl (hsame ?_)
      have hassign := World.listeners_assign (w := w) state path v
      have hstep : step ⟨w, .run (.set state path v next) :: below⟩ =
          perform w below (.set state path v next) := rfl
      rcases hr : w.assign state path v with ⟨e | _ | c, w'⟩ <;> rw [hr] at hassign
      · rw [hstep, perform_set_refused hr, hassign]
      · rw [hstep, perform_set_silent hr, hassign]
      · rw [hstep, perform_set_effective hr, listeners_emit, hassign]
    | emit number v next => exact .inl (hsame (listeners_emit w _ _ _))
    | edit e next => exact .inl (hsame (World.listeners_edit e))
    | subscribe source callback next => exact .inl (hsame (World.listeners_putSubject source _))
    | unsubscribe source id next => exact .inl (hsame (World.listeners_putSubject source _))
    | unlisten id next => exact .inl List.filter_sublist
    | unmount md next => exact .inl (World.listeners_releaseAll md.instances ▸ List.filter_sublist)
    | done | log _ _ | readMemory _ | writeMemory _ _ | readState _ _ | retain _ _ | release _ _
    | readSubject _ _
    | defer _ _ | runPending _ | pending _ | readDocument _ | listeners _ _ | dispatch _ _ _ =>
      exact .inl (.refl _)

theorem listenersInOrder_step {m : Machine σ} (h : m.world.ListenersInOrder) :
    m.step.world.ListenersInOrder := by
  obtain hsub | ⟨node, event, callback, next, below, hstack⟩ := listeners_step m
  · exact h.of_sublist hsub (step_follows m).nextListener_le
  · rw [step, hstack]
    exact h.listen node event none callback

theorem listenersInOrder_run {m : Machine σ} (h : m.world.ListenersInOrder) (n : Nat) :
    (run n m).world.ListenersInOrder := by
  induction n with
  | zero => exact h
  | succ n ih =>
    rw [run_succ_step]
    exact listenersInOrder_step ih

/-! ## The calls of listeners -/

/-- The listeners that are being called, the innermost call first. -/
def active (stack : List (Frame σ)) : List ListenerId := stack.filterMap (·.listener?)

theorem isCalled_iff {stack : List (Frame σ)} {id : ListenerId} :
    isCalled stack id = true ↔ id ∈ active stack := by
  induction stack with
  | nil => simp [isCalled, active]
  | cons f stack ih =>
    have hf : f.isCallOf id = true ↔ f.listener? = some id := by
      cases f with
      | mark c => cases c <;> simp [Frame.isCallOf, Frame.listener?]
      | run _ | deliver _ _ _ | react _ _ | watch _ _ _ | drain _ _ | dispatch _ _ _ =>
        simp [Frame.isCallOf, Frame.listener?]
    simp only [isCalled, active, List.any_cons, Bool.or_eq_true, List.filterMap_cons] at ih ⊢
    rw [hf, ih]
    cases f.listener? with
    | none => simp
    | some other => simp [eq_comm]

/-- A listener is called by a dispatch, and not while it is being called. -/
theorem call_listener_cases {m : Machine σ} {id : ListenerId} {owner : Option StateId}
    (h : m.call? = some (.listener id owner)) :
    ∃ l waiting called next below, m.stack = .dispatch (l :: waiting) called next :: below ∧
      l.id = id ∧ l.owner = owner ∧ isCalled below l.id = false := by
  obtain ⟨f, below, script, after, hstack, hstarts, -⟩ := starts_of_call h
  cases hstarts with
  | dispatch l waiting called next free =>
    exact ⟨l, waiting, called, next, below, hstack, rfl, rfl, free⟩

/-- A step calls a listener that is not being called, or it calls none and some may have
returned. -/
theorem active_step (m : Machine σ) :
    (∃ id owner, m.call? = some (.listener id owner) ∧ id ∉ active m.stack ∧
      active m.step.stack = id :: active m.stack) ∨
    active m.step.stack <:+ active m.stack := by
  by_cases hcall : ∃ id owner, m.call? = some (.listener id owner)
  · obtain ⟨id, owner, hcall⟩ := hcall
    obtain ⟨l, waiting, called, next, below, hstack, rfl, rfl, hfree⟩ := call_listener_cases hcall
    obtain ⟨w, stack⟩ := m
    obtain rfl : stack = .dispatch (l :: waiting) called next :: below := hstack
    refine .inl ⟨l.id, l.owner, hcall, fun hmem => ?_, ?_⟩
    · have hbelow : l.id ∈ active below := hmem
      rw [isCalled_iff.2 hbelow] at hfree
      cases hfree
    · simp [step, dispatch, hfree, active, Frame.listener?]
  · obtain ⟨w, stack⟩ := m
    cases stack with
    | nil => exact .inr (List.suffix_refl _)
    | cons f below =>
      obtain ⟨w', pushed, hm, -, -, hmark⟩ := step_advance w f below
      have hpushed : active pushed = [] := by
        refine List.filterMap_eq_nil_iff.2 fun g hg => ?_
        cases g with
        | mark c =>
          have hc := hmark c hg
          cases c with
          | listener id owner => exact absurd ⟨id, owner, hc⟩ hcall
          | subscriber _ _ | watcher _ _ | hook _ _ | task => rfl
        | run _ | deliver _ _ _ | react _ _ | watch _ _ _ | drain _ _ | dispatch _ _ _ => rfl
      refine .inr ?_
      rw [hm, active, List.filterMap_append]
      have hbelow := (List.suffix_cons f below).filterMap (·.listener?)
      rwa [show pushed.filterMap (·.listener?) = [] from hpushed]

/-- No listener is called within a call of itself. -/
theorem nodup_active_run (w : World σ) (script : Script σ) (n : Nat) :
    (active (run n ⟨w, [.run script]⟩).stack).Nodup := by
  induction n with
  | zero => exact List.nodup_nil
  | succ n ih =>
    rw [run_succ_step]
    obtain ⟨id, owner, -, hfree, heq⟩ | hsuffix := active_step (run n ⟨w, [.run script]⟩)
    · rw [heq]
      exact List.nodup_cons.2 ⟨hfree, ih⟩
    · exact ih.sublist hsuffix.sublist

/-! ## How deep dispatches nest -/

/-- The listeners in line and those that are being called have been registered. -/
structure AllKnown (w : World σ) (m : Machine σ) : Prop where
  follows : w.Follows m.world
  line : ∀ c ∈ m.line, c.Known w m.world
  marks : ∀ c, .mark c ∈ m.stack → c.Known w m.world

/-- Whoever is called or comes into line was in line or is registered, if it is a listener. -/
theorem Turn.known {w w' : World σ} {line line' : List Callee} {call : Option Callee}
    (h : Turn w' line line' call) (hw : w.Follows w') (hline : ∀ c ∈ line, c.Known w w') :
    (∀ c ∈ line', c.Known w w') ∧ ∀ c ∈ call, c.Known w w' := by
  cases h with
  | @round fresh line registered =>
    refine ⟨fun c hc => ?_, nofun⟩
    rcases List.mem_append.1 hc with hc | hc
    · exact .of_registers hw (registered c hc)
    · exact hline c hc
  | @call c line =>
    obtain ⟨hc, hrest⟩ := List.forall_mem_cons.1 hline
    refine ⟨hrest, ?_⟩
    rintro _ ⟨⟩
    exact hc
  | skip => exact ⟨(List.forall_mem_cons.1 hline).2, nofun⟩
  | join source =>
    refine ⟨hline, ?_⟩
    rintro _ ⟨⟩
    trivial
  | @other c line hc =>
    refine ⟨hline, ?_⟩
    rintro _ ⟨⟩
    cases c with
    | listener _ _ | subscriber _ _ => cases hc
    | watcher _ _ | hook _ _ | task => trivial

theorem AllKnown.step {w : World σ} {m : Machine σ} (h : AllKnown w m) : AllKnown w m.step := by
  have hfollows := step_follows m
  obtain ⟨hline, hcall⟩ := (turn_step m).known h.follows h.line
  refine ⟨h.follows.trans hfollows, fun c hc => (hline c hc).follows hfollows, fun c hc => ?_⟩
  obtain ⟨above, below, hsplit⟩ := List.append_of_mem hc
  have hmark : .mark c :: below <:+ m.step.stack := ⟨above, hsplit.symm⟩
  obtain hold | ⟨hnew, -⟩ := mark_step hmark
  · exact (h.marks c (hold.subset List.mem_cons_self)).follows hfollows
  · exact (hcall c hnew).follows hfollows

theorem allKnown_run (w : World σ) (script : Script σ) (n : Nat) : AllKnown w
    (run n ⟨w, [.run script]⟩) := by
  induction n with
  | zero => exact ⟨.refl w, nofun, fun c hc => by simp [run] at hc⟩
  | succ n ih =>
    rw [run_succ_step]
    exact ih.step

/-- No more listeners are being called than have been registered. -/
private theorem length_active_le (w : World σ) (script : Script σ) (n : Nat) :
    (active (run n ⟨w, [.run script]⟩).stack).length ≤
      w.listeners.length + ((run n ⟨w, [.run script]⟩).world.nextListener - w.nextListener) := by
  have hknown := allKnown_run w script n
  have hsubset : active (run n ⟨w, [.run script]⟩).stack ⊆ w.listeners.map (·.id) ++
      List.range' w.nextListener
        ((run n ⟨w, [.run script]⟩).world.nextListener - w.nextListener) := by
    intro id hid
    obtain ⟨f, hf, hl⟩ := List.mem_filterMap.1 hid
    obtain ⟨owner, rfl⟩ : ∃ owner, f = .mark (.listener id owner) := by
      cases f with
      | mark c => cases c <;> simp_all [Frame.listener?]
      | run _ | deliver _ _ _ | react _ _ | watch _ _ _ | drain _ _ | dispatch _ _ _ => cases hl
    refine List.mem_append.2 ((hknown.marks _ hf).imp_right fun ⟨hge, hlt⟩ => ?_)
    exact List.mem_range'_1.2 ⟨hge, by rwa [Nat.add_sub_of_le hknown.follows.nextListener_le]⟩
  have hle := (List.Nodup.subperm (nodup_active_run w script n) hsubset).length_le
  simpa using hle

/-- Every dispatch is in the middle of a call, unless it is on top of the stack. -/
private theorem countP_isDispatch_le {stack : List (Frame σ)} (h : Layered stack) :
    stack.countP Frame.isDispatch ≤
      (active stack).length + (stack.take 1).countP Frame.isDispatch := by
  induction h with
  | empty => exact Nat.le_refl 0
  | @called c f below awaits rest ih =>
    have hmark : (Frame.mark c :: f :: below).countP Frame.isDispatch =
        (f :: below).countP Frame.isDispatch :=
      List.countP_cons_of_neg Bool.false_ne_true
    rw [hmark]
    cases hf : f.isDispatch with
    | true =>
      -- A dispatch awaits a listener.
      obtain ⟨id, owner, rfl⟩ : ∃ id owner, c = .listener id owner := by
        cases f with
        | dispatch _ _ _ => cases c <;> first | exact ⟨_, _, rfl⟩ | cases awaits
        | run _ | mark _ | deliver _ _ _ | react _ _ | watch _ _ _ | drain _ _ => cases hf
      have hlength : (active (.mark (.listener id owner) :: f :: below)).length =
          (active (f :: below)).length + 1 := rfl
      have hhead : ((f :: below).take 1).countP Frame.isDispatch = 1 := List.countP_cons_of_pos hf
      omega
    | false =>
      have hlength : (active (f :: below)).length ≤ (active (.mark c :: f :: below)).length :=
        ((List.sublist_cons_self _ _).filterMap _).length_le
      have hhead : ((f :: below).take 1).countP Frame.isDispatch = 0 :=
        List.countP_cons_of_neg (by rw [hf]; exact Bool.false_ne_true)
      omega
  | @other f below unmarked free rest ih =>
    have hhead : (below.take 1).countP Frame.isDispatch = 0 := by
      cases below with
      | nil => rfl
      | cons g below =>
        have hg := free g rfl
        cases g <;> first | rfl | cases hg
    have hlength : active (f :: below) = active below :=
      List.filterMap_cons_none (by cases f <;> first | rfl | cases unmarked)
    have hsplit : (f :: below).countP Frame.isDispatch =
        below.countP Frame.isDispatch + ((f :: below).take 1).countP Frame.isDispatch := by
      rw [List.countP_cons, List.take_succ_cons, List.take_zero, List.countP_singleton]
    rw [hlength, hsplit]
    omega

/-! ## One dispatch -/

/-- Those of the listeners that are not being called in the stack. -/
def dueIn (stack : List (Frame σ)) (ls : List (Listener σ)) : List (Listener σ) :=
  ls.filter fun l => !isCalled stack l.id

/-- The listener that a dispatch calls next which has so many frames below it. -/
def calledAt? (depth : Nat) (m : Machine σ) : Option (Listener σ) :=
  match m.stack with
  | .dispatch (l :: _) _ _ :: below =>
    if below.length = depth ∧ isCalled below l.id = false then some l else none
  | _ => none

/-- A listener that is counted as called is called: its callback is started, and the dispatch goes
on with those after it. -/
private theorem step_of_calledAt {depth : Nat} {m : Machine σ} {l : Listener σ}
    (h : m.calledAt? depth = some l) :
    ∃ waiting called next below, m.stack = .dispatch (l :: waiting) called next :: below ∧
      below.length = depth ∧ m.step.stack = .run l.callback :: .mark (.listener l.id l.owner)
        :: .dispatch waiting (called + 1) next :: below := by
  obtain ⟨w, stack⟩ := m
  unfold calledAt? at h
  split at h
  · next l' waiting called next below hstack =>
    obtain rfl : stack = .dispatch (l' :: waiting) called next :: below := hstack
    split at h
    · next hdue =>
      obtain rfl := Option.some.inj h
      exact ⟨waiting, called, next, below, rfl, hdue.1, by simp [step, dispatch, hdue.2]⟩
    · cases h
  · cases h

/-- A call of a listener is counted. -/
private theorem calledAt_of_call {m : Machine σ} {id : ListenerId} {owner : Option StateId}
    (h : m.call? = some (.listener id owner)) :
    ∃ depth l, m.calledAt? depth = some l ∧ l.id = id ∧ l.owner = owner := by
  obtain ⟨l, waiting, called, next, below, hstack, hid, howner, hfree⟩ := call_listener_cases h
  refine ⟨below.length, l, ?_, hid, howner⟩
  rw [calledAt?, hstack]
  exact if_pos ⟨rfl, hfree⟩

/-- The listeners that dispatches with so many frames below them call in the first `n` steps. -/
def calledAt (depth : Nat) : (n : Nat) → Machine σ → List (Listener σ)
  | 0, _ => []
  | n + 1, m => (m.calledAt? depth).toList ++ calledAt depth n m.step

theorem calledAt_succ (depth n : Nat) (m : Machine σ) :
    calledAt depth (n + 1) m = calledAt depth n m ++ ((run n m).calledAt? depth).toList :=
  collected_succ (fun m => (m.calledAt? depth).toList) (calledAt depth) (fun _ => rfl)
    (fun _ _ => rfl) n m

/-- A dispatch that goes through the listeners is going on `n` steps after it was begun. It has
called those that were due and had their turn. -/
def Underway (ls : List (Listener σ)) (next : Nat → Script σ) (below : List (Frame σ)) (n : Nat)
    (m : Machine σ) : Prop :=
  ∃ above done waiting, ls = done ++ waiting ∧
    (run n m).stack = above ++ .dispatch waiting (dueIn below done).length next :: below ∧
    calledAt below.length n m = dueIn below done

/-- A dispatch has gone through the listeners and returned within `n` steps. It has called those
that were due, and returned their number. -/
def HasReturned (ls : List (Listener σ)) (next : Nat → Script σ) (below : List (Frame σ)) (n : Nat)
    (m : Machine σ) : Prop :=
  ∃ k ≤ n, (run k m).stack = .run (next (dueIn below ls).length) :: below ∧
    calledAt below.length k m = dueIn below ls

section Dispatch

variable {m : Machine σ} {ls : List (Listener σ)} {next : Nat → Script σ}
  {below : List (Frame σ)} {n : Nat}

/-- While something is above it a dispatch waits. -/
theorem Underway.wait {f : Frame σ} {above : List (Frame σ)} {waiting : List (Listener σ)}
    {called : Nat}
    (hstack : (run n m).stack = f :: above ++ .dispatch waiting called next :: below) :
    (∃ above', (run (n + 1) m).stack = above' ++ .dispatch waiting called next :: below) ∧
      calledAt below.length (n + 1) m = calledAt below.length n m := by
  constructor
  · rw [run_succ_step]
    exact below_step hstack
  · have hnone : (run n m).calledAt? below.length = none := by
      unfold calledAt?
      split
      · next hdispatch =>
        rw [hstack] at hdispatch
        obtain ⟨-, rfl⟩ := List.cons.inj hdispatch
        refine if_neg fun hdue => ?_
        have hlength := hdue.1
        simp only [List.append_eq, List.length_append, List.length_cons] at hlength
        omega
      · rfl
    rw [calledAt_succ, hnone]
    exact List.append_nil _

/-- The turn of a dispatch that has nothing above it. -/
theorem Underway.turn {done waiting : List (Listener σ)} (hls : ls = done ++ waiting)
    (hstack : (run n m).stack = .dispatch waiting (dueIn below done).length next :: below)
    (hcalled : calledAt below.length n m = dueIn below done) :
    Underway ls next below (n + 1) m ∨ HasReturned ls next below (n + 1) m := by
  have hsucc := run_succ_step n m
  have hcalls := calledAt_succ below.length n m
  revert hsucc hcalls
  generalize run n m = before at hstack
  obtain ⟨w, stack⟩ := before
  obtain rfl : stack = .dispatch waiting (dueIn below done).length next :: below := hstack
  intro hsucc hcalls
  cases waiting with
  | nil =>
    rw [List.append_nil] at hls
    subst hls
    refine .inr ⟨n + 1, Nat.le_refl _, ?_, ?_⟩
    · rw [hsucc]
      rfl
    · rw [hcalls, hcalled]
      exact List.append_nil _
  | cons l waiting =>
    refine .inl ?_
    have hsplit : ls = done ++ [l] ++ waiting :=
      by rw [hls, List.append_assoc, List.singleton_append]
    cases hl : isCalled below l.id with
    | true =>
      have hdue : dueIn below (done ++ [l]) = dueIn below done := by simp [dueIn, hl]
      have hnone : calledAt? below.length
          ⟨w, .dispatch (l :: waiting) (dueIn below done).length next :: below⟩ = none := by
        simp [calledAt?, hl]
      refine ⟨[], done ++ [l], waiting, hsplit, ?_, ?_⟩
      · rw [hsucc, hdue]
        simp [Machine.step, dispatch, hl]
      · rw [hcalls, hcalled, hnone, hdue]
        exact List.append_nil _
    | false =>
      have hdue : dueIn below (done ++ [l]) = dueIn below done ++ [l] := by simp [dueIn, hl]
      have hsome : calledAt? below.length
          ⟨w, .dispatch (l :: waiting) (dueIn below done).length next :: below⟩ = some l := by
        simp [calledAt?, hl]
      refine ⟨[.run l.callback, .mark (.listener l.id l.owner)], done ++ [l], waiting,
        hsplit, ?_, ?_⟩
      · rw [hsucc, hdue, List.length_append, List.length_singleton]
        simp [Machine.step, dispatch, hl]
      · rw [hcalls, hcalled, hsome, hdue]
        rfl

/-- A dispatch goes on. -/
theorem Underway.step (h : Underway ls next below n m) :
    Underway ls next below (n + 1) m ∨ HasReturned ls next below (n + 1) m := by
  obtain ⟨above, done, waiting, hls, hstack, hcalled⟩ := h
  cases above with
  | nil => exact turn hls hstack hcalled
  | cons f above =>
    obtain ⟨⟨above', habove⟩, hsame⟩ := wait hstack
    exact .inl ⟨above', done, waiting, hls, habove, hsame.trans hcalled⟩

/-- A dispatch that is begun is going on until it returns. -/
private theorem underway_or_hasReturned {node : NodeId} {event : String}
    (h : m.stack = .run (.dispatch node event next) :: below) (n : Nat) :
    Underway (m.world.listenersFor node event) next below (n + 1) m ∨
      HasReturned (m.world.listenersFor node event) next below (n + 1) m := by
  induction n with
  | zero =>
    obtain ⟨w, stack⟩ := m
    obtain rfl : stack = .run (.dispatch node event next) :: below := h
    exact .inl ⟨[], [], w.listenersFor node event, rfl, rfl, rfl⟩
  | succ n ih =>
    obtain h | ⟨k, hk, h⟩ := ih
    · exact h.step
    · exact .inr ⟨k, Nat.le_succ_of_le hk, h⟩

end Dispatch

/-! ## All dispatches -/

/-- What holds of dispatches after `n` steps. -/
structure DispatchInOrder (start : Machine σ) (n : Nat) : Prop where
  /-- The listeners stay in the order of their registration. -/
  registered : start.world.ListenersInOrder → (run n start).world.ListenersInOrder
  /-- The listeners for an event at a node are those registered for exactly this event there. -/
  due : ∀ k < n, ∀ node event, (run k start).world.listenersFor node event =
    (run k start).world.listeners.filter fun l => l.node = node ∧ l.event = event
  /-- No listener is called within a call of itself. -/
  single : (active (run n start).stack).Nodup
  /-- A dispatch that was begun calls the listeners that were registered for its event then and are
  not being called, in their order, and returns their number. -/
  order : ∀ k < n, ∀ node event next below, (run k start).stack =
    .run (.dispatch node event next) :: below →
    Underway ((run k start).world.listenersFor node event) next below (n - k) (run k start) ∨
      HasReturned ((run k start).world.listenersFor node event) next below (n - k) (run k start)
  /-- When nothing is left to do, every dispatch has returned. -/
  returned : (run n start).stack = [] → ∀ k < n, ∀ node event next below,
    (run k start).stack = .run (.dispatch node event next) :: below →
      HasReturned ((run k start).world.listenersFor node event) next below (n - k) (run k start)
  /-- A listener that is counted as called is called: its callback is started, and the dispatch goes
  on with those after it when the callback has come to its end. -/
  called : ∀ k < n, ∀ depth l, (run k start).calledAt? depth = some l →
    ∃ waiting called next below, (run k start).stack =
      .dispatch (l :: waiting) called next :: below ∧ below.length = depth ∧
      (run (k + 1) start).stack = .run l.callback :: .mark (.listener l.id l.owner)
        :: .dispatch waiting (called + 1) next :: below
  /-- Every call of a listener that has not come to its end is counted. -/
  counted : ∀ id owner rest, .mark (.listener id owner) :: rest <:+ (run n start).stack →
    ∃ k < n, (∃ depth l, (run k start).calledAt? depth = some l ∧ l.id = id ∧ l.owner = owner) ∧
      (run (k + 1) start).stack.tail = .mark (.listener id owner) :: rest
  /-- There are no more dispatches within each other than listeners have been registered, and
  one. -/
  depth : (run n start).stack.countP Frame.isDispatch ≤
    start.world.listeners.length + ((run n start).world.nextListener - start.world.nextListener) + 1

/-- In every run dispatches are in order: each calls back the listeners that are due, and returns
their number. -/
theorem dispatch_in_order (w : World σ) (script : Script σ) (n : Nat) :
    DispatchInOrder ⟨w, [.run script]⟩ n := by
  have horder : ∀ k < n, ∀ node event next below,
      (run k ⟨w, [.run script]⟩).stack = .run (.dispatch node event next) :: below →
        Underway ((run k ⟨w, [.run script]⟩).world.listenersFor node event) next below (n - k)
            (run k ⟨w, [.run script]⟩) ∨
          HasReturned ((run k ⟨w, [.run script]⟩).world.listenersFor node event) next below (n - k)
            (run k ⟨w, [.run script]⟩) := by
    intro k hk node event next below h
    obtain ⟨j, rfl⟩ := Nat.exists_eq_add_of_lt hk
    rw [Nat.add_assoc, Nat.add_sub_cancel_left]
    exact underway_or_hasReturned h j
  constructor
  case registered => exact fun h => listenersInOrder_run h n
  case due => exact fun k _ => World.listenersFor_eq _
  case single => exact nodup_active_run w script n
  case order => exact horder
  case returned =>
    intro hdone k hk node event next below h
    refine (horder k hk node event next below h).resolve_left ?_
    rintro ⟨above, done, waiting, -, hstack, -⟩
    rw [← run_add, Nat.add_sub_of_le (Nat.le_of_lt hk), hdone] at hstack
    simp at hstack
  case called =>
    intro k _ depth l h
    obtain ⟨waiting, called, next, below, hstack, hdepth, hstep⟩ := step_of_calledAt h
    exact ⟨waiting, called, next, below, hstack, hdepth, by rw [run_succ_step, hstep]⟩
  case counted =>
    intro id owner rest h
    obtain ⟨k, hk, hcall, _, _, _, _, _, _, hstep, _⟩ := exists_call_of_mark h
    exact ⟨k, hk, calledAt_of_call hcall, by rw [hstep]; rfl⟩
  case depth =>
    have hle :=
      countP_isDispatch_le (layered_run (layered_script script) n : Layered (run n ⟨w, _⟩).stack)
    have htop : ((run n ⟨w, [.run script]⟩).stack.take 1).countP Frame.isDispatch ≤ 1 :=
      Nat.le_trans List.countP_le_length (List.length_take_le 1 _)
    have hactive := length_active_le w script n
    dsimp only
    omega

/-- Two listeners for an event, of which the first dispatches the event again. -/
def echoing : World Unit where
  memory := ()
  listeners :=
    [⟨0, 0, "click", none, .dispatch 0 "click" fun _ => .done⟩, ⟨1, 0, "click", none, .done⟩]
  nextListener := 2

/-- The dispatch within the first call passes over the first listener. -/
example :
    let m : Machine Unit := ⟨echoing, [.run (.dispatch 0 "click" fun _ => .done)]⟩
    (calledAt 0 14 m).map (·.id) = [0, 1] ∧ (calledAt 2 14 m).map (·.id) = [1] := by decide

end Machine

end ReactiveMarkup
