-- SUMMARY: Reactions to two writes, in the order in which the writes were made or nested.
import Mathlib.Data.List.Forall2
import ReactiveMarkup.Proofs.Writes

/-!
# The order of reactions to writes

A write that is made while an earlier one is open goes ahead of it: its hook is deferred and its
watchers are called before the earlier write goes on. So of two writes, a reaction to the first
comes before the reactions to the second exactly if it came before the second write was made, and
hooks run in the order in which they were deferred.

The events at a state do not say which write they belong to. A `Numbering` adds that: writes are
numbered in the order in which they are made, reactions belong to the innermost open write, and
hooks leave the queue first in, first out. `Numbering.Tracks` says that this is what the machine
does.
-/

namespace ReactiveMarkup

variable {σ : Type}

/-! ## Numbering the events at a state -/

namespace StateEvent

/-- The change that the event is about. -/
def change? : StateEvent σ → Option Change
  | wrote _ change? => change?
  | deferred c | watched c _ | settled c | hooked c | dropped c => some c

/-- Whether an effective write is made. -/
def isMade : StateEvent σ → Bool
  | wrote _ change? => change?.isSome
  | deferred _ | watched _ _ | settled _ | hooked _ | dropped _ => false

/-- Whether a hook is deferred. -/
def isDeferred : StateEvent σ → Bool
  | deferred _ => true
  | wrote _ _ | watched _ _ | settled _ | hooked _ | dropped _ => false

/-- Whether a write goes on to its reactions: its hook is deferred or a watcher is called. -/
def isReaction : StateEvent σ → Bool
  | deferred _ | watched _ _ => true
  | wrote _ _ | settled _ | hooked _ | dropped _ => false

/-- Whether a watcher is called. -/
def isWatched : StateEvent σ → Bool
  | watched _ _ => true
  | wrote _ _ | deferred _ | settled _ | hooked _ | dropped _ => false

/-- Whether a hook runs. -/
def isHooked : StateEvent σ → Bool
  | hooked _ => true
  | wrote _ _ | deferred _ | watched _ _ | settled _ | dropped _ => false

/-- Whether a hook leaves the queue. -/
def isTaken : StateEvent σ → Bool
  | hooked _ | dropped _ => true
  | wrote _ _ | deferred _ | watched _ _ | settled _ => false

end StateEvent

/-- The events at a state, each with the number of the write that it belongs to. -/
structure Numbering (σ : Type) where
  writes : List Change := []
  /-- The writes that are open, the innermost first. -/
  opened : List Nat := []
  /-- The writes whose hook is in the queue. -/
  queued : List Nat := []
  events : List (Nat × StateEvent σ) := []

namespace Numbering

/-- The numbering with one more event. -/
def after (s : Numbering σ) (e : StateEvent σ) : Numbering σ :=
  match e with
  | .wrote _ none => s
  | .wrote _ (some c) =>
    { s with
      writes := s.writes ++ [c]
      opened := s.writes.length :: s.opened
      events := s.events ++ [(s.writes.length, e)] }
  | .deferred _ =>
    { s with
      queued := s.queued ++ [s.opened.headD 0]
      events := s.events ++ [(s.opened.headD 0, e)] }
  | .watched _ _ => { s with events := s.events ++ [(s.opened.headD 0, e)] }
  | .settled _ =>
    { s with opened := s.opened.tail, events := s.events ++ [(s.opened.headD 0, e)] }
  | .hooked _ | .dropped _ =>
    { s with queued := s.queued.tail, events := s.events ++ [(s.queued.headD 0, e)] }

/-- The numbering of the events at a state. -/
def of (t : List (StateEvent σ)) : Numbering σ := t.foldl after {}

theorem of_append (t u : List (StateEvent σ)) : of (t ++ u) = u.foldl after (of t) :=
  List.foldl_append

end Numbering

/-! ## Positions of events -/

/-- Something of a kind happens for a write at a position. -/
def Happens (l : List (Nat × StateEvent σ)) (kind : StateEvent σ → Bool)
    (write position : Nat) : Prop :=
  ∃ e, l[position]? = some (write, e) ∧ kind e = true

/-- The writes for which something of a kind happens, in the order of the events. -/
def numbersOf (kind : StateEvent σ → Bool) (l : List (Nat × StateEvent σ)) : List Nat :=
  (l.filter fun x => kind x.2).map (·.1)

section Positions

variable {l : List (Nat × StateEvent σ)} {kind : StateEvent σ → Bool} {i j a b : Nat}

theorem Happens.lt (h : Happens l kind i a) : a < l.length := by
  obtain ⟨e, he, _⟩ := h
  exact (List.getElem?_eq_some_iff.1 he).1

/-- One more event happens behind those before. -/
theorem happens_concat {k : Nat} {e : StateEvent σ} :
    Happens (l ++ [(k, e)]) kind i a ↔
      Happens l kind i a ∨ (a = l.length ∧ i = k ∧ kind e = true) := by
  constructor
  · rintro ⟨x, hx, hk⟩
    rcases Nat.lt_trichotomy a l.length with hlt | heq | hgt
    · rw [List.getElem?_append_left hlt] at hx
      exact .inl ⟨x, hx, hk⟩
    · subst heq
      simp only [List.getElem?_concat_length, Option.some.injEq, Prod.mk.injEq] at hx
      exact .inr ⟨rfl, hx.1.symm, hx.2 ▸ hk⟩
    · rw [List.getElem?_eq_none (by simp; omega)] at hx
      cases hx
  · rintro (⟨x, hx, hk⟩ | ⟨rfl, rfl, hk⟩)
    · exact ⟨x, by rw [List.getElem?_append_left (List.getElem?_eq_some_iff.1 hx).1, hx], hk⟩
    · exact ⟨e, List.getElem?_concat_length, hk⟩

theorem Happens.of_concat {k : Nat} {e : StateEvent σ} (h : Happens (l ++ [(k, e)]) kind i a)
    (he : kind e = false) : Happens l kind i a := by
  rcases happens_concat.1 h with h | ⟨_, _, hk⟩
  · exact h
  · rw [he] at hk
    cases hk

theorem Happens.mem (h : Happens l kind i a) : i ∈ numbersOf kind l := by
  obtain ⟨e, he, hk⟩ := h
  exact List.mem_map.2 ⟨(i, e), List.mem_filter.2 ⟨List.mem_of_getElem? he, hk⟩, rfl⟩

theorem happens_of_mem (h : i ∈ numbersOf kind l) : ∃ a, Happens l kind i a := by
  obtain ⟨⟨k, e⟩, hx, rfl⟩ := List.mem_map.1 h
  obtain ⟨hmem, hk⟩ := List.mem_filter.1 hx
  obtain ⟨a, ha⟩ := List.mem_iff_getElem?.1 hmem
  exact ⟨a, e, ha, hk⟩

/-- What happens earlier stands earlier. -/
theorem Happens.pair (h : Happens l kind i a) (h' : Happens l kind j b) (hab : a < b) :
    [i, j].Sublist (numbersOf kind l) := by
  obtain ⟨e, he, hk⟩ := h
  obtain ⟨e', he', hk'⟩ := h'
  -- The list is cut in front of the later event.
  have hfirst : (i, e) ∈ l.take b := by
    refine List.mem_iff_getElem?.2 ⟨a, ?_⟩
    rw [List.getElem?_take_of_lt hab, he]
  have hsecond : (j, e') ∈ l.drop b := by
    refine List.mem_iff_getElem?.2 ⟨0, ?_⟩
    rw [List.getElem?_drop, Nat.add_zero, he']
  -- One event is on each side of the cut.
  have hpair : [(i, e), (j, e')].Sublist l := by
    rw [← List.take_append_drop b l]
    exact (List.singleton_sublist.2 hfirst).append (List.singleton_sublist.2 hsecond)
  have hfilter := hpair.filter fun x => kind x.2
  simp only [List.filter_cons, hk, hk', if_true, List.filter_nil] at hfilter
  exact hfilter.map (·.1)

/-- Two elements stand in one order only in a list without repetition. -/
theorem not_pair_both_ways {l : List Nat} (hnd : l.Nodup) (h : [i, j].Sublist l)
    (h' : [j, i].Sublist l) : False := by
  induction l with
  | nil => cases h
  | cons x l ih =>
    obtain ⟨hx, hl⟩ := List.nodup_cons.1 hnd
    cases h with
    | cons _ h =>
      cases h' with
      | cons _ h' => exact ih hl h h'
      | cons_cons _ h' => exact hx (h.subset (by simp))
    | cons_cons _ h =>
      cases h' with
      | cons _ h' => exact hx (h'.subset (by simp))
      | cons_cons _ h' => exact hx (List.singleton_sublist.1 h)

/-- Where nothing happens twice, events are in the order in which their writes stand. -/
theorem Happens.lt_iff (hnd : (numbersOf kind l).Nodup) (hij : i ≠ j) (h : Happens l kind i a)
    (h' : Happens l kind j b) : a < b ↔ [i, j].Sublist (numbersOf kind l) := by
  constructor
  · exact h.pair h'
  · intro hsub
    rcases Nat.lt_trichotomy a b with hlt | heq | hgt
    · exact hlt
    · subst heq
      obtain ⟨e, he, _⟩ := h
      obtain ⟨e', he', _⟩ := h'
      rw [he] at he'
      cases he'
      exact absurd rfl hij
    · exact (not_pair_both_ways hnd hsub (h'.pair h hgt)).elim

end Positions

/-! ## Nesting -/

/-- Events in which the writes that are open form a stack, and only the innermost goes on to its
reactions. -/
structure Nested (l : List (Nat × StateEvent σ)) (opened : List Nat) (count : Nat) : Prop where
  sorted : opened.Pairwise (· > ·)
  opened_lt : ∀ i ∈ opened, i < count
  lt : ∀ x ∈ l, x.1 < count
  made_opened : ∀ i ∈ opened, ∃ m, Happens l StateEvent.isMade i m
  /-- A write is made before it goes on to its reactions. -/
  made_before : ∀ {j b}, Happens l StateEvent.isReaction j b →
    ∃ m < b, Happens l StateEvent.isMade j m
  made_once : ∀ {j m m'}, Happens l StateEvent.isMade j m →
    Happens l StateEvent.isMade j m' → m = m'
  /-- An earlier write goes on only when the writes made after it are over. -/
  closed : ∀ {i j a m}, i < j → Happens l StateEvent.isMade j m →
    Happens l StateEvent.isReaction i a → m < a → j ∉ opened
  order : ∀ {i j a b m}, i < j → Happens l StateEvent.isReaction i a →
    Happens l StateEvent.isReaction j b → Happens l StateEvent.isMade j m → (a < b ↔ a < m)

namespace Nested

variable {l : List (Nat × StateEvent σ)} {opened : List Nat} {count : Nat}

theorem lt_of_happens (h : Nested l opened count) {kind : StateEvent σ → Bool} {i a : Nat}
    (hi : Happens l kind i a) : i < count := by
  obtain ⟨e, he, _⟩ := hi
  exact h.lt _ (List.mem_of_getElem? he)

private theorem isReaction_of_isMade {e : StateEvent σ} (h : e.isMade = true) :
    e.isReaction = false := by
  cases e with
  | wrote _ _ => rfl
  | deferred _ | watched _ _ | settled _ | hooked _ | dropped _ => cases h

private theorem isMade_of_isReaction {e : StateEvent σ} (h : e.isReaction = true) :
    e.isMade = false := by
  cases e with
  | deferred _ | watched _ _ => rfl
  | wrote _ _ | settled _ | hooked _ | dropped _ => cases h

/-- A new write is the innermost. -/
theorem make (h : Nested l opened count) {e : StateEvent σ} (he : e.isMade = true) :
    Nested (l ++ [(count, e)]) (count :: opened) (count + 1) := by
  have hr : e.isReaction = false := isReaction_of_isMade he
  constructor
  case sorted => exact List.pairwise_cons.2 ⟨h.opened_lt, h.sorted⟩
  case opened_lt =>
    intro i hi
    rcases List.mem_cons.1 hi with rfl | hi
    · exact Nat.lt_succ_self _
    · exact Nat.lt_succ_of_lt (h.opened_lt i hi)
  case lt =>
    intro x hx
    rcases List.mem_append.1 hx with hx | hx
    · exact Nat.lt_succ_of_lt (h.lt x hx)
    · obtain rfl := List.mem_singleton.1 hx
      exact Nat.lt_succ_self _
  case made_opened =>
    intro i hi
    rcases List.mem_cons.1 hi with rfl | hi
    · exact ⟨l.length, happens_concat.2 (.inr ⟨rfl, rfl, he⟩)⟩
    · obtain ⟨m, hm⟩ := h.made_opened i hi
      exact ⟨m, happens_concat.2 (.inl hm)⟩
  case made_before =>
    intro j b hb
    obtain ⟨m, hm, hmade⟩ := h.made_before (hb.of_concat hr)
    exact ⟨m, hm, happens_concat.2 (.inl hmade)⟩
  case made_once =>
    intro j m m' hm hm'
    rcases happens_concat.1 hm with hl | ⟨hl, hj, _⟩ <;>
      rcases happens_concat.1 hm' with hl' | ⟨hl', hj', _⟩
    · exact h.made_once hl hl'
    · exact absurd hj' (Nat.ne_of_lt (h.lt_of_happens hl))
    · exact absurd hj (Nat.ne_of_lt (h.lt_of_happens hl'))
    · rw [hl, hl']
  case closed =>
    intro i j a m hij hm ha hma hj
    have ha' : Happens l StateEvent.isReaction i a := ha.of_concat hr
    rcases happens_concat.1 hm with hm' | ⟨rfl, _, _⟩
    · refine h.closed hij hm' ha' hma ?_
      rcases List.mem_cons.1 hj with rfl | hj
      · exact absurd (h.lt_of_happens hm') (Nat.lt_irrefl _)
      · exact hj
    · exact absurd hma (Nat.not_lt.2 (Nat.le_of_lt ha'.lt))
  case order =>
    intro i j a b m hij ha hb hm
    have ha' : Happens l StateEvent.isReaction i a := ha.of_concat hr
    have hb' : Happens l StateEvent.isReaction j b := hb.of_concat hr
    rcases happens_concat.1 hm with hm' | ⟨_, rfl, _⟩
    · exact h.order hij ha' hb' hm'
    · exact absurd (h.lt_of_happens hb') (Nat.lt_irrefl _)

/-- The innermost write goes on to a reaction. -/
theorem goOn {k : Nat} (h : Nested l (k :: opened) count) {e : StateEvent σ}
    (he : e.isReaction = true) : Nested (l ++ [(k, e)]) (k :: opened) count := by
  have hnot : e.isMade = false := isMade_of_isReaction he
  have hmade : ∀ {j m}, Happens (l ++ [(k, e)]) StateEvent.isMade j m →
      Happens l StateEvent.isMade j m :=
    fun hm => hm.of_concat hnot
  have hk : ∀ i ∈ opened, i < k := (List.pairwise_cons.1 h.sorted).1
  constructor
  case sorted => exact h.sorted
  case opened_lt => exact h.opened_lt
  case lt =>
    intro x hx
    rcases List.mem_append.1 hx with hx | hx
    · exact h.lt x hx
    · obtain rfl := List.mem_singleton.1 hx
      exact h.opened_lt k List.mem_cons_self
  case made_opened =>
    intro i hi
    obtain ⟨m, hm⟩ := h.made_opened i hi
    exact ⟨m, happens_concat.2 (.inl hm)⟩
  case made_before =>
    intro j b hb
    rcases happens_concat.1 hb with hb | ⟨rfl, rfl, _⟩
    · obtain ⟨m, hm, hmj⟩ := h.made_before hb
      exact ⟨m, hm, happens_concat.2 (.inl hmj)⟩
    · obtain ⟨m, hm⟩ := h.made_opened j List.mem_cons_self
      exact ⟨m, hm.lt, happens_concat.2 (.inl hm)⟩
  case made_once => exact fun hm hm' => h.made_once (hmade hm) (hmade hm')
  case closed =>
    intro i j a m hij hm ha hma hj
    rcases happens_concat.1 ha with ha | ⟨_, rfl, _⟩
    · exact h.closed hij (hmade hm) ha hma hj
    · -- Everything that is open was made no later than the innermost.
      rcases List.mem_cons.1 hj with rfl | hj
      · exact Nat.lt_irrefl _ hij
      · exact Nat.lt_asymm hij (hk j hj)
  case order =>
    intro i j a b m hij ha hb hm
    have hm' := hmade hm
    rcases happens_concat.1 ha with ha' | ⟨ha', hi, _⟩ <;>
      rcases happens_concat.1 hb with hb' | ⟨hb', hj, _⟩
    · exact h.order hij ha' hb' hm'
    · -- One event belongs to one write, so these are two.
      have hne : a ≠ m := by
        rintro rfl
        obtain ⟨x, hx, hxr⟩ := ha'
        obtain ⟨y, hy, hym⟩ := hm'
        rw [hx] at hy
        cases hy
        exact absurd rfl (Nat.ne_of_lt hij)
      have hopen : j ∈ k :: opened := hj ▸ List.mem_cons_self
      constructor
      · exact fun _ => Nat.lt_of_le_of_ne
          (Nat.le_of_not_lt fun hgt => h.closed hij hm' ha' hgt hopen) hne
      · exact fun ham => hb' ▸ Nat.lt_trans ham hm'.lt
    · rw [ha']
      exact ⟨fun hlt => absurd hlt (Nat.lt_asymm hb'.lt),
        fun hlt => absurd hlt (Nat.lt_asymm hm'.lt)⟩
    · rw [hi, hj] at hij
      exact absurd hij (Nat.lt_irrefl _)

/-- What is neither a write nor a reaction leaves the nesting as it is, and writes may be over
then. -/
theorem other {opened' : List Nat} {k : Nat} (h : Nested l opened count) (hk : k < count)
    (hsub : opened'.Sublist opened) {e : StateEvent σ} (hm : e.isMade = false)
    (hr : e.isReaction = false) : Nested (l ++ [(k, e)]) opened' count := by
  have hmade : ∀ {j m}, Happens (l ++ [(k, e)]) StateEvent.isMade j m →
      Happens l StateEvent.isMade j m :=
    fun hj => hj.of_concat hm
  have hreact : ∀ {j m}, Happens (l ++ [(k, e)]) StateEvent.isReaction j m →
      Happens l StateEvent.isReaction j m :=
    fun hj => hj.of_concat hr
  constructor
  case sorted => exact h.sorted.sublist hsub
  case opened_lt => exact fun i hi => h.opened_lt i (hsub.subset hi)
  case lt =>
    intro x hx
    rcases List.mem_append.1 hx with hx | hx
    · exact h.lt x hx
    · obtain rfl := List.mem_singleton.1 hx
      exact hk
  case made_opened =>
    intro i hi
    obtain ⟨m, hm⟩ := h.made_opened i (hsub.subset hi)
    exact ⟨m, happens_concat.2 (.inl hm)⟩
  case made_before =>
    intro j b hb
    obtain ⟨m, hm, hmj⟩ := h.made_before (hreact hb)
    exact ⟨m, hm, happens_concat.2 (.inl hmj)⟩
  case made_once => exact fun hj hj' => h.made_once (hmade hj) (hmade hj')
  case closed =>
    exact fun hij hj hi hlt hmem => h.closed hij (hmade hj) (hreact hi) hlt (hsub.subset hmem)
  case order => exact fun hij hi hj hmj => h.order hij (hreact hi) (hreact hj) (hmade hmj)

end Nested

/-! ## Numberings follow the machine -/

theorem numbersOf_concat_of_not {l : List (Nat × StateEvent σ)}
    {kind : StateEvent σ → Bool} {k : Nat}
    {e : StateEvent σ} (h : kind e = false) : numbersOf kind
    (l ++ [(k, e)]) = numbersOf kind l := by
  simp [numbersOf, h]

theorem numbersOf_concat {l : List (Nat × StateEvent σ)} {kind : StateEvent σ → Bool} {k : Nat}
    {e : StateEvent σ} (h : kind e = true) : numbersOf kind
    (l ++ [(k, e)]) = numbersOf kind l ++ [k] := by
  simp [numbersOf, h]

namespace Numbering

/-- A number stands for an open write: they have the same change, and while the change is with the
subscribers the hook has not been deferred. -/
structure StandsFor (writes : List Change) (events : List (Nat × StateEvent σ)) (i : Nat)
    (o : OpenWrite σ) : Prop where
  change : writes[i]? = some o.change
  fresh : ∀ c, o = .reacting c → i ∉ numbersOf StateEvent.isDeferred events

/-- The numbers agree with the writes of a state: they belong to the same changes, and hooks wait in
the order in which they were deferred. -/
structure Tracks (s : Numbering σ) (v : Writes σ) : Prop where
  opened : List.Forall₂ (StandsFor s.writes s.events) s.opened v.opened
  queued : s.queued.map (s.writes[·]?) = v.queued.map some
  changes : ∀ x ∈ s.events, x.2.change? = s.writes[x.1]?
  nested : Nested s.events s.opened s.writes.length
  fifo : numbersOf StateEvent.isDeferred s.events =
    numbersOf StateEvent.isTaken s.events ++ s.queued
  once : (numbersOf StateEvent.isDeferred s.events).Nodup

section Moves

variable {b : Behavior σ} {writes : List Change} {opened queued : List Nat}
  {events : List (Nat × StateEvent σ)} {o : List (OpenWrite σ)} {q : List Change}

/-- A hook that leaves the queue is not deferred then, and is no write and no reaction. -/
private theorem kinds_of_isTaken {e : StateEvent σ} (h : e.isTaken = true) :
    e.isDeferred = false ∧ e.isMade = false ∧ e.isReaction = false := by
  cases e with
  | hooked _ | dropped _ => exact ⟨rfl, rfl, rfl⟩
  | wrote _ _ | deferred _ | watched _ _ | settled _ => cases h

theorem StandsFor.concat {i k : Nat} {w : OpenWrite σ} {e : StateEvent σ}
    (h : StandsFor writes events i w) (he : e.isDeferred = false) :
    StandsFor writes (events ++ [(k, e)]) i w := by
  refine ⟨h.change, fun c hc => ?_⟩
  rw [numbersOf_concat_of_not he]
  exact h.fresh c hc

theorem changes_concat {i : Nat} {e : StateEvent σ} (h : ∀ x ∈ events, x.2.change? = writes[x.1]?)
    (he : e.change? = writes[i]?) : ∀ x ∈ events ++ [(i, e)], x.2.change? = writes[x.1]? := by
  intro x hx
  rcases List.mem_append.1 hx with hx | hx
  · exact h x hx
  · obtain rfl := List.mem_singleton.1 hx
    exact he

/-- The innermost number stands for the innermost open write. -/
theorem Tracks.opened_cons {w : OpenWrite σ}
    (h : Tracks ⟨writes, opened, queued, events⟩ ⟨w :: o, q⟩) :
    ∃ i is, opened = i :: is ∧ StandsFor writes events i w ∧
      List.Forall₂ (StandsFor writes events) is o := by
  obtain ⟨i, is, hi, his, hopen⟩ := List.forall₂_cons_right_iff.1 h.opened
  exact ⟨i, is, hopen, hi, his⟩

private theorem tracks_start : Tracks ({} : Numbering σ) ⟨[], []⟩ where
  opened := .nil
  queued := rfl
  changes := by simp
  nested := by
    constructor <;> simp [Happens]
  fifo := rfl
  once := .nil

theorem Tracks.write (h : Tracks ⟨writes, opened, queued, events⟩ ⟨o, q⟩) (c : Change) :
    Tracks ⟨writes ++ [c], writes.length :: opened, queued,
      events ++ [(writes.length, .wrote c.path (some c))]⟩ ⟨.reacting c :: o, q⟩ := by
  have hdef : numbersOf StateEvent.isDeferred
      (events ++ [(writes.length, StateEvent.wrote c.path (some c))]) =
        numbersOf StateEvent.isDeferred events := numbersOf_concat_of_not rfl
  have hold : ∀ {i : Nat} {c' : Change}, writes[i]? = some c' → (writes ++ [c])[i]? = some c' := by
    intro i c' hi
    rw [List.getElem?_append_left (List.getElem?_eq_some_iff.1 hi).1, hi]
  constructor
  case opened =>
    refine .cons ⟨List.getElem?_concat_length, fun _ _ hmem => ?_⟩ (h.opened.imp fun i w hw => ?_)
    · rw [hdef] at hmem
      obtain ⟨a, ha⟩ := happens_of_mem hmem
      exact absurd (h.nested.lt_of_happens ha) (Nat.lt_irrefl _)
    · exact ⟨hold hw.change, fun c' hc' => hdef ▸ hw.fresh c' hc'⟩
  case queued =>
    have hq := h.queued
    rw [← hq]
    refine List.map_congr_left fun i hi => ?_
    -- Numbers in the queue are those of writes that were made before.
    have hsome : writes[i]? ∈ queued.map (writes[·]?) := List.mem_map_of_mem hi
    rw [hq] at hsome
    obtain ⟨c', _, hc'⟩ := List.mem_map.1 hsome
    rw [hold hc'.symm, hc']
  case changes =>
    intro x hx
    rcases List.mem_append.1 hx with hx | hx
    · have hlt : x.1 < writes.length := h.nested.lt x hx
      rw [h.changes x hx, List.getElem?_append_left hlt]
    · obtain rfl := List.mem_singleton.1 hx
      exact List.getElem?_concat_length.symm
  case nested =>
    rw [List.length_append]
    exact h.nested.make rfl
  case fifo =>
    rw [hdef, numbersOf_concat_of_not rfl]
    exact h.fifo
  case once => rw [hdef]; exact h.once

/-- The reactions of an open write begin without a hook. -/
theorem Tracks.skip {c : Change} {waiting : List (Watcher σ)}
    (h : Tracks ⟨writes, opened, queued, events⟩ ⟨.reacting c :: o, q⟩) :
    Tracks ⟨writes, opened, queued, events⟩ ⟨.watching c waiting :: o, q⟩ := by
  refine ⟨?_, h.queued, h.changes, h.nested, h.fifo, h.once⟩
  obtain ⟨i, is, rfl, hi, his⟩ := h.opened_cons
  refine .cons ⟨hi.change, fun c' hc' => ?_⟩ his
  cases hc'

/-- The reactions of an open write begin with its hook. -/
theorem Tracks.defer {c : Change} {waiting : List (Watcher σ)}
    (h : Tracks ⟨writes, opened, queued, events⟩ ⟨.reacting c :: o, q⟩) :
    Tracks ⟨writes, opened, queued ++ [opened.headD 0], events ++ [(opened.headD 0, .deferred c)]⟩
      ⟨.watching c waiting :: o, q ++ [c]⟩ := by
  obtain ⟨i, is, rfl, hi, his⟩ := h.opened_cons
  -- The write that goes on is the innermost, with the largest number.
  have hlt : ∀ k ∈ is, k < i := (List.pairwise_cons.1 h.nested.sorted).1
  have hdef : numbersOf StateEvent.isDeferred (events ++ [(i, StateEvent.deferred c)]) =
      numbersOf StateEvent.isDeferred events ++ [i] := numbersOf_concat rfl
  -- While the change was with the subscribers its hook was not deferred.
  have hnew : i ∉ numbersOf StateEvent.isDeferred events := hi.fresh c rfl
  constructor
  case opened =>
    refine .cons ⟨hi.change, fun c' hc' => by cases hc'⟩ ?_
    refine List.forall₂_iff_get.2 ⟨his.length_eq, fun k hk hk' => ?_⟩
    have hw := his.get hk hk'
    refine ⟨hw.change, fun c' hc' hmem => ?_⟩
    have hmem' : is.get ⟨k, hk⟩ ∈ numbersOf StateEvent.isDeferred events ++ [i] := by
      rw [← hdef]
      exact hmem
    rcases List.mem_append.1 hmem' with hold | hnow
    · exact hw.fresh c' hc' hold
    · have hki : is.get ⟨k, hk⟩ < i := hlt _ (List.get_mem is ⟨k, hk⟩)
      exact absurd (List.mem_singleton.1 hnow) (Nat.ne_of_lt hki)
  case queued =>
    rw [List.map_append, List.map_append, h.queued]
    exact congrArg _ (congrArg (· :: []) hi.change)
  case changes => exact changes_concat h.changes hi.change.symm
  case nested => exact h.nested.goOn rfl
  case fifo =>
    have htaken : numbersOf StateEvent.isTaken (events ++ [(i, StateEvent.deferred c)]) =
        numbersOf StateEvent.isTaken events := numbersOf_concat_of_not rfl
    have hf := h.fifo
    simp only at hf
    simp only [List.headD_cons, hdef, htaken, hf, List.append_assoc]
  case once =>
    simp only [List.headD_cons, hdef]
    refine List.nodup_append.2 ⟨h.once, by simp, ?_⟩
    intro k hk k' hk'
    obtain rfl := List.mem_singleton.1 hk'
    rintro rfl
    exact hnew hk

theorem Tracks.watch {c : Change} {watcher : Watcher σ} {waiting : List (Watcher σ)}
    (h : Tracks ⟨writes, opened, queued, events⟩ ⟨.watching c (watcher :: waiting) :: o, q⟩) :
    Tracks ⟨writes, opened, queued, events ++ [(opened.headD 0, .watched c watcher)]⟩
      ⟨.watching c waiting :: o, q⟩ := by
  obtain ⟨i, is, rfl, hi, his⟩ := h.opened_cons
  have hdef : numbersOf StateEvent.isDeferred (events ++ [(i, StateEvent.watched c watcher)]) =
      numbersOf StateEvent.isDeferred events := numbersOf_concat_of_not rfl
  constructor
  case opened =>
    refine .cons ⟨hi.change, fun c' hc' => by cases hc'⟩ (his.imp fun k w hw => ?_)
    exact hw.concat rfl
  case queued => exact h.queued
  case changes => exact changes_concat h.changes hi.change.symm
  case nested => exact h.nested.goOn rfl
  case fifo =>
    simp only [List.headD_cons, hdef]
    rw [numbersOf_concat_of_not rfl]
    exact h.fifo
  case once => simp only [List.headD_cons, hdef]; exact h.once

theorem Tracks.settle {c : Change}
    (h : Tracks ⟨writes, opened, queued, events⟩ ⟨.watching c [] :: o, q⟩) :
    Tracks ⟨writes, opened.tail, queued, events ++ [(opened.headD 0, .settled c)]⟩ ⟨o, q⟩ := by
  obtain ⟨i, is, rfl, hi, his⟩ := h.opened_cons
  have hdef : numbersOf StateEvent.isDeferred (events ++ [(i, StateEvent.settled c)]) =
      numbersOf StateEvent.isDeferred events := numbersOf_concat_of_not rfl
  constructor
  case opened => exact his.imp fun k w hw => hw.concat rfl
  case queued => exact h.queued
  case changes => exact changes_concat h.changes hi.change.symm
  case nested =>
    exact h.nested.other (h.nested.opened_lt i List.mem_cons_self)
      (List.sublist_cons_self i is) rfl rfl
  case fifo =>
    simp only [List.headD_cons, hdef]
    rw [numbersOf_concat_of_not rfl]
    exact h.fifo
  case once => simp only [List.headD_cons, hdef]; exact h.once

/-- A hook leaves the queue, to be run or to be dropped. -/
theorem Tracks.take {c : Change} (h : Tracks ⟨writes, opened, queued, events⟩ ⟨o, c :: q⟩)
    {e : StateEvent σ} (he : e.isTaken = true) (hc : e.change? = some c) :
    Tracks ⟨writes, opened, queued.tail, events ++ [(queued.headD 0, e)]⟩ ⟨o, q⟩ := by
  have hq := h.queued
  -- The hook that leaves is the one that waited longest.
  obtain ⟨i, is, rfl, hi, his⟩ : ∃ i is, queued = i :: is ∧ writes[i]? = some c ∧
      is.map (writes[·]?) = q.map some := by
    cases queued with
    | nil => simp at hq
    | cons i is =>
      simp only [List.map_cons, List.cons.injEq] at hq
      exact ⟨i, is, rfl, hq.1, hq.2⟩
  obtain ⟨hd, hm, hr⟩ := kinds_of_isTaken he
  have hdef : numbersOf StateEvent.isDeferred (events ++ [(i, e)]) =
      numbersOf StateEvent.isDeferred events := numbersOf_concat_of_not hd
  constructor
  case opened => exact h.opened.imp fun k w hw => hw.concat hd
  case queued => exact his
  case changes => exact changes_concat h.changes (hc.trans hi.symm)
  case nested =>
    exact h.nested.other (List.getElem?_eq_some_iff.1 hi).1 (List.Sublist.refl _) hm hr
  case fifo =>
    have hf := h.fifo
    simp only at hf
    simp only [List.headD_cons, List.tail_cons, hdef, numbersOf_concat he, hf, List.append_assoc,
      List.singleton_append]
  case once => simp only [List.headD_cons, hdef]; exact h.once

/-- The numbering goes with every move. -/
theorem Tracks.notify {s : Numbering σ} {v v' : Writes σ} {e : List (StateEvent σ)} (h : Tracks s v)
    (hv : Notify b v e v') : Tracks (e.foldl after s) v' := by
  cases hv with
  | rest => exact h
  | silent path => exact h
  | write c => exact h.write c
  | react c =>
    cases hh : b.hook?.isSome with
    | false => simpa [hh] using h.skip
    | true => simpa [hh, after] using h.defer
  | watch c watcher waiting => exact h.watch
  | settle c => exact h.settle
  | hook c => exact h.take rfl rfl
  | drop c => exact h.take rfl rfl

end Moves

end Numbering

/-! ## The order in every run -/

namespace Numbering

/-- A numbering leaves out the silent writes and nothing else. -/
private theorem events_foldl (t : List (StateEvent σ)) (s : Numbering σ) :
    (t.foldl after s).events.map (·.2) = s.events.map (·.2) ++ t.filter (·.change?.isSome) := by
  induction t generalizing s with
  | nil => simp
  | cons e t ih =>
    rw [List.foldl_cons, ih]
    cases e with
    | wrote path change? => cases change? <;> simp [after, StateEvent.change?]
    | deferred _ | watched _ _ | settled _ | hooked _ | dropped _ =>
      simp [after, StateEvent.change?]

theorem writes_foldl (t : List (StateEvent σ)) (s : Numbering σ) :
    (t.foldl after s).writes = s.writes ++ effective t := by
  induction t generalizing s with
  | nil => simp [effective]
  | cons e t ih =>
    rw [List.foldl_cons, ih]
    cases e with
    | wrote path change? => cases change? <;> simp [after, effective, StateEvent.effective?]
    | deferred _ | watched _ _ | settled _ | hooked _ | dropped _ =>
      simp [after, effective, StateEvent.effective?]

end Numbering

/-- The events at a state are ordered as follows, where writes have numbers in the order in which
they were made. -/
structure ReactionOrder (t : List (StateEvent σ)) (s : Numbering σ) : Prop where
  /-- All events but silent writes are numbered. -/
  numbered : s.events.map (·.2) = t.filter (·.change?.isSome)
  writes : s.writes = effective t
  /-- An event is about the change of the write that it belongs to. -/
  changes : ∀ x ∈ s.events, x.2.change? = s.writes[x.1]?
  made : ∀ {j b}, Happens s.events StateEvent.isReaction j b →
    ∃ m < b, Happens s.events StateEvent.isMade j m
  /-- Hooks are deferred and watchers are called for an earlier write before they are for a later
  one exactly if that was before the later write was made. -/
  reactions : ∀ {i j a b m}, i < j → Happens s.events StateEvent.isReaction i a →
    Happens s.events StateEvent.isReaction j b → Happens s.events StateEvent.isMade j m →
      (a < b ↔ a < m)
  deferred : ∀ {i a}, Happens s.events StateEvent.isHooked i a →
    ∃ d, Happens s.events StateEvent.isDeferred i d
  /-- The hook of an earlier write runs before that of a later one exactly if it was deferred before
  the later write was made. -/
  hooks : ∀ {i j a b d m}, i < j → Happens s.events StateEvent.isHooked i a →
    Happens s.events StateEvent.isHooked j b → Happens s.events StateEvent.isDeferred i d →
      Happens s.events StateEvent.isMade j m → (a < b ↔ d < m)

theorem Happens.imp {l : List (Nat × StateEvent σ)} {kind kind' : StateEvent σ → Bool} {i a : Nat}
    (h : Happens l kind i a) (hk : ∀ e, kind e = true → kind' e = true) : Happens l kind' i a := by
  obtain ⟨e, he, h⟩ := h
  exact ⟨e, he, hk e h⟩

theorem StateEvent.isTaken_of_isHooked (e : StateEvent σ) (h : e.isHooked = true) :
    e.isTaken = true := by
  cases e with
  | hooked _ => rfl
  | wrote _ _ | deferred _ | watched _ _ | settled _ | dropped _ => cases h

theorem StateEvent.isReaction_of_isDeferred (e : StateEvent σ) (h : e.isDeferred = true) :
    e.isReaction = true := by
  cases e with
  | deferred _ => rfl
  | wrote _ _ | watched _ _ | settled _ | hooked _ | dropped _ => cases h

namespace Numbering

/-- A hook that has run had been deferred. -/
theorem Tracks.deferred_of_hooked {s : Numbering σ} {v : Writes σ} (h : s.Tracks v) {i a : Nat}
    (hi : Happens s.events StateEvent.isHooked i a) :
    ∃ d, Happens s.events StateEvent.isDeferred i d := by
  refine happens_of_mem ?_
  rw [h.fifo]
  exact List.mem_append_left _ (hi.imp StateEvent.isTaken_of_isHooked).mem

/-- Hooks run in the order in which they were deferred. -/
theorem Tracks.hooked_lt_iff {s : Numbering σ} {v : Writes σ} (h : s.Tracks v) {i j a b d d' : Nat}
    (hij : i ≠ j) (hi : Happens s.events StateEvent.isHooked i a)
    (hj : Happens s.events StateEvent.isHooked j b)
    (hd : Happens s.events StateEvent.isDeferred i d)
    (hd' : Happens s.events StateEvent.isDeferred j d') : a < b ↔ d < d' := by
  have hnd : (numbersOf StateEvent.isTaken s.events).Nodup :=
    (List.nodup_append.1 (h.fifo ▸ h.once)).1
  have hi' := hi.imp StateEvent.isTaken_of_isHooked
  have hj' := hj.imp StateEvent.isTaken_of_isHooked
  constructor
  · intro hab
    rw [hd.lt_iff h.once hij hd', h.fifo]
    exact (hi'.pair hj' hab).trans (List.sublist_append_left _ _)
  · intro hdd
    by_contra hab
    -- The other order of the two hooks would be the other order of their deferral.
    have hne : a ≠ b := by
      rintro rfl
      obtain ⟨e, he, _⟩ := hi
      obtain ⟨e', he', _⟩ := hj
      rw [he] at he'
      cases he'
      exact hij rfl
    have hba : b < a := Nat.lt_of_le_of_ne (Nat.le_of_not_lt hab) (Ne.symm hne)
    have hback : [j, i].Sublist (numbersOf StateEvent.isDeferred s.events) := by
      rw [h.fifo]
      exact (hj'.pair hi' hba).trans (List.sublist_append_left _ _)
    exact not_pair_both_ways h.once (hd.pair hd' hdd) hback

end Numbering

namespace Machine

theorem tracks_run {w : World σ} {state : StateId} (hq : ∀ c, Task.hook state c ∉ w.queue)
    (script : Script σ) (n : Nat) :
    (Numbering.of (atState state (trace n ⟨w, [.run script]⟩))).Tracks
      ((run n ⟨w, [.run script]⟩).writes state) := by
  refine trace_induction (P := fun t m => (Numbering.of (atState state t)).Tracks
    (m.writes state)) ?_ ?_ n
  · rw [writes_start hq]
    exact Numbering.tracks_start
  · intro k h
    rw [atState, List.filterMap_append, Numbering.of_append]
    exact h.notify (notify_step _ state).move

/-- Reactions to an earlier write come before those to a later one exactly if they came before the
later write was made: writes made from within a delivery or a watcher overtake the write that they
are made in. -/
theorem reactions_in_order (w : World σ) (state : StateId) (hq : ∀ c, Task.hook state c ∉ w.queue)
    (script : Script σ) (n : Nat) :
    let t := atState state (trace n ⟨w, [.run script]⟩)
    ReactionOrder t (Numbering.of t) := by
  intro t
  have h := tracks_run hq script n
  constructor
  case numbered => exact Numbering.events_foldl t {}
  case writes => exact Numbering.writes_foldl t {}
  case changes => exact h.changes
  case made => exact h.nested.made_before
  case reactions => exact h.nested.order
  case deferred => exact h.deferred_of_hooked
  case hooks =>
    intro i j a b d m hij hi hj hd hm
    obtain ⟨d', hd'⟩ := h.deferred_of_hooked hj
    calc a < b ↔ d < d' := h.hooked_lt_iff (Nat.ne_of_lt hij) hi hj hd hd'
      _ ↔ d < m := h.nested.order hij (hd.imp StateEvent.isReaction_of_isDeferred)
        (hd'.imp StateEvent.isReaction_of_isDeferred) hm

/-- A state with a watcher and a hook that do nothing, and a subscriber that replaces `1` by `2`. -/
def replacing : State Unit where
  data := .object [("a", .integer 0)]
  changes :=
    { subscribers :=
        [⟨0, fun
          | some (.change ⟨_, _, .integer 1⟩) => .set 0 ⟨["a"]⟩ (.integer 2) fun _ => .done
          | _ => .done⟩]
      nextId := 1 }
  behavior :=
    { watchers := [(⟨["a"]⟩, fun _ _ _ => .done)]
      hook? := some fun _ _ => .done }

/-- Writes `1` to a state and runs the queue. -/
def writeOne : Script Unit := .set 0 ⟨["a"]⟩ (.integer 1) fun _ => .runPending fun _ => .done

theorem reactions_in_order_replacing :
    let w : World Unit := { memory := (), states := [replacing] }
    let t := atState 0 (trace 40 ⟨w, [.run writeOne]⟩)
    w.queue = [] ∧ ReactionOrder t (Numbering.of t) :=
  ⟨rfl, reactions_in_order { memory := (), states := [replacing] } 0
    (fun _ h => by cases h) writeOne 40⟩

/-- The subscriber writes while the first change is with it. So the watcher and the hook are called
for the second write first. -/
theorem reactions_overtaken :
    let w : World Unit := { memory := (), states := [replacing] }
    let s := Numbering.of (atState 0 (trace 40 ⟨w, [.run writeOne]⟩))
    numbersOf StateEvent.isMade s.events = [0, 1] ∧
      numbersOf StateEvent.isWatched s.events = [1, 0] ∧
      numbersOf StateEvent.isHooked s.events = [1, 0] :=
  ⟨by decide +kernel, by decide +kernel, by decide +kernel⟩

end Machine

end ReactiveMarkup
