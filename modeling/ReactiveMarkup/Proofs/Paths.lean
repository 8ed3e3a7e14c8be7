-- SUMMARY: What a path reads after a write at another path.
import ReactiveMarkup.Change

/-!
# Reading a path after a write

A write changes what other paths read as well: a path that continues the one written reads from the
new value, and a path that leaves the way to it reads as before. `Path.valueOrNull_write` puts this
in terms of the change that is recorded: the record says what the path reads afterwards, or says
nothing and the path reads as before. It leaves out writes below the place that is read, and needs
numbers to be spelled in one way, as `items.1` and `items.01` name the same item.
-/

namespace ReactiveMarkup

/-! ## Spelling -/

/-- Whether the segment is spelled as numbers are written, if it spells a number. -/
def plainSegment (segment : String) : Bool :=
  match Value.index? segment with
  | some i => segment == toString i
  | none => true

/-- Whether no segment is a number that is spelled in an unusual way. -/
def Path.isPlain (p : Path) : Bool := p.segments.all plainSegment

/-- Plain segments that spell the same number are the same. -/
private theorem plainSegment_inj {s t : String} {i : Nat} (hs : plainSegment s = true)
    (ht : plainSegment t = true) (hi : Value.index? s = some i) (hj : Value.index? t = some i) :
    s = t := by
  simp only [plainSegment, hi, beq_iff_eq] at hs
  simp only [plainSegment, hj, beq_iff_eq] at ht
  rw [hs, ht]

namespace Value

/-! ## Reading along segments -/

/-- The value along segments, if they lead to one. -/
def along : List String → Value → Option Value
  | [], v => some v
  | segment :: rest, v => (v.child? segment).bind (along rest)

theorem along_append (s t : List String) (v : Value) :
    along (s ++ t) v = (along s v).bind (along t) := by
  induction s generalizing v with
  | nil => rfl
  | cons segment rest ih =>
    cases hc : v.child? segment with
    | none => simp [along, hc]
    | some w => simp [along, hc, ih]

theorem child?_eq_none {v : Value} (h : v.isNested = false) (segment : String) :
    v.child? segment = none := by
  cases v with
  | array _ | object _ => cases h
  | null | bool _ | integer _ | float _ | string _ => rfl

/-- Putting a child under a segment that names one leaves the other plain segments alone. -/
theorem child?_putChild_of_ne {v w : Value} {s t : String} (hs : plainSegment s = true)
    (ht : plainSegment t = true) (hne : t ≠ s) : (v.putChild s w).child? t = v.child? t := by
  cases v with
  | object fields => exact Fields.get?_insert_of_ne fields w hne
  | array items =>
    cases hi : index? s with
    | none => simp [putChild, hi]
    | some i =>
      simp only [putChild, hi, child?]
      cases hj : index? t with
      | none => rfl
      | some j =>
        have hij : i ≠ j := by
          rintro rfl
          exact hne (plainSegment_inj ht hs hj hi)
        simp [List.getElem?_set_ne hij]
  | null | bool _ | integer _ | float _ | string _ => rfl

/-- A child reads back as it was put. -/
theorem child?_putChild_self {v w x : Value} {s : String} (h : v.child? s = some x) :
    (v.putChild s w).child? s = some w := by
  cases v with
  | object fields => exact Fields.get?_insert_self fields s w
  | array items =>
    cases hi : index? s with
    | none => simp [child?, hi] at h
    | some i =>
      have hlt : i < items.length := by
        simp only [child?, hi, Option.bind_some] at h
        exact (List.getElem?_eq_some_iff.1 h).1
      simp [putChild, child?, hi, hlt]
  | null | bool _ | integer _ | float _ | string _ => cases h

end Value

namespace Path

theorem getAlong_eq_ok_iff {route : Path} {segments : List String} {v w : Value} :
    getAlong route segments v = .ok w ↔ v.along segments = some w := by
  induction segments generalizing route v with
  | nil => simp [getAlong, Value.along]
  | cons segment rest ih =>
    cases hn : v.isNested with
    | false => simp [getAlong, hn, Value.along, Value.child?_eq_none hn]
    | true =>
      cases hc : v.child? segment with
      | none => simp [getAlong, hn, hc, Value.along]
      | some x => simp [getAlong, hn, hc, Value.along, ih]

/-- What a path reads in a tree, or null when it leads nowhere. -/
def valueOrNull (p : Path) (root : Value) : Value :=
  match p.get root with
  | .ok v => v
  | .error _ => .null

/-- Only a path that can name a place reads something. -/
theorem isProper_of_get {p : Path} {root v : Value} (h : p.get root = .ok v) :
    p.isProper = true := by
  unfold get at h
  split at h
  · next hp => exact hp
  · cases h

/-- A path that can name a place reads what its segments lead to. -/
theorem valueOrNull_eq {p : Path} (hp : p.isProper = true) (root : Value) :
    p.valueOrNull root = (root.along p.segments).getD .null := by
  cases hg : p.get root with
  | ok v =>
    have hal : root.along p.segments = some v := by
      simp only [get, hp, if_true] at hg
      exact getAlong_eq_ok_iff.1 hg
    simp [valueOrNull, hg, hal]
  | error e =>
    have hal : root.along p.segments = none := by
      cases ha : root.along p.segments with
      | none => rfl
      | some v =>
        have hok : p.get root = .ok v := by
          simp only [get, hp, if_true]
          exact getAlong_eq_ok_iff.2 ha
        rw [hok] at hg
        cases hg
    simp [valueOrNull, hg, hal]

/-! ## Places for writes -/

/-- What a place in a tree is: it holds what the segments lead to, a missing field counting as null,
and filling it changes what reads along the segments and nothing beside them. -/
structure IsSlot (segments : List String) (v : Value) (slot : Slot) : Prop where
  content : slot.content = (v.along segments).getD .null
  inside : ∀ x rest, (slot.fill x).along (segments ++ rest) = x.along rest
  beside : ∀ x other, other.all plainSegment = true → segments.all plainSegment = true →
    ¬ segments <+: other → ¬ other <+: segments → (slot.fill x).along other = v.along other

private theorem isSlot_lastSlot {route : Path} {segment : String} {v : Value} {slot : Slot}
    (h : lastSlot route segment v = .ok slot) : IsSlot [segment] v slot := by
  have hbeside : ∀ x other, other.all plainSegment = true → [segment].all plainSegment = true →
      ¬ [segment] <+: other → ¬ other <+: [segment] →
      (v.putChild segment x).along other = v.along other := by
    intro x other ho hs hpre hpre'
    cases other with
    | nil => exact absurd List.nil_prefix hpre'
    | cons t rest =>
      have hne : t ≠ segment := by
        rintro rfl
        exact hpre ⟨rest, rfl⟩
      simp only [List.all_cons, List.all_nil, Bool.and_true, Bool.and_eq_true] at ho hs
      simp only [Value.along, Value.child?_putChild_of_ne hs ho.1 hne]
  cases v with
  | object fields =>
    simp only [lastSlot, Except.ok.injEq] at h
    subst h
    refine ⟨by cases hf : Fields.get? fields segment <;>
      simp [Value.along, Value.child?, hf], ?_, hbeside⟩
    intro x rest
    simp [Value.along, Value.putChild, Value.child?, Fields.get?_insert_self]
  | array items =>
    cases hc : Value.child? (.array items) segment with
    | none => simp [lastSlot, hc] at h
    | some w =>
      simp only [lastSlot, hc, Except.ok.injEq] at h
      subst h
      refine ⟨by simp [Value.along, hc], ?_, hbeside⟩
      intro x rest
      simp [Value.along, Value.child?_putChild_self hc]
  | null | bool _ | integer _ | float _ | string _ => cases h

private theorem isSlot_slotAlong {route : Path} {segments : List String} {v : Value} {slot : Slot}
    (h : slotAlong route segments v = .ok slot) (hne : segments ≠ []) : IsSlot segments v slot := by
  induction segments generalizing route v slot with
  | nil => exact absurd rfl hne
  | cons segment rest ih =>
    cases rest with
    | nil => exact isSlot_lastSlot h
    | cons next rest =>
      cases hn : v.isNested with
      | false => simp [slotAlong, hn] at h
      | true =>
        cases hc : v.child? segment with
        | none => simp [slotAlong, hn, hc] at h
        | some w =>
          cases hs : slotAlong (route.push segment) (next :: rest) w with
          | error e => simp [slotAlong, hn, hc, hs, bind, Except.bind] at h
          | ok inner =>
            simp only [slotAlong, hn, hc, hs, if_true, bind, Except.bind, pure, Except.pure,
              Except.ok.injEq] at h
            subst h
            have hi : IsSlot (next :: rest) w inner := ih hs (by simp)
            constructor
            case content =>
              have hcontent := hi.content
              simpa [Value.along, hc] using hcontent
            case inside =>
              intro x after
              simp only [List.cons_append, Value.along, Value.child?_putChild_self hc,
                Option.bind_some]
              exact hi.inside x after
            case beside =>
              intro x other ho hp hpre hpre'
              cases other with
              | nil => exact absurd List.nil_prefix hpre'
              | cons t other =>
                simp only [List.all_cons, Bool.and_eq_true] at ho hp
                -- The ways part at this segment or below it.
                by_cases ht : t = segment
                · subst ht
                  simp only [Value.along, Value.child?_putChild_self hc, hc, Option.bind_some]
                  refine hi.beside x other ho.2 (by simpa using hp.2) ?_ ?_
                  · exact fun hpr => hpre (List.cons_prefix_cons.2 ⟨rfl, hpr⟩)
                  · exact fun hpr => hpre' (List.cons_prefix_cons.2 ⟨rfl, hpr⟩)
                · simp only [Value.along, Value.child?_putChild_of_ne hp.1 ho.1 ht]

theorem isSlot_slot {p : Path} {root : Value} {slot : Slot} (h : p.slot root = .ok slot) :
    p.isProper = true ∧ IsSlot p.segments root slot := by
  cases hp : p.isProper with
  | false => simp [Path.slot, hp] at h
  | true =>
    simp only [Path.slot, hp, if_true] at h
    refine ⟨rfl, isSlot_slotAlong h ?_⟩
    rintro hnil
    simp [isProper, hnil] at hp

end Path

/-! ## What a change says -/

/-- Whether a path leads on from `p` below the place that `p` names. -/
def Path.isAbove (p q : Path) : Bool :=
  match p.after? q with
  | some rest => !rest.segments.isEmpty
  | none => false

/-- The change of a write says nothing about places that do not lie at or below the path. -/
theorem Change.valueAt?_of_none {c : Change} {p : Path} (h : c.path.after? p = none) :
    c.valueAt? p = none := by
  simp [valueAt?, h]

/-- A change says what a place at or below its path reads in the value written. -/
theorem Change.valueAt?_of_some {c : Change} {p : Path} {rest : Path}
    (h : c.path.after? p = some rest) (hp : p.isProper = true) :
    c.valueAt? p = some ((c.current.along rest.segments).getD .null) := by
  obtain ⟨segments⟩ := rest
  cases segments with
  | nil => simp [valueAt?, h, Value.along]
  | cons s t =>
    -- The rest of a proper path is proper, so it reads what it leads to.
    have hproper : (⟨s :: t⟩ : Path).isProper = true := by
      have hseg : p.segments = c.path.segments ++ s :: t :=
        congrArg Path.segments (Path.after?_eq_some_iff.1 h)
      simp only [Path.isProper, hseg, Bool.and_eq_true, Bool.not_eq_true', List.contains_eq_mem,
        decide_eq_false_iff_not, List.mem_append] at hp ⊢
      exact ⟨rfl, fun hmem => hp.2 (.inr hmem)⟩
    have hval := Path.valueOrNull_eq hproper c.current
    rw [← hval]
    cases hg : Path.get ⟨s :: t⟩ c.current <;> simp [valueAt?, h, Path.valueOrNull, hg]

/-- A write fills the place with the value, or leaves it what it holds, and only the former is a
change. -/
theorem Path.write_fills {q : Path} {root v tree : Value} {change? : Option Change}
    (h : q.write root v = .ok (tree, change?)) : ∃ slot x, q.slot root = .ok slot ∧
    tree = slot.fill x ∧
      ((change? = none ∧ x = slot.content) ∨ change? = some ⟨q, slot.content, v⟩ ∧ x = v) := by
  unfold Path.write at h
  cases hs : q.slot root with
  | error e => simp [hs, bind, Except.bind] at h
  | ok slot =>
    simp only [hs, bind, Except.bind, pure, Except.pure] at h
    split at h
    · simp only [Except.ok.injEq, Prod.mk.injEq] at h
      exact ⟨slot, _, rfl, h.1.symm, .inl ⟨h.2.symm, rfl⟩⟩
    · simp only [Except.ok.injEq, Prod.mk.injEq] at h
      exact ⟨slot, _, rfl, h.1.symm, .inr ⟨h.2.symm, rfl⟩⟩

theorem Path.not_prefix_of_after? {p q : Path} (h : q.after? p = none) :
    ¬ q.segments <+: p.segments := by
  rintro ⟨t, ht⟩
  have hsome : q.after? p = some ⟨t⟩ := after?_eq_some_iff.2 (Path.ext ht.symm)
  rw [hsome] at h
  cases h

/-- Two paths part if neither leads to the other or below it. -/
theorem Path.not_prefix_of_isAbove {p q : Path} (habove : p.isAbove q = false)
    (h : q.after? p = none) : ¬ p.segments <+: q.segments := by
  rintro ⟨t, ht⟩
  have hsome : p.after? q = some ⟨t⟩ := after?_eq_some_iff.2 (Path.ext ht.symm)
  have hnil : t = [] := by simpa [isAbove, hsome] using habove
  subst hnil
  exact not_prefix_of_after? h ⟨[], by simpa using ht.symm⟩

/-- After a write a path reads what the change says, and what it read before where there is no
change or the change says nothing. -/
theorem Path.valueOrNull_write {p q : Path} {root v tree : Value} {change? : Option Change}
    (h : q.write root v = .ok (tree, change?)) (hproper : p.isProper = true)
    (hp : p.isPlain = true) (hq : q.isPlain = true) (habove : p.isAbove q = false) :
    p.valueOrNull tree = ((change?.bind (·.valueAt? p)).getD (p.valueOrNull root)) := by
  obtain ⟨slot, x, hs, htree, hx⟩ := write_fills h
  obtain ⟨_, hslot⟩ := isSlot_slot hs
  rw [valueOrNull_eq hproper, valueOrNull_eq hproper]
  cases hafter : q.after? p with
  | some rest =>
    have hseg : p.segments = q.segments ++ rest.segments :=
      congrArg Path.segments (after?_eq_some_iff.1 hafter)
    have hread : tree.along p.segments = x.along rest.segments := by
      rw [htree, hseg, hslot.inside]
    rw [hread]
    rcases hx with ⟨rfl, rfl⟩ | ⟨rfl, rfl⟩
    · -- A silent write leaves the content, and a field that was missing becomes null.
      rw [hslot.content, hseg, Value.along_append]
      cases ha : root.along q.segments with
      | some w => rfl
      | none =>
        cases hr : rest.segments with
        | nil => rfl
        | cons s t => rfl
    · simp [Change.valueAt?_of_some (c := ⟨q, slot.content, x⟩) hafter hproper]
  | none =>
    -- The path written is not below the one that is read, nor is it the same.
    have hpre := not_prefix_of_after? hafter
    have hpre' := not_prefix_of_isAbove habove hafter
    have hread : tree.along p.segments = root.along p.segments := by
      rw [htree]
      exact hslot.beside x p.segments hp hq hpre hpre'
    rw [hread]
    rcases hx with ⟨rfl, _⟩ | ⟨rfl, _⟩
    · rfl
    · simp [Change.valueAt?_of_none (c := ⟨q, slot.content, v⟩) hafter]

end ReactiveMarkup
