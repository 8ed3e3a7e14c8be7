-- SUMMARY: What a write comes to: the tree, a change or none, and what paths read then.
import ReactiveMarkup.Proofs.WriteLaws
import ReactiveMarkup.Proofs.Writes

/-!
# Outcomes of writes

A write to a state comes to a tree and perhaps a change, also where it is refused, and
`Path.outcome` is both. What a path reads afterwards is what the change says, or what it read
before. Something can be written at a path afterwards only if it could be before, unless the change
says something about the path (`Path.slot_outcome_ne`).
-/

namespace ReactiveMarkup

/-- What a write to a state comes to: the tree afterwards, and the change if the write is effective.
A write that is refused leaves the tree as it is. -/
def Path.outcome (q : Path) (root v : Value) : Value × Option Change :=
  match q.write root v with
  | .ok result => result
  | .error _ => (root, none)

/-! ## Places that a write makes -/

/-- Only objects and arrays have children. -/
theorem Value.isNested_of_child? {v w : Value} {segment : String} (h : v.child? segment = some w) :
    v.isNested = true := by
  rw [← Bool.not_eq_false]
  intro hn
  rw [child?_eq_none hn] at h
  cases h

namespace Path

variable {p q r route route' : Path} {a b : String} {s t : List String} {root tree u v w x : Value}
  {slot slot' : Slot} {change? : Option Change}

theorem exists_slotAlong_cons (ht : t ≠ []) : (∃ slot, slotAlong route (b :: t) v = .ok slot) ↔
    ∃ w, v.child? b = some w ∧ ∃ slot, slotAlong (route.push b) t w = .ok slot := by
  cases hw : v.child? b with
  | none =>
    obtain ⟨next, rest, rfl⟩ := List.exists_cons_of_ne_nil ht
    cases hn : v.isNested <;> simp [slotAlong, hn, hw]
  | some w =>
    rw [slotAlong_cons (Value.isNested_of_child? hw) hw ht]
    simp only [Option.some.injEq, exists_eq_left']
    cases slotAlong (route.push b) t w <;> simp [Except.map]

/-- A way through another child leads to a place after a child was put if it did before. -/
theorem exists_slotAlong_of_putChild (ha : plainSegment a = true)
    (hb : plainSegment b = true) (hne : b ≠ a)
    (h : ∃ slot, slotAlong route (b :: t) (v.putChild a x) = .ok slot) :
    ∃ slot, slotAlong route (b :: t) v = .ok slot := by
  have hchild := Value.child?_putChild_of_ne (v := v) (w := x) ha hb hne
  by_cases ht : t = []
  · subst ht
    obtain ⟨slot, h⟩ := h
    cases v with
    | object fields => exact ⟨_, rfl⟩
    | array items =>
      cases hold : (Value.array items).child? b with
      | some w => exact ⟨⟨w, _⟩, by simp only [slotAlong, lastSlot, hold]; rfl⟩
      | none =>
        -- An item that was not there before is not there now.
        rw [hold] at hchild
        cases hi : Value.index? a <;> simp only [Value.putChild, hi] at hchild h <;>
          simp [slotAlong, lastSlot, hchild] at h
    | null | bool _ | integer _ | float _ | string _ => cases h
  · rw [exists_slotAlong_cons ht] at h ⊢
    rwa [hchild] at h

private theorem fill_lastSlot (h : lastSlot route a v = .ok slot) : slot.fill = v.putChild a := by
  cases v with
  | object fields =>
    obtain rfl := Except.ok.inj h
    rfl
  | array items =>
    cases hw : (Value.array items).child? a with
    | none => simp [lastSlot, hw] at h
    | some w =>
      simp only [lastSlot, hw, Except.ok.injEq] at h
      rw [← h]
  | null | bool _ | integer _ | float _ | string _ => cases h

/-- A way that parts from the way of a write leads to a place after it if it did before. -/
private theorem exists_slotAlong_of_fill (h : slotAlong route s v = .ok slot)
    (hs : s.all plainSegment = true)
    (ht : t.all plainSegment = true) (hst : ¬ s <+: t) (hts : ¬ t <+: s)
    (h' : ∃ slot', slotAlong route' t (slot.fill x) = .ok slot') : ∃ slot₀, slotAlong route' t v =
      .ok slot₀ := by
  induction s generalizing route route' v slot t with
  | nil => exact absurd List.nil_prefix hst
  | cons a s ih =>
    cases t with
    | nil => exact absurd List.nil_prefix hts
    | cons b t =>
      simp only [List.all_cons, Bool.and_eq_true] at hs ht
      by_cases hnil : s = []
      · subst hnil
        have hne : b ≠ a := by
          rintro rfl
          exact hst ⟨t, rfl⟩
        rw [fill_lastSlot h] at h'
        exact exists_slotAlong_of_putChild hs.1 ht.1 hne h'
      · obtain ⟨w, hw, inner, hinner⟩ := (exists_slotAlong_cons hnil).1 ⟨slot, h⟩
        rw [slotAlong_cons (Value.isNested_of_child? hw) hw hnil, hinner] at h
        obtain rfl := Except.ok.inj h
        have hfill : (inner.within v [a]).fill x = v.putChild a (inner.fill x) :=
          Value.putAlong_cons hw _
        rw [hfill] at h'
        -- The ways part at this segment or below it.
        by_cases hba : b = a
        · subst hba
          have htnil : t ≠ [] := by
            rintro rfl
            exact hts ⟨s, rfl⟩
          rw [exists_slotAlong_cons htnil] at h' ⊢
          obtain ⟨w', hw', hplace⟩ := h'
          obtain rfl := Option.some.inj ((Value.child?_putChild_self hw).symm.trans hw')
          refine ⟨w, hw, ih hinner hs.2 ht.2 ?_ ?_ hplace⟩
          · exact fun hpre => hst (List.cons_prefix_cons.2 ⟨rfl, hpre⟩)
          · exact fun hpre => hts (List.cons_prefix_cons.2 ⟨rfl, hpre⟩)
        · exact exists_slotAlong_of_putChild hs.1 ht.1 hba h'

/-- There is no place below a null. -/
private theorem not_exists_slotAlong_of_null (h : v.along s = some .null) (ht : t ≠ []) :
    ¬ ∃ slot, slotAlong route (s ++ t) v = .ok slot := by
  induction s generalizing route v with
  | nil =>
    obtain rfl := Option.some.inj h
    obtain ⟨next, rest, rfl⟩ := List.exists_cons_of_ne_nil ht
    cases rest <;> simp [slotAlong, lastSlot, Value.isNested]
  | cons a s ih =>
    obtain ⟨w, hw, hs⟩ := Value.along_cons_iff.1 h
    rw [List.cons_append, exists_slotAlong_cons (by simp [ht])]
    rintro ⟨w', hw', hplace⟩
    obtain rfl := Option.some.inj (hw.symm.trans hw')
    exact ih hs hplace

/-- A write makes no place along a way that it does not lead to: where there is one after the write,
there was one before. -/
private theorem exists_slot_of_write {q r : Path} (h : q.write root v = .ok (tree, change?))
    (hq : q.isPlain = true)
    (hr : r.isPlain = true) (habove : r.isAbove q = false)
    (hquiet : change? = none ∨ q.after? r = none)
    (hplace : ∃ slot, r.slot tree = .ok slot) : ∃ slot, r.slot root = .ok slot := by
  obtain ⟨slot', hslot'⟩ := hplace
  have hproper := (isSlot_slot hslot').1
  simp only [slot, hproper, if_true] at hslot' ⊢
  obtain ⟨found, x, hs, rfl, hx⟩ := write_fills h
  cases hafter : q.after? r with
  | none =>
    have hslotAlong : slotAlong blank q.segments root = .ok found := by
      simpa [slot, (isSlot_slot hs).1] using hs
    exact exists_slotAlong_of_fill hslotAlong hq hr (not_prefix_of_after? hafter)
      (not_prefix_of_isAbove habove hafter) ⟨slot', hslot'⟩
  | some rest =>
    have hseg : r.segments = q.segments ++ rest.segments :=
      congrArg Path.segments (after?_eq_some_iff.1 hafter)
    obtain rfl : x = found.content := by
      rcases hx with ⟨-, hx⟩ | ⟨hchange, -⟩
      · exact hx
      · simp [hchange, hafter] at hquiet
    cases found_slot hs with
    | present _ keeps =>
      rw [keeps] at hslot'
      exact ⟨slot', hslot'⟩
    | added _ null =>
      by_cases hrest : rest.segments = []
      · rw [hseg, hrest, List.append_nil]
        exact ⟨found, by simpa [slot, (isSlot_slot hs).1] using hs⟩
      · -- A field that was missing has become null.
        have hnull := along_fill hs found.content
        rw [null] at hnull
        rw [hseg, null] at hslot'
        exact absurd ⟨slot', hslot'⟩ (not_exists_slotAlong_of_null hnull hrest)

/-! ## Outcomes -/

theorem outcome_refused {e : PathError} (h : p.slot root = .error e) (v : Value) :
    p.outcome root v = (root, none) := by
  simp [outcome, write, h, bind, Except.bind]

/-- A text that is there already is written without a change. -/
theorem write_same {text : String} (h : p.slot root = .ok slot) (hc : slot.content = .string text) :
    p.write root (.string text) = .ok (root, none) ∧ slot.fill (.string text) = root := by
  have hkeeps : slot.fill (.string text) = root := by
    cases found_slot h with
    | present _ keeps => rwa [hc] at keeps
    | added _ null => exact absurd (hc.symm.trans null) nofun
  refine ⟨?_, hkeeps⟩
  simp [write, h, hc, hkeeps, Value.beq_eq_same, Value.same_self, bind, Except.bind,
    pure, Except.pure]

theorem outcome_same {text : String} (h : p.slot root = .ok slot)
    (hc : slot.content = .string text) : p.outcome root (.string text) = (root, none) := by
  rw [outcome, (write_same h hc).1]

/-- A text that is not there yet is written with a change. -/
theorem outcome_new {text : String} (h : p.slot root = .ok slot)
    (hc : slot.content ≠ .string text) :
    p.outcome root (.string text) =
      (slot.fill (.string text), some ⟨p, slot.content, .string text⟩) := by
  have hnew : (slot.content == .string text) = false := by
    rw [Value.beq_eq_same, Bool.eq_false_iff]
    intro hsame
    cases hcontent : slot.content <;> rw [hcontent] at hsame hc <;> simp [Value.same] at hsame
    exact hc (congrArg _ hsame)
  simp [outcome, write, h, hnew, bind, Except.bind, pure, Except.pure]

theorem after?_self (p : Path) : p.after? p = some .blank :=
  after?_eq_some_iff.2 (append_blank p).symm

/-- A place that was filled holds what it was filled with. -/
theorem slot_fill (h : p.slot root = .ok slot) (x : Value) :
    ∃ filled, p.slot (slot.fill x) = .ok filled ∧ filled.content = x := by
  have hread : p.get (slot.fill x) = .ok x := by
    rw [get, if_pos (isSlot_slot h).1, getAlong_eq_ok_iff, along_fill h]
  obtain ⟨u, -, hset⟩ := Place.of_get hread
  obtain ⟨filled, hfilled, hcontent, -⟩ := slot_of_set (hset x)
  exact ⟨filled, hfilled, hcontent.symm⟩

/-- What a path at or below the place of a write reads when the place is filled. -/
theorem valueOrNull_fill {rest : Path} (h : p.slot root = .ok slot) (hr : r.isProper = true)
    (hafter : p.after? r = some rest) (x : Value) :
    r.valueOrNull (slot.fill x) = (x.along rest.segments).getD .null := by
  have hseg : r.segments = p.segments ++ rest.segments :=
    congrArg Path.segments (after?_eq_some_iff.1 hafter)
  rw [valueOrNull_eq hr, hseg, (isSlot_slot h).2.inside]

/-- After a write a path reads what the change says, and else what it read before. -/
theorem valueOrNull_outcome (hproper : r.isProper = true) (hr : r.isPlain = true)
    (hq : q.isPlain = true) (habove : r.isAbove q = false) : r.valueOrNull (q.outcome root v).1 =
      ((q.outcome root v).2.bind (·.valueAt? r)).getD (r.valueOrNull root) := by
  cases h : q.write root v with
  | error e => simp [outcome, h]
  | ok result =>
    simp only [outcome, h]
    exact valueOrNull_write h hproper hr hq habove

/-- Where a text can be written it stands afterwards. -/
theorem fst_outcome_text (h : p.slot root = .ok slot) (text : String) :
    (p.outcome root (.string text)).1 = slot.fill (.string text) := by
  by_cases hc : slot.content = .string text
  · rw [outcome_same h hc, (write_same h hc).2]
  · rw [outcome_new h hc]

/-- What shows a path at or below the place of a text, once it has heard of the change. If the text
was there already it hears nothing. -/
theorem getD_outcome_text {rest : Path} {text : String} (h : p.slot root = .ok slot)
    (hafter : p.after? r = some rest) (hproper : r.isProper = true)
    (hu : slot.content = .string text → u = ((Value.string text).along rest.segments).getD .null) :
    ((p.outcome root (.string text)).2.bind (·.valueAt? r)).getD u =
      ((Value.string text).along rest.segments).getD .null := by
  by_cases hc : slot.content = .string text
  · rw [outcome_same h hc]
    exact hu hc
  · have htold := Change.valueAt?_of_some (c := ⟨p, slot.content, .string text⟩) hafter hproper
    rw [outcome_new h hc, Option.bind_some, htold]
    rfl

/-- What shows a text shows it after the text was written at its path. -/
theorem getD_outcome_self (hproper : p.isProper = true) (root : Value) (text : String) :
    ((p.outcome root (.string text)).2.bind (·.valueAt? p)).getD (.string text) = .string text := by
  cases hslot : p.slot root with
  | error e => rw [outcome_refused hslot]; rfl
  | ok slot => exact getD_outcome_text hslot (after?_self p) hproper fun _ => rfl

/-- A write makes no place along a way of which its change says nothing. -/
theorem slot_outcome_ne (hproper : r.isProper = true) (hr : r.isPlain = true)
    (hq : q.isPlain = true)
    (habove : r.isAbove q = false) (hquiet : (q.outcome root v).2.bind (·.valueAt? r) = none)
    (hno : ∀ slot, r.slot root ≠ .ok slot) : ∀ slot, r.slot (q.outcome root v).1 ≠ .ok slot := by
  intro slot hslot
  cases h : q.write root v with
  | error e =>
    simp only [outcome, h] at hslot
    exact hno slot hslot
  | ok result =>
    obtain ⟨tree, change?⟩ := result
    simp only [outcome, h] at hslot hquiet
    have hsilent : change? = none ∨ q.after? r = none := by
      cases change? with
      | none => exact .inl rfl
      | some c =>
        right
        cases hafter : q.after? r with
        | none => rfl
        | some rest =>
          obtain ⟨found, -, rfl, -⟩ := write_effective h
          have htold := Change.valueAt?_of_some (c := ⟨q, found.content, v⟩) hafter hproper
          exact absurd (htold.symm.trans hquiet) (Option.some_ne_none _)
    obtain ⟨slot₀, hslot₀⟩ := exists_slot_of_write h hq hr habove hsilent ⟨slot, hslot⟩
    exact hno slot₀ hslot₀

end Path

end ReactiveMarkup
