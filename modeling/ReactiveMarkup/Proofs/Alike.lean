-- SUMMARY: Trees that differ in null fields alone, and writes to such trees.
import Mathlib.Data.List.Basic
import ReactiveMarkup.Proofs.Paths

/-!
# Trees that differ in null fields

A field that holds null reads like a field that is missing, for a write as well as for a path that
ends at it. `Value.Alike` relates trees that are equal but for such fields, at every depth. Writes
respect it: `Path.alike_slot` finds the place of a write in one tree where it is in the other, and
`Path.alike_fill_slot` says that a write without a change leads to a tree alike.
-/

namespace ReactiveMarkup

namespace Value

/-- The values are equal but for fields that hold null, which count as missing, at every depth. -/
inductive Alike : Value → Value → Prop
  | refl (v : Value) : Alike v v
  | array {xs ys : List Value} (length : xs.length = ys.length)
      (items : ∀ i, Alike (xs.getD i .null) (ys.getD i .null)) : Alike (.array xs) (.array ys)
  | object {fs gs : List (String × Value)}
      (fields : ∀ name,
        Alike ((Fields.get? fs name).getD .null) ((Fields.get? gs name).getD .null)) :
      Alike (.object fs) (.object gs)

namespace Alike

variable {v v' w w' : Value} {segment : String}

/-! ## An equivalence -/

theorem symm (h : Alike v w) : Alike w v := by
  induction h with
  | refl v => exact .refl v
  | array length _ ih => exact .array length.symm ih
  | object _ ih => exact .object ih

theorem array_iff {xs : List Value} : Alike (.array xs) v ↔
    ∃ ys, v = .array ys ∧ xs.length = ys.length ∧
    ∀ i, Alike (xs.getD i .null) (ys.getD i .null) := by
  constructor
  · intro h
    cases h with
    | refl => exact ⟨xs, rfl, rfl, fun _ => .refl _⟩
    | array length items => exact ⟨_, rfl, length, items⟩
  · rintro ⟨ys, rfl, length, items⟩
    exact .array length items

theorem object_iff {fs : List (String × Value)} : Alike (.object fs) v ↔
    ∃ gs, v = .object gs ∧
      ∀ name, Alike ((Fields.get? fs name).getD .null) ((Fields.get? gs name).getD .null) := by
  constructor
  · intro h
    cases h with
    | refl => exact ⟨fs, rfl, fun _ => .refl _⟩
    | object fields => exact ⟨_, rfl, fields⟩
  · rintro ⟨gs, rfl, fields⟩
    exact .object fields

theorem trans {u : Value} (h : Alike u v) (h' : Alike v w) : Alike u w := by
  induction h generalizing w with
  | refl => exact h'
  | array length _ ih =>
    obtain ⟨zs, rfl, length', items'⟩ := array_iff.1 h'
    exact .array (length.trans length') fun i => ih i (items' i)
  | object _ ih =>
    obtain ⟨zs, rfl, fields'⟩ := object_iff.1 h'
    exact .object fun name => ih name (fields' name)

/-- A value without children is like itself alone. -/
theorem eq_of_not_nested (h : Alike v w) (hv : v.isNested = false) : v = w := by
  cases h with
  | refl => rfl
  | array | object => cases hv

private theorem isNested_eq (h : Alike v w) : v.isNested = w.isNested := by
  cases h <;> rfl

/-! ## Children -/

theorem child (h : Alike v w) (segment : String) :
    Alike ((v.child? segment).getD .null) ((w.child? segment).getD .null) := by
  cases h with
  | refl => exact .refl _
  | object fields => exact fields segment
  | array _ items =>
    cases hi : index? segment with
    | none => simpa [child?, hi] using Alike.refl .null
    | some i => simpa [child?, hi, List.getD_eq_getElem?_getD] using items i

/-- A child that is not null has a counterpart. -/
private theorem child_of_ne_null {x : Value} (h : Alike v w) (hx : v.child? segment = some x)
    (hne : x ≠ .null) : ∃ y, w.child? segment = some y ∧ Alike x y := by
  have hchild := h.child segment
  rw [hx] at hchild
  cases hy : w.child? segment with
  | some y => exact ⟨y, rfl, by simpa [hy] using hchild⟩
  | none =>
    rw [hy] at hchild
    exact absurd (hchild.symm.eq_of_not_nested rfl).symm hne

/-- An item has a counterpart, be it null or not. -/
private theorem child_of_array {xs : List Value} {x : Value} (h : Alike (.array xs) w)
    (hx : (Value.array xs).child? segment = some x) : ∃ y, w.child? segment = some y ∧
    Alike x y := by
  obtain ⟨ys, rfl, length, items⟩ := array_iff.1 h
  obtain ⟨i, hi, hxi⟩ := Option.bind_eq_some_iff.1 hx
  obtain ⟨hlt, rfl⟩ := List.getElem?_eq_some_iff.1 hxi
  refine ⟨ys[i], by simp [child?, hi, length ▸ hlt], ?_⟩
  simpa [hlt, length ▸ hlt] using items i

/-- Putting values alike at the same segment of values alike gives values alike. -/
theorem putChild (h : Alike v w) {x y : Value} (hxy : Alike x y) (segment : String) :
    Alike (v.putChild segment x) (w.putChild segment y) := by
  cases v with
  | object fs =>
    obtain ⟨gs, rfl, fields⟩ := object_iff.1 h
    refine .object fun name => ?_
    by_cases hn : name = segment
    · simpa [hn] using hxy
    · simpa [Fields.get?_insert_of_ne _ _ hn] using fields name
  | array xs =>
    obtain ⟨ys, rfl, length, items⟩ := array_iff.1 h
    cases hi : index? segment with
    | none => simpa [Value.putChild, hi] using h
    | some i =>
      simp only [Value.putChild, hi]
      refine .array (by simpa using length) fun j => ?_
      by_cases hj : i = j
      · by_cases hlt : j < ys.length
        · simpa [hj, hlt, length ▸ hlt] using hxy
        · simpa [hj, hlt, length] using Alike.refl .null
      · simpa [List.getD_eq_getElem?_getD, List.getElem?_set_ne hj] using items j
  | null | bool | integer | float | string =>
    obtain rfl := h.eq_of_not_nested rfl
    exact .refl _

/-- Putting a value like the child that is there, or null where there is none, changes nothing that
counts. -/
theorem putChild_self {x : Value} (h : Alike ((v.child? segment).getD .null) x) :
    Alike v (v.putChild segment x) := by
  cases v with
  | object fs =>
    refine .object fun name => ?_
    by_cases hn : name = segment
    · simpa [hn, child?] using h
    · simpa [Fields.get?_insert_of_ne _ _ hn] using Alike.refl _
  | array xs =>
    cases hi : index? segment with
    | none => simpa [Value.putChild, hi] using Alike.refl _
    | some i =>
      simp only [Value.putChild, hi]
      refine .array (by simp) fun j => ?_
      by_cases hj : i = j
      · by_cases hlt : j < xs.length
        · simpa [child?, hi, hj, hlt] using h
        · simpa [hj, hlt] using Alike.refl .null
      · simpa [List.getD_eq_getElem?_getD, List.getElem?_set_ne hj] using Alike.refl _
  | null | bool | integer | float | string => exact .refl _

end Alike

end Value

/-! ## Places -/

/-- The places hold values alike, and are in trees that stay alike when values alike are filled
in. -/
structure Slot.Alike (s t : Slot) : Prop where
  content : s.content.Alike t.content
  fill : ∀ {x y : Value}, x.Alike y → (s.fill x).Alike (t.fill y)

namespace Path

variable {route : Path} {segment : String} {segments : List String} {v w : Value} {s : Slot}

/-- A way of several segments leads to a place below the child that the first one names. -/
theorem slotAlong_cons_iff {next : String} {rest : List String} :
    slotAlong route (segment :: next :: rest) v = .ok s ↔
      v.isNested = true ∧ ∃ x inner, v.child? segment = some x ∧
        slotAlong (route.push segment) (next :: rest) x = .ok inner ∧
          s = ⟨inner.content, fun y => v.putChild segment (inner.fill y)⟩ := by
  rw [slotAlong]
  cases hn : v.isNested with
  | false => simp
  | true =>
    cases hx : v.child? segment with
    | none => simp
    | some x =>
      cases hs : slotAlong (route.push segment) (next :: rest) x with
      | error e => simp [hs, bind, Except.bind]
      | ok inner => simp [hs, bind, Except.bind, pure, Except.pure, eq_comm]

/-- Nothing lies below null. -/
private theorem slotAlong_null : slotAlong route (segment :: segments) .null ≠ .ok s := by
  cases segments <;> simp [slotAlong, lastSlot, Value.isNested]

private theorem alike_lastSlot (h : v.Alike w) (hs : lastSlot route segment v = .ok s) :
    ∃ t, lastSlot route segment w = .ok t ∧ s.Alike t := by
  cases v with
  | object fs =>
    obtain ⟨gs, rfl, fields⟩ := Value.Alike.object_iff.1 h
    cases hs
    exact ⟨_, rfl, fields segment, fun hxy => h.putChild hxy segment⟩
  | array xs =>
    cases hx : Value.child? (.array xs) segment with
    | none => simp [lastSlot, hx] at hs
    | some x =>
      simp only [lastSlot, hx, Except.ok.injEq] at hs
      subst hs
      obtain ⟨y, hy, hxy⟩ := h.child_of_array hx
      obtain ⟨ys, rfl, _⟩ := Value.Alike.array_iff.1 h
      refine ⟨⟨y, fun z => (Value.array ys).putChild segment z⟩,
        by simp only [lastSlot, hy], hxy, ?_⟩
      exact fun hab => h.putChild hab segment
  | null | bool | integer | float | string => cases hs

/-- A place below a value is there below a value alike. -/
private theorem alike_slotAlong (h : v.Alike w) (hs : slotAlong route segments v = .ok s) :
    ∃ t, slotAlong route segments w = .ok t ∧ s.Alike t := by
  induction segments generalizing route v w s with
  | nil =>
    cases hs
    exact ⟨_, rfl, h, id⟩
  | cons segment rest ih =>
    cases rest with
    | nil => exact alike_lastSlot h hs
    | cons next rest =>
      obtain ⟨hn, x, inner, hx, hinner, rfl⟩ := slotAlong_cons_iff.1 hs
      -- The way goes on below the child, so the child is not null.
      have hne : x ≠ .null := by
        rintro rfl
        exact slotAlong_null hinner
      obtain ⟨y, hy, hxy⟩ := h.child_of_ne_null hx hne
      obtain ⟨t, ht, hst⟩ := ih hxy hinner
      refine ⟨_, slotAlong_cons_iff.2 ⟨h.isNested_eq ▸ hn, y, t, hy, ht, rfl⟩, hst.content, ?_⟩
      exact fun hab => h.putChild (hst.fill hab) segment

/-- The place of a write is there in a tree alike. -/
theorem alike_slot {p : Path} (h : v.Alike w) (hs : p.slot v = .ok s) :
    ∃ t, p.slot w = .ok t ∧ s.Alike t := by
  cases hp : p.isProper with
  | false => simp [slot, hp] at hs
  | true =>
    simp only [slot, hp, if_true] at hs ⊢
    exact alike_slotAlong h hs

private theorem alike_fill_lastSlot (hs : lastSlot route segment v = .ok s) : v.Alike
    (s.fill s.content) := by
  cases v with
  | object fs =>
    cases hs
    exact .putChild_self (.refl _)
  | array xs =>
    cases hx : Value.child? (.array xs) segment with
    | none => simp [lastSlot, hx] at hs
    | some x =>
      simp only [lastSlot, hx, Except.ok.injEq] at hs
      subst hs
      exact .putChild_self (by simpa [hx] using Value.Alike.refl x)
  | null | bool | integer | float | string => cases hs

private theorem alike_fill_slotAlong (hs : slotAlong route segments v = .ok s) :
    v.Alike (s.fill s.content) := by
  induction segments generalizing route v s with
  | nil =>
    cases hs
    exact .refl v
  | cons segment rest ih =>
    cases rest with
    | nil => exact alike_fill_lastSlot hs
    | cons next rest =>
      obtain ⟨_, x, inner, hx, hinner, rfl⟩ := slotAlong_cons_iff.1 hs
      exact .putChild_self (by simpa [hx] using ih hinner)

/-- Filling a place with what it holds leads to a tree alike: at most a field is added, as null. -/
theorem alike_fill_slot {p : Path} (hs : p.slot v = .ok s) : v.Alike (s.fill s.content) := by
  cases hp : p.isProper with
  | false => simp [slot, hp] at hs
  | true =>
    simp only [slot, hp, if_true] at hs
    exact alike_fill_slotAlong hs

end Path

end ReactiveMarkup
