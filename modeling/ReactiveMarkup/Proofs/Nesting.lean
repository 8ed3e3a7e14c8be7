-- SUMMARY: A path below a nested value acts as its rest acts in that value.
import ReactiveMarkup.Proofs.PlainWrites

/-!
# Paths below a nested value

A path that goes on from a base acts in a tree as the rest of it acts in the value at the base. It
reads what the rest reads, and a write replaces the value at the base by what the rest makes of it.
Errors are those of the rest, with the base in front of their paths. Where nothing nested is at the
base, every path that goes on from there fails.
-/

namespace ReactiveMarkup

/-- The error of a path as it is told of the path that goes there from a base. -/
def PathError.under (base : Path) : PathError → PathError
  | emptySegment p => emptySegment (base ++ p)
  | notAnObject parent segment => notAnObject (base ++ parent) segment
  | missing p => missing (base ++ p)

/-! ## Equal values in one place -/

namespace Value

variable {v w x y : Value}

end Value

namespace Path

variable {base p q : Path} {s : List String} {root tree u v x old : Value} {slot : Slot}
  {e : PathError}

theorem append_push (base route : Path) (segment : String) :
    (base ++ route).push segment = base ++ route.push segment :=
  Path.ext (List.append_assoc base.segments route.segments [segment])

private theorem getAlong_under (base route : Path) (s : List String) (v : Value) :
    getAlong (base ++ route) s v = (getAlong route s v).mapError (·.under base) := by
  induction s generalizing route v with
  | nil => rfl
  | cons segment rest ih =>
    cases hn : v.isNested with
    | false => simp [getAlong, hn, Except.mapError, PathError.under]
    | true =>
      cases hw : v.child? segment with
      | none => simp [getAlong, hn, hw, append_push, Except.mapError, PathError.under]
      | some w => simp [getAlong, hn, hw, append_push, ih]

private theorem lastSlot_under (base route : Path) (segment : String) (v : Value) :
    lastSlot (base ++ route) segment v = (lastSlot route segment v).mapError (·.under base) := by
  cases v with
  | array items =>
    cases hw : (Value.array items).child? segment <;>
      simp [lastSlot, hw, append_push, Except.mapError, PathError.under]
  | object _ | null | bool _ | integer _ | float _ | string _ => rfl

private theorem slotAlong_under (base route : Path) (s : List String) (v : Value) :
    slotAlong (base ++ route) s v = (slotAlong route s v).mapError (·.under base) := by
  induction s generalizing route v with
  | nil => rfl
  | cons segment rest ih =>
    cases rest with
    | nil => exact lastSlot_under base route segment v
    | cons next rest =>
      cases hn : v.isNested with
      | false => simp [slotAlong, hn, Except.mapError, PathError.under]
      | true =>
        cases hw : v.child? segment with
        | none => simp [slotAlong, hn, hw, append_push, Except.mapError, PathError.under]
        | some w =>
          simp only [slotAlong, hn, if_true, hw, append_push, ih]
          cases slotAlong (route.push segment) (next :: rest) w <;> rfl

/-! ## Going on from a base -/

theorem isProper_append (hbase : base.isProper = true) (hq : q.segments ≠ []) :
    (base ++ q).isProper = q.isProper := by
  have hclean : "" ∉ base.segments := by simpa [isProper] using (Bool.and_eq_true_iff.1 hbase).2
  simp [isProper, List.isEmpty_eq_false_iff.2 hq, hq, hclean]

/-- A path reads below a base what it reads in the value there. -/
theorem get_append (h : base.get root = .ok u) (hq : q.segments ≠ []) :
    (base ++ q).get root = (q.get u).mapError (·.under base) := by
  have hbase := isProper_of_get h
  rw [get, if_pos hbase] at h
  cases hp : q.isProper with
  | false => simp [get, isProper_append hbase hq, hp, Except.mapError, PathError.under]
  | true =>
    have hunder := getAlong_under base blank q.segments u
    rw [append_blank] at hunder
    simp only [get, isProper_append hbase hq, hp, if_true, segments_append, getAlong_append h]
    exact hunder

/-- The place of a path below a base is its place in the value there. -/
theorem slot_append (h : base.get root = .ok u) (hq : q.segments ≠ []) :
    (base ++ q).slot root =
      ((q.slot u).mapError (·.under base)).map (·.within root base.segments) := by
  have hbase := isProper_of_get h
  rw [get, if_pos hbase] at h
  cases hp : q.isProper with
  | false => simp [slot, isProper_append hbase hq, hp, Except.mapError, Except.map, PathError.under]
  | true =>
    have hunder := slotAlong_under base blank q.segments u
    rw [append_blank] at hunder
    simp only [slot, isProper_append hbase hq, hp, if_true, segments_append, slotAlong_append h hq]
    exact congrArg (Except.map _) hunder

/-- Nothing is below a value that is not nested. -/
private theorem refused_of_not_nested (hu : u.isNested = false) (hq : q.segments ≠ []) :
    ∃ e, q.get u = .error e ∧ q.slot u = .error e := by
  cases hp : q.isProper with
  | false => exact ⟨.emptySegment q, by simp [get, hp], by simp [slot, hp]⟩
  | true =>
    obtain ⟨segment, rest, hs⟩ := List.exists_cons_of_ne_nil hq
    refine ⟨.notAnObject blank segment, by simp [get, hp, hs, getAlong, hu], ?_⟩
    simp only [slot, hp, if_true, hs]
    cases rest with
    | nil => cases u <;> first | rfl | cases hu
    | cons next rest => simp [slotAlong, hu]

/-- Below a base at which there is nothing nested, every path fails. -/
theorem append_refused (hbase : base.isProper = true) (hq : q.segments ≠ [])
    (h : ∀ u, base.get root = .ok u → u.isNested = false) :
    ∃ e, (base ++ q).get root = .error e ∧ (base ++ q).slot root = .error e := by
  cases hread : base.get root with
  | ok u =>
    obtain ⟨e, hget, hslot⟩ := refused_of_not_nested (h u hread) hq
    refine ⟨e.under base, ?_, ?_⟩
    · rw [get_append hread hq, hget]
      rfl
    · rw [slot_append hread hq, hslot]
      rfl
  | error e =>
    cases hp : q.isProper with
    | false =>
      exact ⟨.emptySegment (base ++ q), by simp [get, isProper_append hbase hq, hp],
        by simp [slot, isProper_append hbase hq, hp]⟩
    | true =>
      rw [get, if_pos hbase] at hread
      obtain ⟨hget, hslot⟩ := append_error hread hq
      refine ⟨e, ?_, ?_⟩
      · simpa [get, isProper_append hbase hq, hp] using hget
      · simpa [slot, isProper_append hbase hq, hp] using hslot

/-! ## Writes below a base -/

theorem set_eq_error_iff : p.set root x = .error e ↔ p.slot root = .error e := by
  cases hs : p.slot root <;> simp [set, hs, bind, Except.bind, pure, Except.pure]

end Path

end ReactiveMarkup
