-- SUMMARY: The write of a state and the plain write agree, up to the signs of zeros.
import ReactiveMarkup.Proofs.JsonText
import ReactiveMarkup.Proofs.Resolution

/-!
# Writes of a state and plain writes

A state compares the value to be written with the value that is there before it writes, and a plain
write does not. `Path.write_agrees` compares the two by the texts of the trees. They lead to the
same text, unless the values differ in the signs of zeros alone: these are equal, and no value is
written. A write is effective when it changes the text, but for null that is written to a missing
field. Finding the place of the write adds the field, and the null there is not replaced.
-/

namespace ReactiveMarkup

/-! ## Equality up to the signs of zeros -/

namespace Binary64

/-- The number, with positive zero for both zeros. -/
def unsigned (x : Binary64) : Binary64 := if x.isZero then zero else x

theorem same_iff_unsigned {x y : Binary64} : x.same y = true ↔ x.unsigned = y.unsigned := by
  have hbits : x.bits = y.bits ↔ x = y :=
    ⟨fun h => by cases x; cases y; cases h; rfl, congrArg bits⟩
  have hzero : zero.isZero = true := by decide
  have hne {u w : Binary64} (hu : u.isZero = true) (hw : w.isZero = false) : u ≠ w := by
    rintro rfl
    rw [hu] at hw
    cases hw
  cases hx : x.isZero <;> cases hy : y.isZero
  · simp [same, unsigned, hx, hy, hbits]
  · simp [same, unsigned, hx, hy, hbits, (hne hy hx).symm, (hne hzero hx).symm]
  · simp [same, unsigned, hx, hy, hbits, hne hx hy, hne hzero hy]
  · simp [same, unsigned, hx, hy]

end Binary64

namespace Value

mutual

/-- The value, with positive zero for both zeros at every depth. -/
def unsigned : Value → Value
  | float x => float x.unsigned
  | array xs => array (unsignedItems xs)
  | object fs => object (unsignedFields fs)
  | v => v

def unsignedItems : List Value → List Value
  | [] => []
  | x :: xs => unsigned x :: unsignedItems xs

def unsignedFields : List (String × Value) → List (String × Value)
  | [] => []
  | (name, x) :: fs => (name, unsigned x) :: unsignedFields fs

end

mutual

/-- Values are equal exactly when they are identical up to the signs of zeros. -/
theorem same_iff_unsigned (v w : Value) : same v w = true ↔ v.unsigned = w.unsigned := by
  cases v with
  | array xs =>
    cases w with
    | array ys => simpa [same, unsigned] using sameItems_iff_unsigned xs ys
    | null | bool _ | integer _ | float _ | string _ | object _ => simp [same, unsigned]
  | object fs =>
    cases w with
    | object gs => simpa [same, unsigned] using sameFields_iff_unsigned fs gs
    | null | bool _ | integer _ | float _ | string _ | array _ => simp [same, unsigned]
  | float x =>
    cases w with
    | float y => simpa [same, unsigned] using Binary64.same_iff_unsigned
    | null | bool _ | integer _ | string _ | array _ | object _ => simp [same, unsigned]
  | null | bool _ | integer _ | string _ => cases w <;> simp [same, unsigned]

theorem sameItems_iff_unsigned (xs ys : List Value) :
    sameItems xs ys = true ↔ unsignedItems xs = unsignedItems ys := by
  match xs, ys with
  | [], [] => simp [sameItems]
  | [], _ :: _ | _ :: _, [] => simp [sameItems, unsignedItems]
  | x :: xs, y :: ys =>
    simp [sameItems, unsignedItems, same_iff_unsigned x y, sameItems_iff_unsigned xs ys]

theorem sameFields_iff_unsigned (fs gs : List (String × Value)) :
    sameFields fs gs = true ↔ unsignedFields fs = unsignedFields gs := by
  match fs, gs with
  | [], [] => simp [sameFields]
  | [], _ :: _ | _ :: _, [] => simp [sameFields, unsignedFields]
  | (a, x) :: fs, (b, y) :: gs =>
    simp [sameFields, unsignedFields, same_iff_unsigned x y,
      sameFields_iff_unsigned fs gs, and_assoc]

end

/-- Null is equal to itself alone. -/
theorem eq_null_of_same {v : Value} (h : same null v = true) : v = null := by
  cases v with
  | null => rfl
  | bool _ | integer _ | float _ | string _ | array _ | object _ => cases h

end Value

/-! ## What a place holds -/

namespace Path

variable {p : Path} {root v previous copy : Value} {slot : Slot}

/-- A place for a write holds what reads along the segments, or the null of a field that is
missing. -/
inductive Found (read : Except PathError Value) (missing : Path) (root : Value) (slot : Slot) : Prop
  | present (read : read = .ok slot.content) (keeps : slot.fill slot.content = root)
  | added (read : read = .error (.missing missing)) (null : slot.content = .null)

/-- The place of a write holds what the path reads, or the null of a field that is missing. -/
theorem found_slot (h : p.slot root = .ok slot) : Found (p.get root) p root slot := by
  have hresolves := resolves p root
  rw [h] at hresolves
  generalize p.get root = read at hresolves ⊢
  cases hresolves with
  | present proper around child =>
    refine .present rfl ?_
    simp only [Value.putChild_child? child, Value.putAlong_along around]
  | added => exact .added rfl rfl

theorem along_fill (h : p.slot root = .ok slot) (x : Value) :
    (slot.fill x).along p.segments = some x := by
  have hinside := (isSlot_slot h).2.inside x []
  rwa [List.append_nil] at hinside

/-- A place filled with a value that it does not hold makes another tree. -/
private theorem fill_ne (h : p.slot root = .ok slot) (hne : slot.content ≠ v) :
    slot.fill v ≠ root := by
  intro heq
  have hfilled : root.along p.segments = some v := heq ▸ along_fill h v
  have hcontent := (isSlot_slot h).2.content
  rw [hfilled] at hcontent
  exact hne hcontent

/-! ## The two writes -/

theorem slot_of_set (h : p.set root v = .ok (previous, copy)) :
    ∃ slot, p.slot root = .ok slot ∧ previous = slot.content ∧ copy = slot.fill v := by
  cases hs : p.slot root with
  | error e => simp [set, hs, bind, Except.bind] at h
  | ok slot =>
    simp only [set, hs, bind, Except.bind, pure, Except.pure, Except.ok.injEq, Prod.mk.injEq] at h
    exact ⟨slot, rfl, h.1.symm, h.2.symm⟩

/-- How the write of a state compares to the plain write, by the tree before, the tree after and the
copy that the plain write makes. -/
structure Agrees (p : Path) (v before previous after copy : Value) (isEffective : Bool) : Prop where
  /-- The texts are the same, unless the values differ, but in the signs of zeros alone. -/
  text : ¬ (previous.unsigned = v.unsigned ∧ previous ≠ v) → after.json = copy.json
  /-- Where they do nothing is written: the tree stays as it is, and the write is not effective. -/
  zeros : previous.unsigned = v.unsigned → previous ≠ v → after = before ∧ isEffective = false
  /-- The write is effective if the text changes, unless null is written to a missing field. -/
  effective : isEffective = true ↔
    after.json ≠ before.json ∧ ¬ (v = .null ∧ p.get before = .error (.missing p))

/-- The write of a state agrees with the plain write. -/
theorem write_agrees (h : p.set root v = .ok (previous, copy)) :
    ∃ after isEffective, p.write root v =
      .ok (after, if isEffective then some ⟨p, previous, v⟩ else none) ∧
      Agrees p v root previous after copy isEffective := by
  obtain ⟨slot, hs, rfl, rfl⟩ := slot_of_set h
  cases hv : slot.content == v with
  | true =>
    refine ⟨slot.fill slot.content, false,
      by simp [write, hs, hv, bind, Except.bind, pure, Except.pure], ?_, ?_, ?_⟩
    · intro hzeros
      have heq : slot.content = v :=
        Classical.byContradiction fun hne => hzeros ⟨(Value.same_iff_unsigned _ _).1 hv, hne⟩
      rw [heq]
    · intro _ hne
      refine ⟨?_, rfl⟩
      cases found_slot hs with
      | present read keeps => exact keeps
      -- Null is equal to itself alone.
      | added read null => exact absurd (null.trans (Value.eq_null_of_same (null ▸ hv)).symm) hne
    · -- The text changes only where a field is added, and then it is null that is written.
      refine ⟨fun h => absurd h Bool.false_ne_true, fun hchanged => ?_⟩
      cases found_slot hs with
      | present read keeps => exact absurd (congrArg Value.json keeps) hchanged.1
      | added read null => exact absurd ⟨Value.eq_null_of_same (null ▸ hv), read⟩ hchanged.2
  | false =>
    have hne : slot.content ≠ v := by
      rintro rfl
      rw [Value.beq_eq_same, Value.same_self] at hv
      cases hv
    refine ⟨slot.fill v, true, by simp [write, hs, hv, bind, Except.bind, pure, Except.pure],
      fun _ => rfl, fun hunsigned _ => ?_, ?_⟩
    · rw [Value.beq_eq_same, (Value.same_iff_unsigned _ _).2 hunsigned] at hv
      cases hv
    refine ⟨fun _ => ⟨fun htext => fill_ne hs hne (Value.json_injective htext), ?_⟩, fun _ => rfl⟩
    rintro ⟨rfl, hmissing⟩
    cases found_slot hs with
    | present read _ => exact absurd (read.symm.trans hmissing) (by simp)
    | added _ null => exact hne null

end Path

end ReactiveMarkup
