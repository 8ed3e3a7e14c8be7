-- SUMMARY: Plain writes are read back, leave other places alone, and can be undone.
import ReactiveMarkup.Proofs.PlainWrites

/-!
# Laws of plain writes

A write that succeeds is read back, and it returns what was there before. Ways that leave the way of
the write at some container, for another child of it, read as before, errors included. Of two writes
to one place the second counts, and writing back what was there restores the tree. A write that
fails leaves the tree as it was. `Path.set_laws` states all of this for every tree, path and value.
-/

namespace ReactiveMarkup

namespace Value

variable {u v w x y : Value} {a b : String} {s t : List String}

/-! ## The same child and other children -/

/-- Whether two segments name the same child: the same field of an object, or the same item of an
array. -/
def SameChild : Value → String → String → Prop
  | object _, a, b => a = b
  | array _, a, b => index? a = index? b
  | _, _, _ => True

/-- Whether the second way leaves the first at some container, for another child of it. -/
inductive Leaves : Value → List String → List String → Prop
  | here {v : Value} {a b : String} {s t : List String} (other : ¬ v.SameChild a b) :
      Leaves v (a :: s) (b :: t)
  | later {v w : Value} {a b : String} {s t : List String} (same : v.SameChild a b)
      (child : v.child? a = some w) (leaves : Leaves w s t) : Leaves v (a :: s) (b :: t)

@[simp] theorem isNested_putChild (v : Value) (a : String) (x : Value) :
    (v.putChild a x).isNested = v.isNested := by
  cases v with
  | array items => cases hi : index? a <;> simp [putChild, hi, isNested]
  | object _ | null | bool _ | integer _ | float _ | string _ => rfl

theorem child?_eq_of_sameChild (h : v.SameChild a b) : v.child? a = v.child? b := by
  cases v with
  | object _ => exact congrArg _ h
  | array items => exact congrArg (Option.bind · (items[·]?)) h
  | null | bool _ | integer _ | float _ | string _ => rfl

private theorem sameChild_putChild {c : String} (h : v.SameChild a b) :
    (v.putChild c x).SameChild a b := by
  cases v with
  | array items =>
    cases hi : index? c <;>
    · simp only [putChild, hi]
      exact h
  | object _ | null | bool _ | integer _ | float _ | string _ => exact h

/-- A child reads back as it was put, under every segment that names it. -/
private theorem child?_putChild_of_sameChild (h : v.SameChild a b) (hw : v.child? a = some w) :
    (v.putChild a x).child? b = some x := by
  rw [← child?_eq_of_sameChild (sameChild_putChild h), child?_putChild_self hw]

/-- Putting a child leaves the others alone. -/
theorem child?_putChild_of_other (h : ¬ v.SameChild a b) : (v.putChild a x).child? b =
    v.child? b := by
  cases v with
  | object fields => exact Fields.get?_insert_of_ne fields x (Ne.symm h)
  | array items =>
    cases hi : index? a with
    | none => simp [putChild, hi]
    | some i =>
      simp only [putChild, hi, child?]
      cases hj : index? b with
      | none => rfl
      | some j =>
        have hij : i ≠ j := by
          rintro rfl
          exact h (hi.trans hj.symm)
        simp [List.getElem?_set_ne hij]
  | null | bool _ | integer _ | float _ | string _ => rfl

/-- Of two values put under one segment the second counts. -/
theorem putChild_putChild (v : Value) (a : String) (x y : Value) :
    (v.putChild a x).putChild a y = v.putChild a y := by
  cases v with
  | object fields => exact congrArg object (Fields.insert_insert fields a x y)
  | array items => cases hi : index? a <;> simp [putChild, hi]
  | null | bool _ | integer _ | float _ | string _ => rfl

/-! ## Values further down -/

theorem along_putAlong (h : v.along s = some u) (x : Value) :
    (v.putAlong s x).along s = some x := by
  induction s generalizing v with
  | nil => rfl
  | cons a rest ih =>
    obtain ⟨w, hw, hu⟩ := along_cons_iff.1 h
    rw [putAlong_cons hw, along, child?_putChild_self hw, Option.bind_some, ih hu]

private theorem putAlong_putAlong (h : v.along s = some u) (x y : Value) :
    (v.putAlong s x).putAlong s y = v.putAlong s y := by
  induction s generalizing v with
  | nil => rfl
  | cons a rest ih =>
    obtain ⟨w, hw, hu⟩ := along_cons_iff.1 h
    rw [putAlong_cons hw, putAlong_cons (child?_putChild_self hw), ih hu, putChild_putChild,
      putAlong_cons hw]

end Value

namespace Path

variable {p q route : Path} {a : String} {s t : List String} {root tree u v x old : Value}

/-! ## Ways that part -/

private theorem getAlong_putChild_of_leaves (h : v.Leaves [a] t) (x : Value) :
    getAlong route t (v.putChild a x) = getAlong route t v := by
  cases h with
  | here other =>
    simp only [getAlong, Value.isNested_putChild, Value.child?_putChild_of_other other]
  | later _ _ leaves => cases leaves

/-- A way that leaves the way to a place reads as before, whatever is put there. -/
private theorem getAlong_putAlong_of_leaves (hu : v.along s = some u)
    (h : v.Leaves (s ++ [a]) t) (x : Value) :
    getAlong route t (v.putAlong s (u.putChild a x)) = getAlong route t v := by
  induction s generalizing route v t with
  | nil =>
    obtain rfl := Option.some.inj hu
    exact getAlong_putChild_of_leaves h x
  | cons c rest ih =>
    obtain ⟨w, hw, hrest⟩ := Value.along_cons_iff.1 hu
    rw [Value.putAlong_cons hw]
    cases h with
    | here other =>
      simp only [getAlong, Value.isNested_putChild, Value.child?_putChild_of_other other]
    | later same child leaves =>
      -- Both go on below the same child.
      obtain rfl := Option.some.inj (hw.symm.trans child)
      have hother := (Value.child?_eq_of_sameChild same).symm.trans hw
      simp only [getAlong, Value.isNested_putChild,
        Value.child?_putChild_of_sameChild same hw, hother, ih hrest leaves]

/-! ## Writes in place -/

/-- Writes a value at a path of a tree that changes where it stands. The result is the value that
was there and the tree afterwards. -/
def exchange (p : Path) (root x : Value) : Except PathError Value × Value :=
  match p.hold root with
  | (.ok slot, _) => (.ok slot.content, slot.fill x)
  | (.error e, tree) => (.error e, tree)

private theorem exchange_of_slot {slot : Slot} (h : p.slot root = .ok slot) (x : Value) :
    p.exchange root x = (.ok slot.content, slot.fill x) := by
  simp only [exchange, hold_eq, h]

private theorem exchange_of_error {e : PathError} (h : p.slot root = .error e) (x : Value) :
    p.exchange root x = (.error e, root) := by
  simp only [exchange, hold_eq, h, treeAfter]

/-! ## Where a write goes -/

/-- A path reads the child that its last segment names. -/
theorem get_eq_ok_iff (hp : p.isProper = true) (around : root.along p.parent.segments = some u) :
    p.get root = .ok v ↔ u.child? p.lastSegment = some v := by
  rw [get, if_pos hp, getAlong_eq_ok_iff, segments_eq_of_isProper hp, Value.along_append, around,
    Option.bind_some, Value.along]
  cases u.child? p.lastSegment <;> simp [Value.along]

/-- The place that a write at a path goes to: a child of the value around it, or a field that the
object around it lacks, which counts as null. -/
structure Place (p : Path) (root u old : Value) : Prop where
  proper : p.isProper = true
  around : root.along p.parent.segments = some u
  content : u.child? p.lastSegment = some old ∨
    old = .null ∧ ∃ fields, u = .object fields ∧ Fields.get? fields p.lastSegment = none

namespace Place

/-- What is put at the place is found there. -/
private theorem child?_putChild (h : Place p root u old) (x : Value) :
    (u.putChild p.lastSegment x).child? p.lastSegment = some x := by
  obtain hchild | ⟨-, fields, rfl, -⟩ := h.content
  · exact Value.child?_putChild_self hchild
  · exact Fields.get?_insert_self fields p.lastSegment x

/-- What is put at the place is read back. -/
theorem get_putAlong (h : Place p root u old) (x : Value) :
    p.get (root.putAlong p.parent.segments (u.putChild p.lastSegment x)) = .ok x :=
  (get_eq_ok_iff h.proper (Value.along_putAlong h.around _)).2 (h.child?_putChild x)

/-- What is read at the place is what it holds. -/
private theorem eq_of_get (h : Place p root u old) (hread : p.get root = .ok v) : old = v := by
  have hchild := (get_eq_ok_iff h.proper h.around).1 hread
  obtain hold | ⟨-, fields, rfl, hlacks⟩ := h.content
  · exact Option.some.inj (hold.symm.trans hchild)
  · exact absurd (hlacks.symm.trans hchild) nofun

/-- The value at a path is its place. -/
theorem of_get (h : p.get root = .ok v) : ∃ u, Place p root u v ∧
    ∀ y, p.set root y = .ok (v, root.putAlong p.parent.segments (u.putChild p.lastSegment y)) := by
  have hresolves := resolves p root
  rw [h] at hresolves
  generalize hs : p.slot root = found at hresolves
  cases hresolves with
  | @present u _ proper around child =>
    refine ⟨u, ⟨proper, around, .inl child⟩, fun y => ?_⟩
    rw [set, hs]
    rfl

/-- A write that succeeds goes to its place. -/
theorem of_set (h : p.set root x = .ok (old, tree)) : ∃ u, Place p root u old ∧
    ∀ y, p.set root y =
      .ok (old, root.putAlong p.parent.segments (u.putChild p.lastSegment y)) := by
  have hresolves := resolves p root
  obtain ⟨slot, hs, rfl, rfl⟩ := slot_of_set h
  rw [hs] at hresolves
  generalize p.get root = read at hresolves
  cases hresolves with
  | @present u v proper around child =>
    refine ⟨u, ⟨proper, around, .inl child⟩, fun y => ?_⟩
    rw [set, hs]
    rfl
  | @added fields proper around lacks =>
    refine ⟨.object fields, ⟨proper, around, .inr ⟨rfl, fields, rfl, lacks⟩⟩, fun y => ?_⟩
    rw [set, hs]
    rfl

end Place

/-- A path that leaves the way of a write for another child reads as before. -/
theorem get_of_leaves (h : p.set root x = .ok (old, tree))
    (hleaves : root.Leaves p.segments q.segments) : q.get tree = q.get root := by
  obtain ⟨u, hplace, hset⟩ := Place.of_set h
  obtain rfl : root.putAlong p.parent.segments (u.putChild p.lastSegment x) = tree :=
    congrArg Prod.snd (Except.ok.inj ((hset x).symm.trans h))
  rw [segments_eq_of_isProper hplace.proper] at hleaves
  simp only [get, getAlong_putAlong_of_leaves hplace.around hleaves]

/-! ## The laws -/

/-- What holds of a write that succeeds, by the value that it replaces and the tree afterwards. -/
structure WriteLaws (p : Path) (root x old tree : Value) : Prop where
  /-- It does the same to a tree that changes where it stands. -/
  inPlace : p.exchange root x = (.ok old, tree)
  /-- The value written is read back. -/
  reads : p.get tree = .ok x
  /-- The value replaced is what was read before, or null for a field that the object lacked. -/
  replaced : p.get root = .ok old ∨ old = .null ∧ ∃ fields,
    root.along p.parent.segments = some (.object fields) ∧ Fields.get? fields p.lastSegment = none
  /-- Paths that leave its way for another child read as before. -/
  beside : ∀ q : Path, root.Leaves p.segments q.segments → q.get tree = q.get root
  /-- A second write makes the tree that it makes on its own. -/
  again : ∀ y, ∃ tree', p.set root y = .ok (old, tree') ∧ p.set tree y = .ok (x, tree')
  /-- Writing back what was read restores the tree. -/
  undo : ∀ v, p.get root = .ok v → p.set tree old = .ok (x, root)

/-- A write that fails leaves the tree as it is, and a write that succeeds keeps the laws. -/
theorem set_laws (p : Path) (root x : Value) :
    (∀ e, p.set root x = .error e → p.exchange root x = (.error e, root)) ∧
    ∀ old tree, p.set root x = .ok (old, tree) → WriteLaws p root x old tree := by
  constructor
  · intro e h
    cases hs : p.slot root with
    | error e' =>
      simp only [set, hs, bind, Except.bind, Except.error.injEq] at h
      rw [exchange_of_error hs, h]
    | ok slot => simp [set, hs, bind, Except.bind, pure, Except.pure] at h
  · intro old tree h
    obtain ⟨u, hplace, hset⟩ := Place.of_set h
    obtain rfl : root.putAlong p.parent.segments (u.putChild p.lastSegment x) = tree :=
      congrArg Prod.snd (Except.ok.inj ((hset x).symm.trans h))
    -- A second write goes to the same place, which now holds the value.
    have hagain (y : Value) : p.set
      (root.putAlong p.parent.segments (u.putChild p.lastSegment x)) y =
        .ok (x, root.putAlong p.parent.segments (u.putChild p.lastSegment y)) := by
      obtain ⟨u', hplace', hset'⟩ := Place.of_get (hplace.get_putAlong x)
      obtain rfl : u' = u.putChild p.lastSegment x :=
        Option.some.inj (hplace'.around.symm.trans (Value.along_putAlong hplace.around _))
      rw [hset' y, Value.putAlong_putAlong hplace.around, Value.putChild_putChild]
    constructor
    case inPlace =>
      obtain ⟨slot, hs, hold, htree⟩ := slot_of_set h
      rw [exchange_of_slot hs, hold, htree]
    case reads => exact hplace.get_putAlong x
    case replaced =>
      obtain hchild | ⟨hnull, fields, rfl, hlacks⟩ := hplace.content
      · exact .inl ((get_eq_ok_iff hplace.proper hplace.around).2 hchild)
      · exact .inr ⟨hnull, fields, hplace.around, hlacks⟩
    case beside => exact fun q hleaves => get_of_leaves h hleaves
    case again => exact fun y => ⟨_, hset y, hagain y⟩
    case undo =>
      intro v hread
      obtain rfl := hplace.eq_of_get hread
      have hchild := (get_eq_ok_iff hplace.proper hplace.around).1 hread
      rw [hagain old, Value.putChild_child? hchild, Value.putAlong_along hplace.around]

theorem set_laws_items :
    let root : Value :=
      .object [("items", .array [.object [("n", .integer 1)], .null]), ("user", .empty)]
    let tree : Value :=
      .object [("items", .array [.object [("n", .bool true)], .null]), ("user", .empty)]
    let p : Path := ⟨["items", "00", "n"]⟩
    let q : Path := ⟨["items", "1", "n"]⟩
    p.set root (.bool true) = .ok (.integer 1, tree) ∧
      WriteLaws p root (.bool true) (.integer 1) tree ∧ root.Leaves p.segments q.segments := by
  intro root tree p q
  have hset : p.set root (.bool true) = .ok (.integer 1, tree) := rfl
  have hother : ¬ Value.index? "00" = Value.index? "1" := by decide +kernel
  exact ⟨hset, (set_laws p root (.bool true)).2 _ _ hset, .later rfl rfl (.here hother)⟩

end Path

end ReactiveMarkup
