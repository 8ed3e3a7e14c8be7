-- SUMMARY: Reading and writing resolve a path in the same way.
import ReactiveMarkup.Proofs.Paths

/-!
# Resolving a path for a write

Reading resolves a path to a value, and writing resolves it to a place. `Path.resolves` says that
both resolve alike: the place holds the value that is read, or they fail with the same error, except
that a place may be a field that its object lacks. `Path.hold` resolves a path in the tree itself,
as a write does that changes the tree where it stands: a field that is missing is added at once, and
when the path leads nowhere the tree is left as it was found, as `Path.hold_as_get` says.
-/

namespace ReactiveMarkup

namespace Value

variable {u v w : Value} {segment : String} {s t : List String}

/-- The value with another one in place of the one that the segments lead to. -/
def putAlong : Value → List String → Value → Value
  | _, [], x => x
  | v, segment :: rest, x =>
    match v.child? segment with
    | some w => v.putChild segment (w.putAlong rest x)
    | none => v

theorem along_cons_iff : v.along (segment :: s) = some u ↔
    ∃ w, v.child? segment = some w ∧ w.along s = some u :=
  Option.bind_eq_some_iff

theorem putAlong_cons (h : v.child? segment = some w) (x : Value) :
    v.putAlong (segment :: s) x = v.putChild segment (w.putAlong s x) := by
  simp only [putAlong, h]

/-- Putting back the child that is there changes nothing. -/
theorem putChild_child? (h : v.child? segment = some w) : v.putChild segment w = v := by
  cases v with
  | object fields => exact congrArg object (Fields.insert_get? h)
  | array items =>
    obtain ⟨i, hi, hget⟩ := Option.bind_eq_some_iff.1 h
    obtain ⟨hlt, rfl⟩ := List.getElem?_eq_some_iff.1 hget
    simp [putChild, hi]
  | null | bool _ | integer _ | float _ | string _ => cases h

/-- Putting back what the segments lead to changes nothing. -/
theorem putAlong_along (h : v.along s = some u) : v.putAlong s u = v := by
  induction s generalizing v with
  | nil => exact (Option.some.inj h).symm
  | cons segment rest ih =>
    obtain ⟨w, hw, hu⟩ := along_cons_iff.1 h
    rw [putAlong_cons hw, ih hu, putChild_child? hw]

private theorem putAlong_append (h : v.along s = some u) (x : Value) :
    v.putAlong (s ++ t) x = v.putAlong s (u.putAlong t x) := by
  induction s generalizing v with
  | nil =>
    obtain rfl := Option.some.inj h
    rfl
  | cons segment rest ih =>
    obtain ⟨w, hw, hu⟩ := along_cons_iff.1 h
    rw [List.cons_append, putAlong_cons hw, ih hu, putAlong_cons hw]

end Value

/-- The place as it is reached from a value further up, from which the segments lead to the value
around the place. -/
def Slot.within (slot : Slot) (v : Value) (segments : List String) : Slot :=
  ⟨slot.content, fun x => v.putAlong segments (slot.fill x)⟩

private theorem Slot.within_cons {v w : Value} {segment : String}
    (hw : v.child? segment = some w) (slot : Slot)
    (s : List String) : (slot.within w s).within v [segment] = slot.within v (segment :: s) := by
  simp only [within, Value.putAlong, hw]

namespace Path

variable {route p : Path} {segment : String} {s t : List String} {u v w root : Value}
  {e : PathError}

/-! ## Resolving step by step -/

theorem getAlong_cons_iff : getAlong route (segment :: s) v = .ok u ↔
    ∃ w, v.isNested = true ∧ v.child? segment = some w ∧
    getAlong (route.push segment) s w = .ok u := by
  cases hn : v.isNested with
  | false => simp [getAlong, hn]
  | true => cases hc : v.child? segment <;> simp [getAlong, hn, hc]

theorem slotAlong_cons (hn : v.isNested = true) (hw : v.child? segment = some w) (hs : s ≠ []) :
    slotAlong route (segment :: s) v =
      (slotAlong (route.push segment) s w).map (·.within v [segment]) := by
  obtain ⟨next, rest, rfl⟩ := List.exists_cons_of_ne_nil hs
  simp only [slotAlong, hn, if_true, hw]
  cases slotAlong (route.push segment) (next :: rest) w with
  | error e => rfl
  | ok slot => simp only [Except.map, Slot.within, Value.putAlong, hw, bind, Except.bind,
    pure, Except.pure]

/-- Reading goes on from the value that the first segments lead to. -/
theorem getAlong_append (h : getAlong route s v = .ok u) :
    getAlong route (s ++ t) v = getAlong ⟨route.segments ++ s⟩ t u := by
  induction s generalizing route v with
  | nil =>
    obtain rfl := Except.ok.inj h
    rw [List.append_nil, List.nil_append]
  | cons segment rest ih =>
    obtain ⟨w, hn, hw, hu⟩ := getAlong_cons_iff.1 h
    rw [List.cons_append, getAlong, if_pos hn]
    simp only [hw]
    rw [ih hu]
    simp [push]

/-- Finding a place goes on from there too, as the way to it must exist. -/
theorem slotAlong_append (h : getAlong route s v = .ok u) (ht : t ≠ []) :
    slotAlong route (s ++ t) v = (slotAlong ⟨route.segments ++ s⟩ t u).map (·.within v s) := by
  induction s generalizing route v with
  | nil =>
    obtain rfl := Except.ok.inj h
    rw [List.append_nil, List.nil_append]
    cases slotAlong route t v <;> rfl
  | cons segment rest ih =>
    obtain ⟨w, hn, hw, hu⟩ := getAlong_cons_iff.1 h
    have hroute : (⟨(route.push segment).segments ++ rest⟩ : Path) =
        ⟨route.segments ++ segment :: rest⟩ := by
      simp [push]
    rw [List.cons_append, slotAlong_cons hn hw (by simp [ht]), ih hu, hroute]
    cases slotAlong ⟨route.segments ++ segment :: rest⟩ t u with
    | error e => rfl
    | ok slot => exact congrArg Except.ok (Slot.within_cons hw slot rest)

/-- Where the first segments lead nowhere, reading and finding a place stop there with the same
error. -/
theorem append_error (h : getAlong route s v = .error e) (ht : t ≠ []) :
    getAlong route (s ++ t) v = .error e ∧ slotAlong route (s ++ t) v = .error e := by
  induction s generalizing route v with
  | nil => cases h
  | cons segment rest ih =>
    have hrest : rest ++ t ≠ [] := by simp [ht]
    obtain ⟨next, more, hmore⟩ := List.exists_cons_of_ne_nil hrest
    cases hn : v.isNested with
    | false => simpa [getAlong, slotAlong, hn, hmore] using h
    | true =>
      cases hw : v.child? segment with
      | none => simpa [getAlong, slotAlong, hn, hw, hmore] using h
      | some w =>
        simp only [getAlong, hn, if_true, hw] at h
        obtain ⟨hget, hslot⟩ := ih h
        rw [List.cons_append, slotAlong_cons hn hw hrest, hslot]
        simp only [getAlong, hn, if_true, hw]
        exact ⟨hget, rfl⟩

/-! ## Reading and writing -/

/-- How what a path reads is related to the place that it names. -/
inductive Resolves (p : Path) (root : Value) : Except PathError Value → Except PathError Slot → Prop
  /-- The path leads to a value. -/
  | present {u v : Value} (proper : p.isProper = true)
      (around : root.along p.parent.segments = some u) (child : u.child? p.lastSegment = some v) :
      Resolves p root (.ok v)
        (.ok ⟨v, fun x => root.putAlong p.parent.segments (u.putChild p.lastSegment x)⟩)
  /-- The path ends at a field that its object lacks. -/
  | added {fields : Fields Value} (proper : p.isProper = true)
      (around : root.along p.parent.segments = some (.object fields))
      (lacks : Fields.get? fields p.lastSegment = none) :
      Resolves p root (.error (.missing p)) (.ok ⟨.null, fun x =>
        root.putAlong p.parent.segments ((Value.object fields).putChild p.lastSegment x)⟩)
  /-- The path leads nowhere. -/
  | refused {e : PathError}
      (other : ∀ fields, e = .missing p → root.along p.parent.segments ≠ some (.object fields)) :
      Resolves p root (.error e) (.error e)

theorem segments_eq_of_isProper (h : p.isProper = true) :
    p.segments = p.parent.segments ++ [p.lastSegment] := by
  have hne : p.segments ≠ [] := by
    intro hnil
    simp [isProper, hnil] at h
  simp [parent, lastSegment, List.getLast?_eq_some_getLast hne, List.dropLast_concat_getLast hne]

/-- Replacing the value at a path is putting a child into the value around it. -/
private theorem putAlong_segments (hp : p.isProper = true)
    (around : root.along p.parent.segments = some u)
    (child : u.child? p.lastSegment = some v) (x : Value) :
    root.putAlong p.segments x = root.putAlong p.parent.segments (u.putChild p.lastSegment x) := by
  rw [segments_eq_of_isProper hp, Value.putAlong_append around, Value.putAlong_cons child,
    Value.putAlong]

/-- The last segment of a path names what is read, or a field that its object lacks. -/
private theorem resolves_last (around : root.along p.parent.segments = some u)
    (hp : p.isProper = true) : Resolves p root (getAlong p.parent [p.lastSegment] u)
      ((lastSlot p.parent p.lastSegment u).map (·.within root p.parent.segments)) := by
  have hpush : p.parent.push p.lastSegment = p := Path.ext (segments_eq_of_isProper hp).symm
  cases u with
  | object fields =>
    cases hchild : (Value.object fields).child? p.lastSegment with
    | some v =>
      have hfield : Fields.get? fields p.lastSegment = some v := hchild
      simp only [getAlong, Value.isNested, if_true, hchild, lastSlot, hfield]
      exact .present hp around hchild
    | none =>
      have hfield : Fields.get? fields p.lastSegment = none := hchild
      simp only [getAlong, Value.isNested, if_true, hchild, lastSlot, hfield, hpush]
      exact .added hp around hfield
  | array items =>
    cases hchild : (Value.array items).child? p.lastSegment with
    | some v =>
      simp only [getAlong, Value.isNested, if_true, hchild, lastSlot]
      exact .present hp around hchild
    | none =>
      simp only [getAlong, Value.isNested, if_true, hchild, lastSlot]
      exact .refused fun fields _ => by simp [around]
  | null | bool _ | integer _ | float _ | string _ =>
    exact .refused fun fields _ => by simp [around]

/-- Reading and writing resolve a path alike. -/
theorem resolves (p : Path) (root : Value) : Resolves p root (p.get root) (p.slot root) := by
  cases hp : p.isProper with
  | false =>
    simp only [get, slot, hp, Bool.false_eq_true, if_false]
    exact .refused fun _ h => by cases h
  | true =>
    simp only [get, slot, hp, if_true]
    rw [segments_eq_of_isProper hp]
    cases hparent : getAlong blank p.parent.segments root with
    | error e =>
      obtain ⟨hget, hslot⟩ := append_error hparent (List.cons_ne_nil p.lastSegment [])
      rw [hget, hslot]
      refine .refused fun fields _ halong => ?_
      rw [getAlong_eq_ok_iff.2 halong] at hparent
      cases hparent
    | ok u =>
      have hroute : (⟨blank.segments ++ p.parent.segments⟩ : Path) = p.parent := rfl
      rw [getAlong_append hparent,
        slotAlong_append hparent (List.cons_ne_nil p.lastSegment []), hroute]
      exact resolves_last (getAlong_eq_ok_iff.1 hparent) hp

/-! ## Resolving in place -/

/-- Finds the place of a write at the last segment of a path, in a tree that changes where it
stands. The result is the place and the tree afterwards, in which a field that was missing is there,
as null. -/
def holdLast (route : Path) (segment : String) (v : Value) : Except PathError Slot × Value :=
  match v with
  | .object fields =>
    match Fields.get? fields segment with
    | some w => (.ok ⟨w, v.putChild segment⟩, v)
    | none => (.ok ⟨.null, v.putChild segment⟩, v.putChild segment .null)
  | .array _ =>
    match v.child? segment with
    | some w => (.ok ⟨w, v.putChild segment⟩, v)
    | none => (.error (.missing (route.push segment)), v)
  | _ => (.error (.notAnObject route segment), v)

/-- Finds the place of a write along `segments` below a value that changes where it stands. -/
def holdAlong (route : Path) : List String → Value → Except PathError Slot × Value
  | [], v => (.ok ⟨v, id⟩, v)
  | [segment], v => holdLast route segment v
  | segment :: next :: rest, v =>
    if v.isNested then
      match v.child? segment with
      | some w =>
        -- The child stays in its place, changed as the rest of the way leaves it.
        let (found, w) := holdAlong (route.push segment) (next :: rest) w
        (found.map fun slot => ⟨slot.content, fun x => v.putChild segment (slot.fill x)⟩,
          v.putChild segment w)
      | none => (.error (.missing (route.push segment)), v)
    else (.error (.notAnObject route segment), v)

/-- Finds the place that a path names for a write, in a tree that changes where it stands. The
result is the place and the tree afterwards. -/
def hold (p : Path) (root : Value) : Except PathError Slot × Value :=
  if p.isProper then holdAlong blank p.segments root else (.error (.emptySegment p), root)

/-- The tree once a place was looked for: the place is filled with what it holds, and where there is
none the tree is as before. -/
def treeAfter (found : Except PathError Slot) (before : Value) : Value :=
  match found with
  | .ok slot => slot.fill slot.content
  | .error _ => before

private theorem holdLast_eq (route : Path) (segment : String) (v : Value) :
    holdLast route segment v =
      (lastSlot route segment v, treeAfter (lastSlot route segment v) v) := by
  cases v with
  | object fields =>
    cases hfield : Fields.get? fields segment with
    | some w =>
      have hchild : (Value.object fields).child? segment = some w := hfield
      simp [holdLast, lastSlot, treeAfter, hfield, Value.putChild_child? hchild]
    | none => simp [holdLast, lastSlot, treeAfter, hfield]
  | array items =>
    cases hchild : (Value.array items).child? segment with
    | some w => simp [holdLast, lastSlot, treeAfter, hchild, Value.putChild_child? hchild]
    | none => simp [holdLast, lastSlot, treeAfter, hchild]
  | null | bool _ | integer _ | float _ | string _ => rfl

private theorem holdAlong_eq (route : Path) (s : List String) (v : Value) :
    holdAlong route s v = (slotAlong route s v, treeAfter (slotAlong route s v) v) := by
  induction s generalizing route v with
  | nil => rfl
  | cons segment rest ih =>
    cases rest with
    | nil => exact holdLast_eq route segment v
    | cons next rest =>
      cases hn : v.isNested with
      | false => simp [holdAlong, slotAlong, hn, treeAfter]
      | true =>
        cases hw : v.child? segment with
        | none => simp [holdAlong, slotAlong, hn, hw, treeAfter]
        | some w =>
          simp only [holdAlong, slotAlong, hn, if_true, hw, ih]
          cases slotAlong (route.push segment) (next :: rest) w with
          | ok slot => rfl
          | error e => exact congrArg (Prod.mk _) (Value.putChild_child? hw)

/-- Resolving in place finds the place that a path names. -/
theorem hold_eq (p : Path) (root : Value) :
    p.hold root = (p.slot root, treeAfter (p.slot root) root) := by
  cases hp : p.isProper with
  | false => simp [hold, slot, hp, treeAfter]
  | true => simp only [hold, slot, hp, if_true, holdAlong_eq]

/-- A path is resolved for a write as it is for reading. Where it reads a value it names the place
of that value, and the tree stays as it is. Where it ends at a field that its object lacks it names
a place that holds null, and the field is added to the tree as null. Otherwise it is refused with
the error of reading, and the tree stays as it is. -/
theorem hold_as_get (p : Path) (root : Value) :
    (p.hold root).1 = p.slot root ∧
    (∀ v, p.get root = .ok v → ∃ slot, p.hold root = (.ok slot, root) ∧ slot.content = v ∧
      ∀ x, slot.fill x = root.putAlong p.segments x) ∧
    (∀ fields, p.get root = .error (.missing p) →
      root.along p.parent.segments = some (.object fields) →
      ∃ slot, p.hold root =
          (.ok slot,
            root.putAlong p.parent.segments (.object (Fields.insert fields p.lastSegment .null))) ∧
        slot.content = .null ∧
        ∀ x, slot.fill x =
          root.putAlong p.parent.segments (.object (Fields.insert fields p.lastSegment x))) ∧
    (∀ e, p.get root = .error e →
      (∀ fields, e = .missing p → root.along p.parent.segments ≠ some (.object fields)) →
      p.hold root = (.error e, root)) := by
  have hresolves := resolves p root
  rw [hold_eq]
  generalize p.get root = read, p.slot root = found at hresolves
  cases hresolves with
  | @present u v proper around child =>
    refine ⟨rfl, fun w hw => ?_, nofun, nofun⟩
    obtain rfl := Except.ok.inj hw
    refine ⟨_, congrArg (Prod.mk _) ?_, rfl,
      fun x => (putAlong_segments proper around child x).symm⟩
    simp only [treeAfter, Value.putChild_child? child, Value.putAlong_along around]
  | @added fields proper around lacks =>
    refine ⟨rfl, nofun, fun other _ hother => ?_, fun e he hno => ?_⟩
    · obtain rfl : fields = other := by simpa [around] using hother
      exact ⟨_, rfl, rfl, fun _ => rfl⟩
    · exact absurd around (hno fields (Except.error.inj he).symm)
  | @refused e other =>
    refine ⟨rfl, nofun, fun fields he hfields => ?_, fun e' he' _ => ?_⟩
    · exact absurd hfields (other fields (Except.error.inj he))
    · rw [Except.error.inj he', treeAfter]

theorem hold_as_get_user :
    let root : Value := .object [("list", .array []), ("user", .object [])]
    let p : Path := ⟨["user", "name"]⟩
    p.get root = .error (.missing p) ∧ root.along p.parent.segments = some (.object []) ∧
      ∃ slot, p.hold root =
          (.ok slot, .object [("list", .array []), ("user", .object [("name", .null)])]) ∧
        slot.content = .null ∧
        ∀ x, slot.fill x =
          root.putAlong p.parent.segments (.object (Fields.insert [] p.lastSegment x)) := by
  intro root p
  have hread : p.get root = .error (.missing p) := rfl
  have haround : root.along p.parent.segments = some (.object []) := rfl
  exact ⟨hread, haround, (hold_as_get p root).2.2.1 [] hread haround⟩

end Path

end ReactiveMarkup
