-- SUMMARY: Maps from names to values as sorted lists, with the laws of looking up and inserting.
/-!
# Sorted fields

A `Fields α` maps names to values as a list of pairs in the order of the names, compared code point
by code point. `Fields.insert` writes over the field of a name that is present and otherwise puts
the new field at its place, so fields built by insertion are sorted and hold each name once.
-/

namespace ReactiveMarkup

/-- Named values in the order of their names. -/
abbrev Fields (α : Type) := List (String × α)

namespace Fields

variable {α : Type}

/-- The value under a name. -/
def get? : Fields α → String → Option α
  | [], _ => none
  | (a, x) :: rest, name => if a = name then some x else get? rest name

/-- Writes over the first field with the name. -/
def replace : Fields α → String → α → Fields α
  | [], _, _ => []
  | (a, x) :: rest, name, v => if a = name then (a, v) :: rest else (a, x) :: replace rest name v

/-- Puts a field in front of the first one with a greater name. -/
def insertNew : Fields α → String → α → Fields α
  | [], name, v => [(name, v)]
  | (a, x) :: rest, name, v =>
    if name < a then (name, v) :: (a, x) :: rest else (a, x) :: insertNew rest name v

/-- Writes a field, which is added at its place when the name is new. -/
def insert (fields : Fields α) (name : String) (v : α) : Fields α :=
  match fields.get? name with
  | some _ => fields.replace name v
  | none => fields.insertNew name v

/-- The fields of a list of pairs, a later pair winning over an earlier one of the same name. -/
def ofList (pairs : List (String × α)) : Fields α :=
  pairs.foldl (fun fields p => fields.insert p.1 p.2) []

/-! ## Reading after writing -/

private theorem get?_replace_self {fields : Fields α} {name : String} {x : α} (v : α)
    (h : fields.get? name = some x) : (fields.replace name v).get? name = some v := by
  induction fields with
  | nil => simp [get?] at h
  | cons p rest ih =>
    obtain ⟨a, y⟩ := p
    by_cases ha : a = name
    · simp [replace, get?, ha]
    · simp only [get?, ha, if_false] at h
      simp [replace, get?, ha, ih h]

private theorem get?_replace_of_ne (fields : Fields α) {name other : String} (v : α)
    (h : other ≠ name) : (fields.replace name v).get? other = fields.get? other := by
  induction fields with
  | nil => rfl
  | cons p rest ih =>
    obtain ⟨a, y⟩ := p
    by_cases ha : a = name
    · simp [replace, get?, ha, Ne.symm h]
    · simp [replace, get?, ha, ih]

private theorem get?_insertNew_self {fields : Fields α} {name : String} (v : α)
    (h : fields.get? name = none) : (fields.insertNew name v).get? name = some v := by
  induction fields with
  | nil => simp [insertNew, get?]
  | cons p rest ih =>
    obtain ⟨a, y⟩ := p
    by_cases ha : a = name
    · simp [get?, ha] at h
    · simp only [get?, ha, if_false] at h
      by_cases hl : name < a
      · simp [insertNew, hl, get?]
      · simp [insertNew, hl, get?, ha, ih h]

private theorem get?_insertNew_of_ne (fields : Fields α) {name other : String} (v : α)
    (h : other ≠ name) : (fields.insertNew name v).get? other = fields.get? other := by
  induction fields with
  | nil => simp [insertNew, get?, Ne.symm h]
  | cons p rest ih =>
    obtain ⟨a, y⟩ := p
    by_cases hl : name < a
    · simp [insertNew, hl, get?, Ne.symm h]
    · simp [insertNew, hl, get?, ih]

/-- A field reads back what was written to it. -/
@[simp] theorem get?_insert_self (fields : Fields α) (name : String) (v : α) :
    (fields.insert name v).get? name = some v := by
  unfold insert
  split
  · next h => exact get?_replace_self v h
  · next h => exact get?_insertNew_self v h

/-- Writing one field leaves the others alone. -/
theorem get?_insert_of_ne (fields : Fields α) {name other : String} (v : α) (h : other ≠ name) :
    (fields.insert name v).get? other = fields.get? other := by
  unfold insert
  split
  · exact get?_replace_of_ne fields v h
  · exact get?_insertNew_of_ne fields v h

private theorem replace_get? {fields : Fields α} {name : String} {x : α}
    (h : fields.get? name = some x) : fields.replace name x = fields := by
  induction fields with
  | nil => rfl
  | cons p rest ih =>
    obtain ⟨a, y⟩ := p
    by_cases ha : a = name
    · simp only [get?, ha, if_true, Option.some.injEq] at h
      simp [replace, ha, h]
    · simp only [get?, ha, if_false] at h
      simp [replace, ha, ih h]

/-- Writing what a field already holds changes nothing. -/
theorem insert_get? {fields : Fields α} {name : String} {x : α} (h : fields.get? name = some x) :
    fields.insert name x = fields := by
  simp [insert, h, replace_get? h]

/-! ## Writing twice -/

private theorem replace_replace (fields : Fields α) (name : String) (v w : α) :
    (fields.replace name v).replace name w = fields.replace name w := by
  induction fields with
  | nil => rfl
  | cons p rest ih =>
    obtain ⟨a, y⟩ := p
    by_cases ha : a = name
    · simp [replace, ha]
    · simp [replace, ha, ih]

private theorem replace_insertNew {fields : Fields α} {name : String} (v w : α)
    (h : fields.get? name = none) : (fields.insertNew name v).replace name w =
      fields.insertNew name w := by
  induction fields with
  | nil => simp [insertNew, replace]
  | cons p rest ih =>
    obtain ⟨a, y⟩ := p
    by_cases ha : a = name
    · simp [get?, ha] at h
    · simp only [get?, ha, if_false] at h
      by_cases hl : name < a
      · simp [insertNew, hl, replace]
      · simp [insertNew, hl, replace, ha, ih h]

/-- Of two writes to one field the second counts. -/
@[simp] theorem insert_insert (fields : Fields α) (name : String) (v w : α) :
    (fields.insert name v).insert name w = fields.insert name w := by
  rw [insert, get?_insert_self]
  unfold insert
  cases h : fields.get? name with
  | some x => exact replace_replace fields name v w
  | none => exact replace_insertNew v w h

end Fields

end ReactiveMarkup
