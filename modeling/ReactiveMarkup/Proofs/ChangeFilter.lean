-- SUMMARY: When the record of a change says what a path reads, and when it says nothing.
import ReactiveMarkup.Proofs.Alike
import ReactiveMarkup.Proofs.PathText
import ReactiveMarkup.Proofs.WriteLaws
import ReactiveMarkup.Proofs.Writes

/-!
# What a change says about a path

A binding asks the record of a change what its path reads now, and the record answers by comparing
the path with the one that was written. An answer is right in every tree: `Change.valueAt?_exact`.
Where the record says nothing the path reads as before, unless the write goes below the path, or the
two paths name the same item of an array in different spellings, as `items.1` and `items.01` do. The
record compares spellings, and the tree does not, so the write changes what the path reads and the
record says nothing: `Change.valueAt?_respelled`.
-/

namespace ReactiveMarkup

namespace Value

variable {v w : Value} {a b : String} {s t : List String}

/-- Whether two ways part at an array, with different spellings of one index. -/
def Respells (v : Value) (s t : List String) : Prop :=
  ∃ way a b s' t' items, s = way ++ a :: s' ∧ t = way ++ b :: t' ∧ a ≠ b ∧
    v.along way = some (.array items) ∧ index? a = index? b

private theorem Respells.not_prefix (h : v.Respells s t) : ¬ s <+: t ∧ ¬ t <+: s := by
  obtain ⟨way, a, b, s', t', -, rfl, rfl, hne, -, -⟩ := h
  simp only [List.prefix_append_right_inj, List.cons_prefix_cons, not_and]
  exact ⟨fun h => absurd h hne, fun h => absurd h.symm hne⟩

theorem Respells.cons (hw : v.child? a = some w) (h : w.Respells s t) : v.Respells (a :: s)
    (a :: t) := by
  obtain ⟨way, c, d, s', t', items, rfl, rfl, hne, hitems, hindex⟩ := h
  exact ⟨a :: way, c, d, s', t', items, rfl, rfl, hne, along_cons_iff.2 ⟨w, hw, hitems⟩, hindex⟩

private theorem sameChild_self (v : Value) (a : String) : v.SameChild a a := by
  cases v <;> trivial

/-- Two segments that differ name different children, or one item of an array. -/
private theorem not_sameChild (hn : v.isNested = true) (hne : a ≠ b)
    (h : ¬ v.Respells (a :: s) (b :: t)) : ¬ v.SameChild a b := by
  intro hsame
  cases v with
  | object _ => exact hne hsame
  | array items => exact h ⟨[], a, b, s, t, items, rfl, rfl, hne, rfl, hsame⟩
  | null | bool _ | integer _ | float _ | string _ => cases hn

end Value

namespace Path

variable {route p q : Path} {s t : List String} {v root : Value} {slot : Slot}

private theorem isNested_of_slotAlong {a : String} (h : slotAlong route (a :: s) v = .ok slot) :
    v.isNested = true := by
  cases v with
  | array _ | object _ => rfl
  | null | bool _ | integer _ | float _ | string _ => cases s <;> cases h

/-- A way that neither continues the way to a place nor stops on it leaves it for another child,
unless the two part at one item of an array. -/
private theorem leaves_of_slotAlong (h : slotAlong route s v = .ok slot) (hs : ¬ s <+: t)
    (ht : ¬ t <+: s) (hspelt : ¬ v.Respells s t) : v.Leaves s t := by
  induction s generalizing route v t slot with
  | nil => exact absurd List.nil_prefix hs
  | cons a rest ih =>
    cases t with
    | nil => exact absurd List.nil_prefix ht
    | cons b other =>
      by_cases hab : a = b
      · subst hab
        rw [List.cons_prefix_cons, eq_self, true_and] at hs ht
        obtain ⟨next, more, rfl⟩ :=
          List.exists_cons_of_ne_nil (l := rest) (by rintro rfl; exact hs List.nil_prefix)
        obtain ⟨-, w, inner, hw, hinner, -⟩ := slotAlong_cons_iff.1 h
        exact .later (v.sameChild_self a) hw (ih hinner hs ht fun hbelow => hspelt (hbelow.cons hw))
      · exact .here (Value.not_sameChild (isNested_of_slotAlong h) hab hspelt)

end Path

/-! ## What the record says -/

theorem Path.after?_eq_none_iff {base p : Path} : base.after? p = none ↔
    ¬ base.segments <+: p.segments := by
  rw [Option.eq_none_iff_forall_ne_some]
  constructor
  · rintro h ⟨rest, hrest⟩
    exact h ⟨rest⟩ (Path.after?_eq_some_iff.2 (Path.ext hrest.symm))
  · rintro h rest hrest
    exact h ⟨rest.segments, (congrArg Path.segments (Path.after?_eq_some_iff.1 hrest)).symm⟩

namespace Change

/-- A change says nothing about the paths that do not continue the one that was written. -/
theorem valueAt?_eq_none_iff {c : Change} {p : Path} (hp : p.isProper = true) :
    c.valueAt? p = none ↔ ¬ c.path.segments <+: p.segments := by
  rw [← Path.after?_eq_none_iff]
  cases h : c.path.after? p with
  | none => simp [valueAt?_of_none h]
  | some rest => simp [valueAt?_of_some h hp]

/-- What a change says about a path is what the path reads after the write. -/
private theorem valueAt?_of_write {p q : Path} {root tree x y : Value} {c : Change}
    (hwrite : q.write root x = .ok (tree, some c)) (hp : p.isProper = true)
    (h : c.valueAt? p = some y) :
    y = p.valueOrNull tree := by
  obtain ⟨slot, hslot, rfl, rfl, -⟩ := Path.write_effective hwrite
  cases hafter : q.after? p with
  | none => exact absurd (h.symm.trans (valueAt?_of_none hafter)) nofun
  | some rest =>
    have hsegments : p.segments = q.segments ++ rest.segments :=
      congrArg Path.segments (Path.after?_eq_some_iff.1 hafter)
    rw [valueAt?_of_some hafter hp, Option.some.injEq] at h
    rw [Path.valueOrNull_eq hp, hsegments, (Path.isSlot_slot hslot).2.inside, ← h]

/-- Where a change says nothing a path reads as before, unless the write goes below it or to an item
that it spells differently. -/
private theorem get_of_valueAt?_eq_none {p q : Path} {root tree x : Value} {c : Change}
    (hwrite : q.write root x = .ok (tree, some c)) (hp : p.isProper = true)
    (h : c.valueAt? p = none)
    (hbelow : ¬ p.segments <+: q.segments) (hspelt : ¬ root.Respells q.segments p.segments) :
    p.get tree = p.get root := by
  obtain ⟨slot, hslot, rfl, rfl, -⟩ := Path.write_effective hwrite
  have hset : q.set root x = .ok (slot.content, slot.fill x) := by
    rw [Path.set, hslot]
    rfl
  obtain ⟨hq, -⟩ := Path.isSlot_slot hslot
  refine Path.get_of_leaves hset ?_
  rw [Path.slot, if_pos hq] at hslot
  exact Path.leaves_of_slotAlong hslot ((valueAt?_eq_none_iff hp).1 h) hbelow hspelt

/-- The record of a write answers for the paths whose texts continue the text of the path written,
and what it says is what the path reads after the write, or null. About other paths it says nothing,
and they read as before, unless the write goes below them or to an item that they spell differently.
Of such items it says nothing either. -/
theorem valueAt?_exact {p q : String} {root tree v x : Value} {c : Change}
    (hwrite : (Path.ofString q).write root x = .ok (tree, some c))
    (hread : (Path.ofString p).get root = .ok v) :
    (c.valueAt? (.ofString p) = none ↔ p ≠ q ∧ ∀ rest, p ≠ q ++ "." ++ rest) ∧
    (∀ y, c.valueAt? (.ofString p) = some y → y = (Path.ofString p).valueOrNull tree) ∧
    (c.valueAt? (.ofString p) = none → (∀ rest, q ≠ p ++ "." ++ rest) →
      ¬ root.Respells (Path.ofString q).segments (Path.ofString p).segments →
      (Path.ofString p).get tree = (Path.ofString p).get root) ∧
    (root.Respells (Path.ofString q).segments (Path.ofString p).segments →
      c.valueAt? (.ofString p) = none ∧ ∀ rest, q ≠ p ++ "." ++ rest) := by
  have hp := Path.isProper_of_get hread
  have hcontinues := Path.segments_prefix_iff (q := q) (Path.ne_empty_of_isProper hp)
  have hnone : c.valueAt? (.ofString p) = none ↔ p ≠ q ∧ ∀ rest, p ≠ q ++ "." ++ rest := by
    obtain ⟨slot, hslot, rfl, -, -⟩ := Path.write_effective hwrite
    have hq := Path.ne_empty_of_isProper (Path.isSlot_slot hslot).1
    rw [valueAt?_eq_none_iff hp, Path.segments_prefix_iff hq, not_or, not_exists]
  refine ⟨hnone, fun y hy => valueAt?_of_write hwrite hp hy, fun hsilent hbelow hspelt => ?_,
    fun hspelt => ?_⟩
  · refine get_of_valueAt?_eq_none hwrite hp hsilent (fun hprefix => ?_) hspelt
    obtain rfl | ⟨rest, hrest⟩ := hcontinues.1 hprefix
    · exact (hnone.1 hsilent).1 rfl
    · exact hbelow rest hrest
  · obtain ⟨hover, hunder⟩ := hspelt.not_prefix
    obtain ⟨slot, -, hc, -, -⟩ := Path.write_effective hwrite
    refine ⟨(valueAt?_eq_none_iff hp).2 (by rwa [hc]), fun rest hrest => ?_⟩
    exact hunder (hcontinues.2 (.inr ⟨rest, hrest⟩))

/-- A user, and a field whose name begins like a path to the user. -/
def account (username : String) : Value :=
  .object [("user", .object [("name", .string "a")]), ("username", .string username)]

theorem valueAt?_exact_account :
    let p := Path.ofString "user.name"
    let q := Path.ofString "username"
    let c : Change := ⟨q, .string "b", .string "c"⟩
    q.write (account "b") (.string "c") = .ok (account "c", some c) ∧
      p.get (account "b") = .ok (.string "a") ∧ ¬ (account "b").Respells q.segments p.segments ∧
      c.valueAt? p = none ∧ p.get (account "c") = p.get (account "b") := by
  intro p q c
  have hp : p = ⟨["user", "name"]⟩ := by decide +kernel
  have hq : q = ⟨["username"]⟩ := by decide +kernel
  have hwrite : q.write (account "b") (.string "c") = .ok (account "c", some c) := by
    simp only [c, hq]
    rfl
  have hread : p.get (account "b") = .ok (.string "a") := by
    rw [hp]
    rfl
  have hspelt : ¬ (account "b").Respells q.segments p.segments := by
    rw [hq]
    rintro ⟨way, a, b, s', t', items, hs, -, -, hitems, -⟩
    -- The way to the field is one segment, and the value that holds the field is no array.
    cases way with
    | nil => cases hitems
    | cons _ way => exact absurd (List.cons.inj hs).2 (by simp)
  obtain ⟨hsilent, -, hkept, -⟩ := valueAt?_exact hwrite hread
  have hnone : c.valueAt? p = none := by
    refine hsilent.2 ⟨by decide, fun rest h => ?_⟩
    exact absurd (congrArg String.toList h) (by simp)
  refine ⟨hwrite, hread, hspelt, hnone, hkept hnone (fun rest h => ?_) hspelt⟩
  exact absurd (congrArg String.toList h) (by simp)

/-- A list whose second item is to be replaced. -/
def letters (second : String) : Value := .object [("items", .array [.string "a", .string second])]

/-- A write at another spelling of the index of an item changes what is read there, and the record
of the change says nothing about it. -/
theorem valueAt?_respelled :
    let p := Path.ofString "items.1"
    let q := Path.ofString "items.01"
    let c : Change := ⟨q, .string "b", .string "c"⟩
    q.write (letters "b") (.string "c") = .ok (letters "c", some c) ∧
      p.get (letters "b") = .ok (.string "b") ∧ c.valueAt? p = none ∧
      (∀ rest, "items.01" ≠ "items.1" ++ "." ++ rest) ∧
      p.get (letters "c") = .ok (.string "c") ∧ p.get (letters "c") ≠ p.get (letters "b") := by
  intro p q c
  have hp : p = ⟨["items", "1"]⟩ := by decide +kernel
  have hq : q = ⟨["items", "01"]⟩ := by decide +kernel
  have hbefore : p.get (letters "b") = .ok (.string "b") := by
    rw [hp]
    rfl
  have hafter : p.get (letters "c") = .ok (.string "c") := by
    rw [hp]
    rfl
  refine ⟨?_, hbefore, ?_, fun rest h => ?_, hafter, ?_⟩
  · simp only [c, hq]
    rfl
  · simp only [c, hp, hq]
    rfl
  · exact absurd (congrArg String.toList h) (by simp)
  · simp [hbefore, hafter]

end Change

end ReactiveMarkup
