-- SUMMARY: Which component is registered under a tag, in whatever order.
import Mathlib.Data.List.Nodup
import ReactiveMarkup.Registry

/-!
# Which component a tag selects

Registering components one after the other leaves the last one of each selector, and a tag selects
it by its letters. `Registry.components_registerAll` says what is left, `Registry.get?_registerAll`
what is selected, and `Registry.get?_perm` that the order of the rest makes no difference.
-/

namespace ReactiveMarkup

variable {σ : Type}

/-! ## Selectors and tags -/

/-- Selectors are in lower case, so a tag selects a component by its letters. -/
theorem Component.sameLetters_selector (c : Component σ) (tag : String) :
    Text.sameLetters c.selector tag = (c.selector == Text.lower tag) := by
  rw [Bool.eq_iff_iff, Text.sameLetters_iff, c.selector_lower, beq_iff_eq]

/-- The components that no later one with the same selector replaces. -/
def lastOfEach : List (Component σ) → List (Component σ)
  | [] => []
  | c :: cs =>
    if cs.any fun d =>
      Text.sameLetters d.selector c.selector then lastOfEach cs else c :: lastOfEach cs

section LastOfEach

variable {c : Component σ} {cs : List (Component σ)}

theorem any_sameLetters_iff :
    (cs.any fun d => Text.sameLetters d.selector c.selector) = true ↔
    c.selector ∈ cs.map (·.selector) := by
  simp [Component.sameLetters_selector, c.selector_lower]

theorem lastOfEach_cons_of_mem (h : c.selector ∈ cs.map (·.selector)) : lastOfEach
    (c :: cs) = lastOfEach cs := by
  rw [lastOfEach, if_pos (any_sameLetters_iff.2 h)]

theorem lastOfEach_cons_of_not_mem (h : c.selector ∉ cs.map (·.selector)) :
    lastOfEach (c :: cs) = c :: lastOfEach cs := by
  rw [lastOfEach, if_neg (any_sameLetters_iff.not.2 h)]

theorem lastOfEach_sublist (cs : List (Component σ)) : (lastOfEach cs).Sublist cs := by
  induction cs with
  | nil => exact .slnil
  | cons c cs ih =>
    rw [lastOfEach]
    split
    · exact ih.cons c
    · exact ih.cons_cons c

private theorem nodup_lastOfEach (cs : List (Component σ)) :
    ((lastOfEach cs).map (·.selector)).Nodup := by
  induction cs with
  | nil => exact .nil
  | cons c cs ih =>
    by_cases h : c.selector ∈ cs.map (·.selector)
    · rwa [lastOfEach_cons_of_mem h]
    · rw [lastOfEach_cons_of_not_mem h]
      exact List.nodup_cons.2 ⟨fun hmem => h (((lastOfEach_sublist cs).map _).subset hmem), ih⟩

/-- Nothing is dropped when all selectors differ. -/
private theorem lastOfEach_of_nodup (h : (cs.map (·.selector)).Nodup) : lastOfEach cs = cs := by
  induction cs with
  | nil => rfl
  | cons c cs ih =>
    obtain ⟨hc, hcs⟩ := List.nodup_cons.1 h
    rw [lastOfEach_cons_of_not_mem hc, ih hcs]

private theorem find?_lastOfEach (cs : List (Component σ)) (tag : String) :
    (lastOfEach cs).find? (·.selector == Text.lower tag) =
      cs.reverse.find? (·.selector == Text.lower tag) := by
  induction cs with
  | nil => rfl
  | cons c cs ih =>
    rw [List.reverse_cons, List.find?_append, ← ih]
    by_cases hmem : c.selector ∈ cs.map (·.selector)
    · rw [lastOfEach_cons_of_mem hmem]
      -- A later component is found whenever this one would be.
      cases hfind : (lastOfEach cs).find? (·.selector == Text.lower tag) with
      | some d => rfl
      | none =>
        rw [ih, List.find?_eq_none] at hfind
        obtain ⟨d, hd, hselector⟩ := List.mem_map.1 hmem
        have hc := hfind d (List.mem_reverse.2 hd)
        rw [hselector] at hc
        simp [hc]
    · rw [lastOfEach_cons_of_not_mem hmem, List.find?_cons]
      by_cases hc : c.selector = Text.lower tag
      · have hnone : (lastOfEach cs).find? (·.selector == Text.lower tag) = none := by
          refine List.find?_eq_none.2 fun d hd hselector => hmem ?_
          rw [hc, ← beq_iff_eq.1 hselector]
          exact List.mem_map_of_mem ((lastOfEach_sublist cs).subset hd)
        simp [hnone, hc]
      · have hfalse : (c.selector == Text.lower tag) = false := beq_eq_false_iff_ne.2 hc
        simp [hfalse]

end LastOfEach

namespace Registry

/-! ## What is registered -/

/-- Components replace those that were registered before, and all but the last of each selector. -/
theorem components_registerAll (r : Registry σ) (cs : List (Component σ)) (log : Log) :
    (r.registerAll cs log).1.components =
      r.components.filter (fun d => d.selector ∉ cs.map (·.selector)) ++ lastOfEach cs := by
  induction cs generalizing r log with
  | nil => simp [registerAll, lastOfEach]
  | cons c cs ih =>
    have hstep : r.registerAll (c :: cs) log =
      (r.register c log).1.registerAll cs (r.register c log).2 := rfl
    have hregister : (r.register c log).1.components = r.others c.selector ++ [c] := rfl
    have hothers : (r.others c.selector).filter (fun d => d.selector ∉ cs.map (·.selector)) =
        r.components.filter fun d => d.selector ∉ (c :: cs).map (·.selector) := by
      rw [others, List.filter_filter]
      refine List.filter_congr fun d _ => ?_
      simp only [bne, List.map_cons, List.mem_cons, not_or, Bool.decide_and, decide_not,
        Bool.and_comm, beq_eq_decide]
    rw [hstep, ih, hregister, List.filter_append, hothers, List.append_assoc]
    by_cases hmem : c.selector ∈ cs.map (·.selector)
    · rw [lastOfEach_cons_of_mem hmem, List.filter_singleton]
      simp [hmem]
    · rw [lastOfEach_cons_of_not_mem hmem, List.filter_singleton]
      simp [hmem]

theorem components_registerAll_empty (cs : List (Component σ)) (log : Log) :
    (empty.registerAll cs log).1.components = lastOfEach cs := by
  rw [components_registerAll]
  rfl

/-! ## What is selected -/

/-- Looking for the tag as written first makes no difference. -/
theorem get?_eq_exact_or_lower (r : Registry σ) (tag : String) :
    r.get? tag = (r.components.find? (·.selector == tag)).or
      (r.components.find? (·.selector == Text.lower tag)) := by
  cases hfind : r.components.find? (·.selector == tag) with
  | none => rfl
  | some c =>
    -- The tag is a selector, so it is in lower case.
    have htag : c.selector = tag := by simpa using List.find?_some hfind
    have hlower : Text.lower tag = tag := htag ▸ c.selector_lower
    rw [get?, hlower, hfind]
    rfl

/-- The last registration wins, whatever the case of the letters. -/
theorem get?_registerAll (cs : List (Component σ)) (log : Log) (tag : String) :
    (empty.registerAll cs log).1.get? tag = cs.reverse.find? fun c =>
      Text.sameLetters c.selector tag := by
  rw [get?, components_registerAll_empty, find?_lastOfEach]
  simp only [Component.sameLetters_selector]

theorem get?_eq_some_iff {r : Registry σ} {tag : String} {c : Component σ} :
    r.get? tag = some c ↔ c ∈ r.components ∧ c.selector = Text.lower tag := by
  constructor
  · exact fun h => ⟨mem_of_get? h, selector_of_get? h⟩
  · rintro ⟨hc, hselector⟩
    have hfound : (r.get? tag).isSome = true := List.find?_isSome.2 ⟨c, hc, beq_iff_eq.2 hselector⟩
    obtain ⟨d, hd⟩ := Option.isSome_iff_exists.1 hfound
    have hsame : c.selector = d.selector := hselector.trans (selector_of_get? hd).symm
    rw [hd, List.inj_on_of_nodup_map r.distinct hc (mem_of_get? hd) hsame]

/-- The order of the components makes no difference. -/
theorem get?_perm {r r' : Registry σ} (h : r.components.Perm r'.components) (tag : String) :
    r.get? tag = r'.get? tag :=
  Option.ext fun c => by rw [get?_eq_some_iff, get?_eq_some_iff, h.mem_iff]

/-- Dropping the registrations that do not last, and permuting the rest, leaves the components. -/
theorem components_registerAll_perm {cs ks : List (Component σ)} (h : ks.Perm (lastOfEach cs))
    (log log' : Log) :
    (empty.registerAll ks log).1.components.Perm (empty.registerAll cs log').1.components := by
  have hks : (ks.map (·.selector)).Nodup := (h.map _).nodup_iff.2 (nodup_lastOfEach cs)
  rwa [components_registerAll_empty, components_registerAll_empty, lastOfEach_of_nodup hks]

end Registry

end ReactiveMarkup
