-- SUMMARY: Comparing texts without regard to the case of ASCII letters.
/-!
# Letter case

Tags and selectors are compared without regard to the case of the ASCII letters; all other
characters count as they are.
-/

namespace ReactiveMarkup.Text

/-- The text with its ASCII letters in lower case. -/
def lower (s : String) : String := String.ofList (s.toList.map Char.toLower)

/-- Whether two texts are equal up to the case of ASCII letters. -/
def sameLetters (s t : String) : Bool := s.toList.map Char.toLower == t.toList.map Char.toLower

private theorem toLower_toLower (c : Char) : c.toLower.toLower = c.toLower := by
  unfold Char.toLower
  split
  · next h =>
    -- a letter moved by 32 is no capital any more
    have : ¬ (65 ≤ (c.val + 32) ∧ (c.val + 32) ≤ 90) := by
      have h₁ := h.1
      have h₂ := h.2
      simp only [UInt32.le_iff_toNat_le, UInt32.toNat_add] at *
      simp at *
      omega
    simp [this]
  · rfl

/-- A text in lower case stays as it is. -/
@[simp] theorem lower_lower (s : String) : lower (lower s) = lower s := by
  simp only [lower, String.toList_ofList, List.map_map, Function.comp_def, toLower_toLower]

theorem sameLetters_iff {s t : String} : sameLetters s t = true ↔ lower s = lower t := by
  simp [sameLetters, lower, String.ofList_inj]

end ReactiveMarkup.Text
