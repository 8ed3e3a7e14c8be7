-- SUMMARY: Cutting texts at points and joining segments are inverse to each other.
import ReactiveMarkup.Path.Basic

/-!
# The texts of paths

A text is cut at its points to give a path, and the path has the text again: `Path.text_ofString`.
So texts can be compared in place of paths. A text that goes on behind another with a point in
between spells the path that goes on from the path of the other, and one path leads on from another
only if their texts go on so: `Path.ofString_point`, `Path.segments_prefix_iff`.
-/

namespace ReactiveMarkup.Path

variable {a b p q : String} {names : List String}

/-! ## Cutting a text at its points -/

theorem splitPoints_ne_nil (cs : List Char) : splitPoints cs ≠ [] := by
  cases cs with
  | nil => exact List.cons_ne_nil _ _
  | cons c cs =>
    unfold splitPoints
    split
    · exact List.cons_ne_nil _ _
    · split <;> exact List.cons_ne_nil _ _

/-- A point ends a part wherever it stands. -/
theorem splitPoints_append_point (cs ds : List Char) :
    splitPoints (cs ++ '.' :: ds) = splitPoints cs ++ splitPoints ds := by
  induction cs with
  | nil => rfl
  | cons c cs ih =>
    by_cases hc : c = '.'
    · simp [splitPoints, hc, ih]
    · obtain ⟨part, parts, hparts⟩ := List.exists_cons_of_ne_nil (splitPoints_ne_nil cs)
      simp [splitPoints, hc, ih, hparts]

/-! ## Points between names -/

theorem joinPoints_cons (name : String) (hnames : names ≠ []) :
    joinPoints (name :: names) = name ++ "." ++ joinPoints names := by
  obtain ⟨next, rest, rfl⟩ := List.exists_cons_of_ne_nil hnames
  rfl

theorem joinPoints_append {more : List String} (hnames : names ≠ []) (hmore : more ≠ []) :
    joinPoints (names ++ more) = joinPoints names ++ "." ++ joinPoints more := by
  induction names with
  | nil => exact absurd rfl hnames
  | cons name rest ih =>
    by_cases hrest : rest = []
    · subst hrest
      exact joinPoints_cons name hmore
    · rw [List.cons_append, joinPoints_cons name (by simp [hrest]), ih hrest,
        joinPoints_cons name hrest]
      simp only [String.append_assoc]

/-- A first letter belongs to the first of the names. -/
private theorem joinPoints_letter (c : Char) (part : List Char) (names : List String) :
    joinPoints (String.ofList (c :: part) :: names) =
      String.singleton c ++ joinPoints (String.ofList part :: names) := by
  cases names with
  | nil => exact String.ofList_cons
  | cons next rest => simp [joinPoints, String.ofList_cons, String.append_assoc]

/-- The parts of a text with points between them are the text. -/
private theorem joinPoints_splitPoints (cs : List Char) :
    joinPoints ((splitPoints cs).map String.ofList) = String.ofList cs := by
  induction cs with
  | nil => rfl
  | cons c cs ih =>
    obtain ⟨part, parts, hparts⟩ := List.exists_cons_of_ne_nil (splitPoints_ne_nil cs)
    rw [hparts] at ih
    by_cases hc : c = '.'
    · have hsplit : splitPoints (c :: cs) = [] :: splitPoints cs := by simp [splitPoints, hc]
      rw [hsplit, List.map_cons, hparts, joinPoints_cons _ (by simp), ih, hc, String.ofList_cons]
      rfl
    · have hsplit : splitPoints (c :: cs) = (c :: part) :: parts :=
        by simp [splitPoints, hc, hparts]
      rw [hsplit, List.map_cons, joinPoints_letter, ← List.map_cons, ih, String.ofList_cons]

/-! ## Paths and their texts -/

theorem segments_ofString (h : p ≠ "") :
    (ofString p).segments = (splitPoints p.toList).map String.ofList := by
  simp [ofString, h]

theorem segments_ofString_ne_nil (h : p ≠ "") : (ofString p).segments ≠ [] := by
  rw [segments_ofString h]
  simpa using splitPoints_ne_nil p.toList

theorem ne_empty_of_isProper (h : (ofString p).isProper = true) : p ≠ "" := by
  rintro rfl
  exact absurd h (by decide)

/-- The path that a text spells has the text. -/
@[simp] theorem text_ofString (p : String) : (ofString p).text = p := by
  by_cases h : p = ""
  · subst h
    rfl
  · rw [text, segments_ofString h, joinPoints_splitPoints, String.ofList_toList]

/-- A text that goes on behind a point spells the path that goes on. -/
theorem ofString_point (ha : a ≠ "") (hb : b ≠ "") : ofString (a ++ "." ++ b) = ofString a ++
    ofString b := by
  have hab : a ++ "." ++ b ≠ "" := by simp [ha]
  apply Path.ext
  rw [segments_append, segments_ofString ha, segments_ofString hb, segments_ofString hab]
  simp [splitPoints_append_point]

/-- One path goes on from another exactly when their texts do, with a point in between. -/
theorem segments_prefix_iff (hp : p ≠ "") :
    (ofString p).segments <+: (ofString q).segments ↔ q = p ∨ ∃ rest, q = p ++ "." ++ rest := by
  constructor
  · rintro ⟨rest, hrest⟩
    have hq : q = joinPoints ((ofString p).segments ++ rest) := by
      rw [hrest]
      exact (text_ofString q).symm
    by_cases hnil : rest = []
    · subst hnil
      rw [List.append_nil] at hq
      exact .inl (hq.trans (text_ofString p))
    · rw [joinPoints_append (segments_ofString_ne_nil hp) hnil] at hq
      exact .inr ⟨joinPoints rest, hq.trans (by rw [← text, text_ofString])⟩
  · rintro (rfl | ⟨rest, rfl⟩)
    · exact List.prefix_rfl
    · have hne : p ++ "." ++ rest ≠ "" := by simp [hp]
      refine ⟨(splitPoints rest.toList).map String.ofList, ?_⟩
      rw [segments_ofString hp, segments_ofString hne, ← List.map_append,
        ← splitPoints_append_point]
      simp

end ReactiveMarkup.Path
