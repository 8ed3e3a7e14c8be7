-- SUMMARY: Positions and byte offsets name the same character boundaries.
import Mathlib.Data.List.Induction
import Mathlib.Data.Prod.Lex
import Mathlib.Order.Bounds.Basic
import ReactiveMarkup.Markup.Position

/-!
# Positions and offsets

A position stands for a place of the text: `Position.walk?` finds it by passing line ends, and then
characters of the line. An offset within a character, or behind the end, stands for the last
boundary before it, which is where stepping back from it stops. `Position.ofOffset_locates` says
that the position of an offset stands for that boundary, and that positions are ordered as
boundaries are.
-/

namespace ReactiveMarkup.Markup

/-! ## Boundaries -/

/-- Whether a character begins at the offset, or the text ends there. -/
def isBoundary : List Char → Nat → Bool
  | _, 0 => true
  | [], _ + 1 => false
  | c :: cs, offset + 1 => c.utf8Size ≤ offset + 1 && isBoundary cs (offset + 1 - c.utf8Size)

/-- Goes back from the offset, byte by byte, until there is a boundary. There is no result if that
leads out of the text. -/
def stepBack? (cs : List Char) : Nat → Option Nat
  | 0 => if isBoundary cs 0 then some 0 else none
  | offset + 1 => if isBoundary cs (offset + 1) then some (offset + 1) else stepBack? cs offset

/-- The boundary at which stepping back from an offset stops. Offsets behind the end count as the
end. -/
def boundaryBefore? (cs : List Char) (offset : Nat) : Option Nat :=
  stepBack? cs (min offset (byteLength cs))

/-- The boundaries of a text are the lengths of its first parts. -/
theorem isBoundary_iff {cs : List Char} {offset : Nat} :
    isBoundary cs offset = true ↔ ∃ before, before <+: cs ∧ byteLength before = offset := by
  induction cs generalizing offset with
  | nil => cases offset <;> simp [isBoundary]
  | cons c cs ih =>
    cases offset with
    | zero => simpa [isBoundary] using ⟨[], List.nil_prefix, rfl⟩
    | succ offset =>
      simp only [isBoundary, Bool.and_eq_true, decide_eq_true_eq, ih]
      constructor
      · rintro ⟨hle, before, hprefix, hlength⟩
        refine ⟨c :: before, (List.prefix_cons_inj c).2 hprefix, ?_⟩
        rw [byteLength_cons, hlength]
        omega
      · rintro ⟨before, hprefix, hlength⟩
        cases before with
        | nil => cases hlength
        | cons d before =>
          obtain ⟨rfl, hbefore⟩ := List.cons_prefix_cons.1 hprefix
          rw [byteLength_cons] at hlength
          exact ⟨by omega, before, hbefore, by omega⟩

/-- Stepping back does not leave the text, and stops at the last boundary. -/
private theorem exists_stepBack? (cs : List Char) (offset : Nat) :
    ∃ b, stepBack? cs offset = some b ∧ IsGreatest {b | isBoundary cs b = true ∧ b ≤ offset} b := by
  induction offset with
  | zero =>
    have hzero : isBoundary cs 0 = true := by rw [isBoundary]
    exact ⟨0, by rw [stepBack?, if_pos hzero], ⟨hzero, Nat.le_refl 0⟩, fun b hb => hb.2⟩
  | succ offset ih =>
    by_cases h : isBoundary cs (offset + 1) = true
    · exact ⟨offset + 1, by rw [stepBack?, if_pos h], ⟨h, Nat.le_refl _⟩, fun b hb => hb.2⟩
    · obtain ⟨b, hback, ⟨hb, hle⟩, hgreatest⟩ := ih
      refine ⟨b, by rw [stepBack?, if_neg h, hback], ⟨hb, Nat.le_succ_of_le hle⟩, ?_⟩
      rintro b' ⟨hb', hle'⟩
      -- The offset itself is no boundary, so a boundary up to it comes before it.
      have hne : b' ≠ offset + 1 := fun he => h (he ▸ hb')
      exact hgreatest ⟨hb', by omega⟩

/-- First parts of a text are equal if they have the same length. -/
theorem eq_of_byteLength {before before' cs : List Char} (h : before <+: cs) (h' : before' <+: cs)
    (hlength : byteLength before = byteLength before') : before = before' := by
  obtain ⟨more, rfl⟩ | ⟨more, rfl⟩ := List.prefix_or_prefix_of_prefix h h' <;> cases more with
  | nil => simp
  | cons c more =>
    have hsize := c.utf8Size_pos
    simp only [byteLength_append, byteLength_cons] at hlength
    omega

namespace Position

/-! ## Places of a text -/

/-- Positions in the order of reading: by lines, and by columns within a line. -/
def key (p : Position) : ℕ ×ₗ ℕ := toLex (p.line, p.column)

/-- The position behind a text: its line ends are counted, and the characters behind the last of
them. -/
def behind (before : List Char) : Position :=
  ⟨before.count '\n' + 1, (before.reverse.takeWhile (· != '\n')).length + 1⟩

/-- Passes as many line ends. The result is what was passed, and what is left. -/
def skipLines? : Nat → List Char → Option (List Char × List Char)
  | 0, cs => some ([], cs)
  | _ + 1, [] => none
  | count + 1, c :: cs =>
    (skipLines? (if c = '\n' then count else count + 1) cs).map fun (before, after) =>
      (c :: before, after)

/-- The text before the position and the text behind it: from the start, all line ends but one for
every line are passed, and then all characters but one for every column. -/
def walk? (p : Position) (cs : List Char) : Option (List Char × List Char) := do
  let (lines, rest) ← skipLines? (p.line - 1) cs
  if p.column - 1 ≤ rest.length then
    some (lines ++ rest.take (p.column - 1), rest.drop (p.column - 1))
  else none

theorem behind_concat (before : List Char) (c : Char) : behind
    (before ++ [c]) = (behind before).next c := by
  by_cases hc : c = '\n'
  · simp [behind, next, hc]
  · simp [behind, next, hc]

private theorem foldl_next_start (before : List Char) : before.foldl next start =
    behind before := by
  induction before using List.reverseRecOn with
  | nil => rfl
  | append_singleton before c ih =>
    rw [List.foldl_append, ih, behind_concat]
    rfl

theorem key_lt_next (p : Position) (c : Char) : p.key < (p.next c).key := by
  unfold next key
  split
  · exact Prod.Lex.toLex_lt_toLex.2 (.inl (Nat.lt_succ_self _))
  · exact Prod.Lex.toLex_lt_toLex.2 (.inr ⟨rfl, Nat.lt_succ_self _⟩)

private theorem key_lt_behind (before : List Char) (c : Char) (more : List Char) :
    (behind before).key < (behind (before ++ c :: more)).key := by
  induction more generalizing before c with
  | nil =>
    rw [behind_concat]
    exact key_lt_next _ c
  | cons d more ih =>
    rw [List.append_cons]
    refine lt_trans ?_ (ih (before ++ [c]) d)
    rw [behind_concat]
    exact key_lt_next _ c

/-- Positions behind first parts of a text are ordered as their lengths are. -/
theorem key_behind_lt {before before' cs : List Char} (h : before <+: cs) (h' : before' <+: cs)
    (hlt : byteLength before < byteLength before') : (behind before).key <
    (behind before').key := by
  obtain ⟨more, rfl⟩ | ⟨more, rfl⟩ := List.prefix_or_prefix_of_prefix h h'
  · cases more with
    | nil => simp at hlt
    | cons c more => exact key_lt_behind before c more
  · rw [byteLength_append] at hlt
    omega

theorem key_behind_lt_iff {before before' cs : List Char} (h : before <+: cs)
    (h' : before' <+: cs) :
    (behind before).key < (behind before').key ↔ byteLength before < byteLength before' := by
  refine ⟨fun hkey => ?_, key_behind_lt h h'⟩
  by_contra hle
  rcases Nat.eq_or_lt_of_not_lt hle with heq | hlt
  · obtain rfl := eq_of_byteLength h h' heq
    exact lt_irrefl _ hkey
  · exact lt_asymm hkey (key_behind_lt h' h hlt)

theorem behind_eq_iff {before before' cs : List Char} (h : before <+: cs) (h' : before' <+: cs) :
    behind before = behind before' ↔ byteLength before = byteLength before' := by
  refine ⟨fun heq => ?_, fun heq => by rw [eq_of_byteLength h h' heq]⟩
  have hle := (key_behind_lt_iff h h').not.1 (by rw [heq]; exact lt_irrefl _)
  have hge := (key_behind_lt_iff h' h).not.1 (by rw [heq]; exact lt_irrefl _)
  omega

/-! ## Walking to a position -/

/-- Lines that have their ends are passed as a whole. -/
private theorem skipLines?_append {lines : List Char} (hlines : ∀ c ∈ lines.getLast?, c = '\n')
    (rest : List Char) : skipLines? (lines.count '\n') (lines ++ rest) = some (lines, rest) := by
  induction lines with
  | nil => simp [skipLines?]
  | cons c lines ih =>
    have hrest : ∀ c ∈ lines.getLast?, c = '\n' :=
      fun d hd => hlines d (by simp_all [List.getLast?_cons])
    by_cases hc : c = '\n'
    · subst hc
      rw [List.count_cons_self, List.cons_append, skipLines?, if_pos rfl, ih hrest]
      rfl
    · -- The line goes on, so its end is still to come.
      obtain ⟨count, hcount⟩ : ∃ count, lines.count '\n' = count + 1 := by
        cases hlast : lines.getLast? with
        | none =>
          obtain rfl : lines = [] := List.getLast?_eq_none_iff.1 hlast
          exact absurd (hlines c rfl) hc
        | some d =>
          obtain rfl := hrest d hlast
          exact Nat.exists_eq_succ_of_ne_zero
            (List.count_pos_iff.2 (List.mem_of_getLast? hlast)).ne'
      rw [List.count_cons_of_ne hc, hcount, List.cons_append, skipLines?, if_neg hc,
        ← hcount, ih hrest]
      rfl

/-- A text is made of lines that have their ends and the line that it ends in. -/
private theorem exists_lines (before : List Char) :
    ∃ lines line, before = lines ++ line ∧ (∀ c ∈ lines.getLast?, c = '\n') ∧ '\n' ∉ line := by
  induction before using List.reverseRecOn with
  | nil => exact ⟨[], [], rfl, by simp, by simp⟩
  | append_singleton before c ih =>
    obtain ⟨lines, line, rfl, hlines, hline⟩ := ih
    by_cases hc : c = '\n'
    · exact ⟨lines ++ line ++ [c], [], by simp, by simp [hc], by simp⟩
    · exact ⟨lines, line ++ [c], by simp, hlines, by simp [hline, Ne.symm hc]⟩

private theorem behind_append {lines line : List Char} (hlines : ∀ c ∈ lines.getLast?, c = '\n')
    (hline : '\n' ∉ line) : behind (lines ++ line) = ⟨lines.count '\n' + 1, line.length + 1⟩ := by
  have hline' : ∀ c ∈ line.reverse, (c != '\n') = true := by
    intro c hc
    rw [bne_iff_ne]
    rintro rfl
    exact hline (List.mem_reverse.1 hc)
  have hstop : lines.reverse.takeWhile (· != '\n') = [] := by
    cases hlast : lines.reverse with
    | nil => rfl
    | cons c rest =>
      have hc : c = '\n' := hlines c (by rw [List.getLast?_eq_head?_reverse, hlast]; rfl)
      simp [hc]
  rw [behind, List.count_append, List.count_eq_zero.2 hline, List.reverse_append,
    List.takeWhile_append_of_pos hline', hstop]
  simp

/-- The position behind a first part of a text leads to where that ends. -/
private theorem walk?_behind (before after : List Char) :
    (behind before).walk? (before ++ after) = some (before, after) := by
  obtain ⟨lines, line, rfl, hlines, hline⟩ := exists_lines before
  rw [behind_append hlines hline, walk?, List.append_assoc]
  simp only [Nat.add_sub_cancel, skipLines?_append hlines]
  simp

/-! ## Positions of offsets -/

/-- The characters that end within an offset are a first part of the text, and no longer one
does. -/
private theorem exists_advance (p : Position) (offset : Nat) (cs : List Char) :
    ∃ before, before <+: cs ∧ p.advance offset cs = before.foldl next p ∧
    byteLength before ≤ offset ∧
      ∀ before', before' <+: cs → byteLength before' ≤ offset →
      byteLength before' ≤ byteLength before := by
  induction cs generalizing p offset with
  | nil =>
    refine ⟨[], List.prefix_rfl, rfl, Nat.zero_le _, fun before' hprefix _ => ?_⟩
    rw [List.prefix_nil.1 hprefix]
  | cons c cs ih =>
    by_cases hc : c.utf8Size ≤ offset
    · obtain ⟨before, hprefix, hadvance, hle, hlongest⟩ := ih (p.next c) (offset - c.utf8Size)
      refine ⟨c :: before, (List.prefix_cons_inj c).2 hprefix, ?_, ?_,
        fun before' hprefix' hle' => ?_⟩
      · rw [advance, if_pos hc, hadvance]
        rfl
      · rw [byteLength_cons]
        omega
      · cases before' with
        | nil => exact Nat.zero_le _
        | cons d before' =>
          obtain ⟨rfl, hbefore'⟩ := List.cons_prefix_cons.1 hprefix'
          simp only [byteLength_cons] at hle' ⊢
          have := hlongest before' hbefore' (by omega)
          omega
    · refine ⟨[], List.nil_prefix, by rw [advance, if_neg hc]; rfl, Nat.zero_le _,
        fun before' hprefix' hle' => ?_⟩
      cases before' with
      | nil => exact Nat.le_refl _
      | cons d before' =>
        obtain ⟨rfl, -⟩ := List.cons_prefix_cons.1 hprefix'
        rw [byteLength_cons] at hle'
        omega

/-- The position of an offset is that behind the text up to the last boundary before the offset. -/
theorem ofOffset_eq_behind (markup : List Char) (offset : Nat) :
    ∃ before, before <+: markup ∧ ofOffset markup offset = behind before ∧
      boundaryBefore? markup offset = some (byteLength before) ∧
      IsGreatest {b | isBoundary markup b = true ∧
        b ≤ min offset (byteLength markup)} (byteLength before) := by
  obtain ⟨before, hprefix, hadvance, hle, hlongest⟩ := exists_advance start offset markup
  obtain ⟨b, hback, hgreatest⟩ := exists_stepBack? markup (min offset (byteLength markup))
  obtain ⟨before', hprefix', rfl⟩ := isBoundary_iff.1 hgreatest.1.1
  have hshorter : byteLength before' ≤ byteLength before :=
    hlongest before' hprefix' (Nat.le_trans hgreatest.1.2 (Nat.min_le_left _ _))
  have hlonger : byteLength before ≤ byteLength before' := by
    obtain ⟨after, rfl⟩ := hprefix
    refine hgreatest.2 ⟨isBoundary_iff.2 ⟨before, List.prefix_append _ _, rfl⟩, ?_⟩
    rw [byteLength_append]
    omega
  obtain rfl := eq_of_byteLength hprefix' hprefix (Nat.le_antisymm hshorter hlonger)
  exact ⟨before', hprefix, by rw [ofOffset, hadvance, foldl_next_start], hback, hgreatest⟩

/-- The position of an offset at which the text is cut is that behind the first part. -/
theorem ofOffset_byteLength (before after : List Char) :
    ofOffset (before ++ after) (byteLength before) = behind before := by
  obtain ⟨before', hprefix, hposition, -, ⟨-, hle⟩, hlast⟩ :=
    ofOffset_eq_behind (before ++ after) (byteLength before)
  have hcut : before <+: before ++ after := List.prefix_append before after
  have hge : byteLength before ≤ byteLength before' :=
    hlast ⟨isBoundary_iff.2 ⟨before, hcut, rfl⟩, by rw [byteLength_append]; omega⟩
  rw [hposition, eq_of_byteLength hprefix hcut (by omega)]

/-- Stepping back from an offset stops at the last boundary before it, and that is where the
position of the offset leads to. Positions of offsets are ordered as these boundaries, and equal as
they are. -/
theorem ofOffset_locates (markup : List Char) :
    (∀ offset, ∃ before after, markup = before ++ after ∧
      boundaryBefore? markup offset = some (byteLength before) ∧
      IsGreatest {b | isBoundary markup b = true ∧
        b ≤ min offset (byteLength markup)} (byteLength before) ∧
      (ofOffset markup offset).walk? markup = some (before, after)) ∧
    ∀ offset offset', ∃ b b', boundaryBefore? markup offset = some b ∧
      boundaryBefore? markup offset' = some b' ∧
      ((ofOffset markup offset).key < (ofOffset markup offset').key ↔ b < b') ∧
      (ofOffset markup offset = ofOffset markup offset' ↔ b = b') := by
  constructor
  · intro offset
    obtain ⟨before, ⟨after, rfl⟩, hposition, hback, hgreatest⟩ := ofOffset_eq_behind markup offset
    refine ⟨before, after, rfl, hback, hgreatest, ?_⟩
    rw [hposition, walk?_behind]
  · intro offset offset'
    obtain ⟨before, hprefix, hposition, hback, -⟩ := ofOffset_eq_behind markup offset
    obtain ⟨before', hprefix', hposition', hback', -⟩ := ofOffset_eq_behind markup offset'
    refine ⟨byteLength before, byteLength before', hback, hback', ?_, ?_⟩
    · rw [hposition, hposition', key_behind_lt_iff hprefix hprefix']
    · rw [hposition, hposition', behind_eq_iff hprefix hprefix']

/-- Offsets within the second character, at the end of the line and behind the text. -/
example : [1, 2, 3, 4, 9].map (ofOffset ['a', 'é', '\n', 'b']) =
    [⟨1, 2⟩, ⟨1, 2⟩, ⟨1, 3⟩, ⟨2, 1⟩, ⟨2, 2⟩] := by decide

end Position

end ReactiveMarkup.Markup
