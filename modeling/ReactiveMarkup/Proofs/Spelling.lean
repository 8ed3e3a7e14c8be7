-- SUMMARY: All ways to write a text with entities are decoded to the text.
import ReactiveMarkup.Markup.Entity

/-!
# Ways to write a text

A character of a text stands for itself or is written as an entity: by a name, or by its number in
base ten or sixteen. `Spells` relates a text to the ways of writing it down, and
`Entity.decode_spells` says that decoding gives the text back whichever way was chosen for each of
its characters.
-/

namespace ReactiveMarkup.Markup

/-! ## Numerals -/

/-- The character is the digit for a number below the base. Letters may be in either case. -/
def IsDigit (base d : Nat) (c : Char) : Prop :=
  d < base ∧ (c = d.digitChar ∨ c = d.digitChar.toUpper)

/-- The digits spell the number, which may begin with zeros. -/
inductive Numeral (base : Nat) : List Char → Nat → Prop
  | digit {c : Char} {d : Nat} (last : IsDigit base d c) : Numeral base [c] d
  | snoc {cs : List Char} {c : Char} {n d : Nat} (start : Numeral base cs n)
      (last : IsDigit base d c) : Numeral base (cs ++ [c]) (n * base + d)

/-! ## Spellings -/

/-- The characters that have names. -/
def entityNames : List (String × Char) :=
  [("lt", '<'), ("gt", '>'), ("amp", '&'), ("apos", '\''), ("quot", '"')]

/-- What stands between `&` and `;` for a character. -/
inductive IsEntity (c : Char) : List Char → Prop
  | named {name : String} (h : (name, c) ∈ entityNames) : IsEntity c name.toList
  | decimal {digits : List Char} (h : Numeral 10 digits c.toNat) (nonzero : c.toNat ≠ 0) :
      IsEntity c ('#' :: digits)
  | hexadecimal {digits : List Char} (h : Numeral 16 digits c.toNat) (nonzero : c.toNat ≠ 0) :
      IsEntity c ('#' :: 'x' :: digits)

/-- A way to write a text, chosen for every character by itself. Some characters may stand for
themselves. -/
inductive Spells (plain : Char → Prop) : List Char → List Char → Prop
  | nil : Spells plain [] []
  | itself {c : Char} {cs raw : List Char} (h : plain c) (rest : Spells plain cs raw) :
      Spells plain (c :: cs) (c :: raw)
  | entity {c : Char} {cs body raw : List Char} (h : IsEntity c body) (rest : Spells plain cs raw) :
      Spells plain (c :: cs) ('&' :: body ++ ';' :: raw)

namespace Entity

/-! ## Reading numerals -/

theorem digit?_of_isDigit {base d : Nat} {c : Char} (h : IsDigit base d c) (hb : base ≤ 16) :
    digit? base c = some d := by
  have htable : ∀ base ≤ 16, ∀ d < base,
      digit? base d.digitChar = some d ∧ digit? base d.digitChar.toUpper = some d := by decide
  obtain ⟨hd, rfl | rfl⟩ := h
  · exact (htable base hb d hd).1
  · exact (htable base hb d hd).2

private theorem readDigits_append (base n : Nat) (cs ds : List Char) :
    readDigits base n (cs ++ ds) = readDigits base n cs >>= fun m => readDigits base m ds := by
  induction cs generalizing n with
  | nil => rfl
  | cons c cs ih =>
    simp only [List.cons_append, readDigits]
    cases digit? base c with
    | none => rfl
    | some d =>
      by_cases hlt : n * base + d < UInt32.size
      · simp only [hlt, if_true]
        exact ih _
      · simp only [hlt, if_false]
        rfl

private theorem readDigits_numeral {base n : Nat} {cs : List Char} (h : Numeral base cs n)
    (hb : base ≤ 16) (hn : n < UInt32.size) : readDigits base 0 cs = .ok n := by
  induction h with
  | digit last =>
    simp only [readDigits, digit?_of_isDigit last hb, Nat.zero_mul, Nat.zero_add, hn, if_true]
  | @snoc cs c n d start last ih =>
    -- The number of the first digits is no greater than that of all.
    have hle : n ≤ n * base + d :=
      Nat.le_add_right_of_le (Nat.le_mul_of_pos_right n (Nat.zero_lt_of_lt last.1))
    rw [readDigits_append, ih (Nat.lt_of_le_of_lt hle hn)]
    simp only [bind, Except.bind, readDigits, digit?_of_isDigit last hb, hn, if_true]

/-- A numeral has nothing in it that would be read as something else. -/
theorem isDigit_of_numeral {base n : Nat} {cs : List Char} (h : Numeral base cs n) :
    cs ≠ [] ∧ ∀ c ∈ cs, ∃ d, IsDigit base d c := by
  induction h with
  | digit last => exact ⟨List.cons_ne_nil _ _, List.forall_mem_singleton.2 ⟨_, last⟩⟩
  | snoc start last ih =>
    refine ⟨List.append_ne_nil_of_left_ne_nil ih.1 _, fun c hc => ?_⟩
    rcases List.mem_append.1 hc with hc | hc
    · exact ih.2 c hc
    · exact List.mem_singleton.1 hc ▸ ⟨_, last⟩

theorem not_digit {base d : Nat} {c : Char} (h : IsDigit base d c) (hb : base ≤ 16) :
    c ∉ ['+', '-', 'x', ';', '&', '<', '"', '\''] := by
  have htable : ∀ d < 16, d.digitChar ∉ ['+', '-', 'x', ';', '&', '<', '"', '\''] ∧
      d.digitChar.toUpper ∉ ['+', '-', 'x', ';', '&', '<', '"', '\''] := by decide
  obtain ⟨hd, rfl | rfl⟩ := h
  · exact (htable d (Nat.lt_of_lt_of_le hd hb)).1
  · exact (htable d (Nat.lt_of_lt_of_le hd hb)).2

theorem readNumber_numeral {base n : Nat} {cs : List Char} (h : Numeral base cs n) (hb : base ≤ 16)
    (hn : n < UInt32.size) : readNumber base cs = .ok n := by
  obtain ⟨hne, hdigits⟩ := isDigit_of_numeral h
  obtain ⟨c, cs, rfl⟩ := List.exists_cons_of_ne_nil hne
  obtain ⟨d, hd⟩ := hdigits c List.mem_cons_self
  have hc : ¬ (c = '+' ∨ c = '-') := by
    have := not_digit hd hb
    simp_all
  rw [readNumber, if_neg hc, readDigits_numeral h hb hn]

/-! ## Reading entities -/

theorem toNat_lt_size (c : Char) : c.toNat < UInt32.size := c.val.toNat_lt

theorem ofCode_toNat {c : Char} (hc : c.toNat ≠ 0) : ofCode c.toNat = .ok c := by
  have hvalid : c.toNat.isValidChar := c.valid
  rw [ofCode, if_neg hc, if_pos hvalid, Char.ofNat_toNat]

/-- What stands for a character is read as that character, and ends where it should. -/
private theorem ofBody_of_isEntity {c : Char} {body : List Char} (h : IsEntity c body)
    (start : Nat) : ofBody start body = .ok c := by
  cases h with
  | @named name h =>
    have htable : ∀ p ∈ entityNames, ofName? p.1 = some p.2 ∧ p.1.toList.head? ≠ some '#'  := by
      decide
    obtain ⟨hname, hhash⟩ := htable _ h
    unfold ofBody
    split
    · next heq =>
      rw [heq] at hhash
      exact absurd rfl hhash
    · rw [String.ofList_toList, hname]
  | @decimal digits h nonzero =>
    have hx : ∀ hex, digits ≠ 'x' :: hex := by
      rintro hex rfl
      obtain ⟨d, hd⟩ := (isDigit_of_numeral h).2 'x' List.mem_cons_self
      exact absurd (not_digit hd (by decide)) (by decide)
    have hread : ofReference digits = .ok c := by
      unfold ofReference
      split
      · exact absurd rfl (hx _)
      · rw [readNumber_numeral h (by decide) (toNat_lt_size c)]
        exact ofCode_toNat nonzero
    rw [ofBody, hread]
  | @hexadecimal digits h nonzero =>
    have hread : ofReference ('x' :: digits) = .ok c := by
      rw [ofReference, readNumber_numeral h (by decide) (toNat_lt_size c)]
      exact ofCode_toNat nonzero
    rw [ofBody, hread]

/-- Nothing within an entity is taken for a mark of the markup around it. -/
theorem not_mem_of_isEntity {c : Char} {body : List Char} (h : IsEntity c body) :
    ∀ b ∈ body, b ∉ [';', '&', '<', '"', '\''] := by
  have hdigit {base n : Nat} {digits : List Char} (hn : Numeral base digits n) (hb : base ≤ 16) :
      ∀ b ∈ digits, b ∉ [';', '&', '<', '"', '\''] := by
    intro b hmem
    obtain ⟨d, hd⟩ := (isDigit_of_numeral hn).2 b hmem
    have := not_digit hd hb
    simp_all
  cases h with
  | named h =>
    have htable : ∀ p ∈ entityNames, p.1.toList.all (· ∉ [';', '&', '<', '"', '\'']) := by decide
    exact fun b hb => of_decide_eq_true (List.all_eq_true.1 (htable _ h) b hb)
  | decimal h => exact List.forall_mem_cons.2 ⟨by decide, hdigit h (by decide)⟩
  | hexadecimal h =>
    exact List.forall_mem_cons.2 ⟨by decide,
      List.forall_mem_cons.2 ⟨by decide, hdigit h (by decide)⟩⟩

private theorem cut?_append {body rest : List Char}
    (h : ∀ b ∈ body, b ∉ [';', '&', '<', '"', '\'']) :
    cut? (body ++ ';' :: rest) = some (body, rest) := by
  induction body with
  | nil => rfl
  | cons b body ih =>
    obtain ⟨hb, hbody⟩ := List.forall_mem_cons.1 h
    have hsemi : b ≠ ';' := List.ne_of_not_mem_cons hb
    have hamp : b ≠ '&' := List.ne_of_not_mem_cons (List.not_mem_of_not_mem_cons hb)
    rw [List.cons_append, cut?, if_neg hsemi, if_neg hamp, ih hbody]
    rfl

private theorem decodeWithin_plain {c : Char} (hc : c ≠ '&') (total : Nat) (rest : List Char) :
    decodeWithin total (c :: rest) = (decodeWithin total rest).map (c :: ·) := by
  rw [decodeWithin, if_neg hc]
  cases decodeWithin total rest <;> rfl

private theorem decodeWithin_entity {c : Char} {body : List Char}
    (h : IsEntity c body) (total : Nat) (rest : List Char) :
    decodeWithin total ('&' :: body ++ ';' :: rest) = (decodeWithin total rest).map (c :: ·) := by
  have hcut : cut? (body ++ ';' :: rest) = some (body, rest) := cut?_append (not_mem_of_isEntity h)
  rw [List.cons_append, decodeWithin, if_pos rfl]
  split
  · next hnone => rw [hcut] at hnone; cases hnone
  · next hsome =>
    obtain ⟨rfl, rfl⟩ := Prod.mk.inj (Option.some.inj (hcut.symm.trans hsome))
    rw [ofBody_of_isEntity h]
    cases decodeWithin total rest <;> rfl

/-- Decoding a text gives back what was written. -/
theorem decode_spells {plain : Char → Prop} {cs raw : List Char} (h : Spells plain cs raw)
    (hamp : ¬ plain '&') : decode raw = .ok (String.ofList cs) := by
  have hwithin : ∀ total, decodeWithin total raw = .ok cs := by
    intro total
    induction h with
    | nil => rw [decodeWithin]
    | @itself c cs raw hc _ ih =>
      have hne : c ≠ '&' := fun he => hamp (he ▸ hc)
      rw [decodeWithin_plain hne, ih]
      rfl
    | entity hbody _ ih =>
      rw [decodeWithin_entity hbody, ih]
      rfl
  rw [decode, hwithin]
  rfl

end Entity

/-! ## What a spelling is made of -/

theorem Spells.ne_nil {plain : Char → Prop} {cs raw : List Char} (h : Spells plain cs raw)
    (hcs : cs ≠ []) : raw ≠ [] := by
  cases h with
  | nil => exact absurd rfl hcs
  | itself => exact List.cons_ne_nil _ _
  | entity => exact List.cons_ne_nil _ _

/-- A mark of the markup around that may not stand for itself is not found in the spelling. -/
theorem Spells.not_mem {plain : Char → Prop} {cs raw : List Char} {mark : Char}
    (h : Spells plain cs raw)
    (hmark : mark ∈ ['<', '"', '\'']) (hplain : ¬ plain mark) : mark ∉ raw := by
  induction h with
  | nil => exact List.not_mem_nil
  | @itself c cs raw hc _ ih =>
    have hne : mark ≠ c := fun he => hplain (he ▸ hc)
    exact List.not_mem_cons_of_ne_of_not_mem hne ih
  | @entity c cs body raw hbody _ ih =>
    have hends : mark ≠ '&' ∧ mark ≠ ';' := by
      constructor <;> rintro rfl <;> exact absurd hmark (by decide)
    have hinside : mark ∉ body := fun hmem =>
      Entity.not_mem_of_isEntity hbody mark hmem
        (List.mem_cons_of_mem _ (List.mem_cons_of_mem _ hmark))
    rw [List.cons_append, List.mem_cons, List.mem_append, List.mem_cons]
    rintro (he | he | he | he)
    · exact hends.1 he
    · exact hinside he
    · exact hends.2 he
    · exact ih he

end ReactiveMarkup.Markup
