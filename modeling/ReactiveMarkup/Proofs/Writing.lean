-- SUMMARY: The ways to write a forest as markup, part by part.
import ReactiveMarkup.Markup.Forest
import ReactiveMarkup.Proofs.Spelling
import ReactiveMarkup.Text.Alphabetic
import ReactiveMarkup.Text.Numeric

/-!
# Ways to write a forest

`Writes` relates a forest of template nodes to the ways of writing it as markup: which quotes are
used, where space is left, how every character is spelled, whether an element without children has
an end tag, and where comments and instructions stand. Each part of what is written is read as one
event, up to where it ends and no further.
-/

namespace ReactiveMarkup.Markup

/-! ## The parts of a tag -/

/-- Letters, digits, and the marks that may stand in a name. -/
def isNameCharacter (c : Char) : Bool :=
  Text.isAlphabetic c || Text.isNumeric c || c == '-' || c == '_' || c == '.' || c == ':'

/-- A name of an element or of an attribute. -/
def IsName (name : String) : Prop := name.toList ≠ [] ∧ ∀ c ∈ name.toList, isNameCharacter c = true

/-- Space between the parts of a tag. -/
def IsGap (cs : List Char) : Prop := ∀ c ∈ cs, isSpace c = true

instance : DecidablePred IsName := fun _ => @instDecidableAnd _ _ _ (List.decidableBAll _ _)

instance : DecidablePred IsGap := fun _ => List.decidableBAll _ _

/-- The characters that may stand for themselves between quotes. -/
def IsQuotable (quote c : Char) : Prop := c ≠ '&' ∧ c ≠ quote

/-- The characters that may stand for themselves in a text. -/
def IsPlain (c : Char) : Prop := c ≠ '&' ∧ c ≠ '<'

/-- A way to write attributes. -/
inductive WritesAttributes : List Attribute → List Char → Prop
  | nil : WritesAttributes [] []
  | cons {a : Attribute} {as : List Attribute} {before left right raw rest : List Char}
      {quote : Char}
      (name : IsName a.name) (apart : before ≠ []) (gaps : IsGap (before ++ left ++ right))
      (quoted : quote = '"' ∨ quote = '\'') (value : Spells (IsQuotable quote) a.value.toList raw)
      (others : WritesAttributes as rest) :
      WritesAttributes (a :: as)
        (before ++ (a.name.toList ++ (left ++ '=' :: (right ++ quote :: (raw ++ quote :: rest)))))

/-- A way to write a name and attributes as the content of a tag. -/
inductive WritesTag (tag : String) (attributes : List Attribute) : List Char → Prop
  | mk {raw after : List Char} (name : IsName tag) (distinct : (attributes.map (·.name)).Nodup)
      (written : WritesAttributes attributes raw) (gap : IsGap after) :
      WritesTag tag attributes (tag.toList ++ (raw ++ after))

/-! ## Forests -/

/-- A text ends at a tag, or at the end of the markup. -/
def EndsText (rest : List Char) : Prop := ∀ c ∈ rest.head?, c = '<'

/-- A way to write a forest, outside all elements or inside of one. Comments and instructions may
stand anywhere but within a text. Outside of elements there may also be blank texts, which are no
part of the forest; so no text of the forest is blank there. -/
inductive Writes : (outside : Bool) → List Node → List Char → Prop
  | nil {outside : Bool} : Writes outside [] []
  | comment {outside : Bool} {ns : List Node} {content rest : List Char}
      (closed : ¬ ['-', '-'] <:+: content) (others : Writes outside ns rest) :
      Writes outside ns (['<', '!', '-', '-'] ++ content ++ ['-', '-', '>'] ++ rest)
  | instruction {outside : Bool} {ns : List Node} {content rest : List Char}
      (closed : ¬ ['?', '>'] <:+: '?' :: content) (others : Writes outside ns rest) :
      Writes outside ns (['<', '?'] ++ content ++ ['?', '>'] ++ rest)
  | blank {ns : List Node} {content raw rest : List Char} (nonempty : content ≠ [])
      (blank : content.all Text.isBlank = true) (spelled : Spells IsPlain content raw)
      (stop : EndsText rest) (others : Writes true ns rest) : Writes true ns (raw ++ rest)
  | text {outside : Bool} {ns : List Node} {content : String} {raw rest : List Char}
      (nonempty : content ≠ "") (seen : outside = true → Text.allBlank content = false)
      (spelled : Spells IsPlain content.toList raw) (stop : EndsText rest)
      (others : Writes outside ns rest) :
      Writes outside (.text content :: ns) (raw ++ rest)
  | empty {outside : Bool} {ns : List Node} {tag : String} {attributes : List Attribute}
      {content rest : List Char} (written : WritesTag tag attributes content)
      (others : Writes outside ns rest) :
      Writes outside (.element tag attributes [] :: ns) (['<'] ++ content ++ ['/', '>'] ++ rest)
  | element {outside : Bool} {ns children : List Node} {tag : String} {attributes : List Attribute}
      {content inner after rest : List Char} (written : WritesTag tag attributes content)
      (inside : Writes false children inner) (gap : IsGap after) (others : Writes outside ns rest) :
      Writes outside (.element tag attributes children :: ns)
        (['<'] ++ content ++ ['>'] ++ inner ++ ['<', '/'] ++ tag.toList ++ after ++ ['>'] ++ rest)

/-! ## Where the parts end -/

/-- Reading on while a condition holds gives what was written, if it does not hold of what
follows. -/
theorem span_written {p : Char → Bool} {cs rest : List Char} (hcs : ∀ c ∈ cs, p c = true)
    (hrest : ∀ c ∈ rest.head?, p c = false) :
    (cs ++ rest).takeWhile p = cs ∧ (cs ++ rest).dropWhile p = rest := by
  have hstop : rest.takeWhile p = [] ∧ rest.dropWhile p = rest := by
    cases rest with
    | nil => exact ⟨rfl, rfl⟩
    | cons c rest => simp [hrest c rfl]
  constructor
  · rw [List.takeWhile_append_of_pos hcs, hstop.1, List.append_nil]
  · rw [List.dropWhile_append_of_pos hcs, hstop.2]

/-- The quote around a value does not stand within it. -/
theorem quote_not_mem {quote : Char} {cs raw : List Char} (h : Spells (IsQuotable quote) cs raw)
    (hquote : quote = '"' ∨ quote = '\'') : quote ∉ raw :=
  h.not_mem (by rcases hquote with rfl | rfl <;> decide) (fun h => h.2 rfl)

/-! ## Names and spaces -/

theorem not_special {c : Char} (h : isNameCharacter c = true) :
    c ∉ [' ', '\t', '\r', '\n', '=', '>', '/', '"', '\'', '!', '?'] := by
  have htable :
      [' ', '\t', '\r', '\n', '=', '>', '/', '"', '\'', '!', '?'].all (!isNameCharacter ·) := by
    decide
  intro hc
  have hnot := List.all_eq_true.1 htable c hc
  rw [h] at hnot
  cases hnot

theorem isSpace_iff {c : Char} : isSpace c = true ↔ c ∈ [' ', '\t', '\r', '\n'] := by
  simp [isSpace, or_assoc]

theorem isSpace_of_name {c : Char} (h : isNameCharacter c = true) : isSpace c = false := by
  have := not_special h
  rw [Bool.eq_false_iff, ne_eq, isSpace_iff]
  simp_all

/-- No character of a name ends the name. -/
theorem IsName.isNameChar {name : String} (h : IsName name) :
    ∀ c ∈ name.toList, Tag.isNameChar c = true := by
  intro c hc
  have hspace : isSpace c = false := isSpace_of_name (h.2 c hc)
  have hequals : c ≠ '=' := by
    have := not_special (h.2 c hc)
    simp_all
  simp [Tag.isNameChar, hspace, hequals]

theorem IsGap.of_append {cs ds : List Char} (h : IsGap (cs ++ ds)) : IsGap cs ∧ IsGap ds :=
  List.forall_mem_append.1 h

/-- A gap is passed over, whatever follows. -/
theorem IsGap.dropWhile {cs : List Char} (h : IsGap cs) (rest : List Char) :
    (cs ++ rest).dropWhile isSpace = rest.dropWhile isSpace :=
  List.dropWhile_append_of_pos h

theorem EndsText.append {cs rest : List Char} (h : EndsText cs) (hrest : EndsText rest) :
    EndsText (cs ++ rest) := by
  cases cs with
  | nil => exact hrest
  | cons c cs => exact h

/-! ## Attributes -/

namespace Tag

/-- A quoted value is read up to its closing quote. -/
private theorem readValue_quoted {quote : Char} {raw : List Char}
    (hquote : quote = '"' ∨ quote = '\'') (hraw : quote ∉ raw) (total : Nat) (rest : List Char) :
    readValue total (quote :: (raw ++ quote :: rest)) = .ok (raw, rest) := by
  have hinside : ∀ c ∈ raw, (c != quote) = true := by
    intro c hc
    rw [bne_iff_ne]
    rintro rfl
    exact hraw hc
  obtain ⟨htake, hdrop⟩ := @span_written (· != quote) raw (quote :: rest) hinside (by simp)
  rw [readValue, if_pos hquote, hdrop, htake]

/-- One attribute is read as written, whatever follows it. -/
private theorem readAttribute_written {name : String} {before left right raw : List Char}
    {quote : Char}
    (hname : IsName name) (hgaps : IsGap (before ++ left ++ right))
    (hquote : quote = '"' ∨ quote = '\'')
    (hraw : quote ∉ raw) (total : Nat) {seen : List (List Char × Nat)}
    (hseen : name.toList ∉ seen.map (·.1)) (rest : List Char) :
    readAttribute total seen
        (before ++ (name.toList ++ (left ++ '=' :: (right ++ quote :: (raw ++ quote :: rest))))) =
      .ok (some ⟨total - byteLength
          (name.toList ++ (left ++ '=' :: (right ++ quote :: (raw ++ quote :: rest)))),
        name.toList, raw, rest⟩) := by
  obtain ⟨⟨hbefore, hleft⟩, hright⟩ := hgaps.of_append.imp_left IsGap.of_append
  obtain ⟨k, ks, hk⟩ := List.exists_cons_of_ne_nil hname.1
  have hkspace : ¬ isSpace k = true := by
    rw [isSpace_of_name (hname.2 k (hk ▸ List.mem_cons_self))]
    decide
  have hks : ∀ c ∈ ks, isNameChar c = true := fun c hc =>
    hname.isNameChar c (hk ▸ List.mem_cons_of_mem _ hc)
  -- Neither a space nor `=` belongs to a name, so the name ends at the gap or at `=`.
  have hspan (tail : List Char) : (ks ++ (left ++ '=' :: tail)).takeWhile isNameChar = ks ∧
      (ks ++ (left ++ '=' :: tail)).dropWhile isNameChar = left ++ '=' :: tail := by
    refine span_written hks ?_
    cases left with
    | nil => simp [isNameChar]
    | cons c left =>
      have hc : isSpace c = true := hleft c List.mem_cons_self
      simp [isNameChar, hc]
  have hequals (tail : List Char) : ('=' :: tail).dropWhile isSpace = '=' :: tail :=
    List.dropWhile_cons_of_neg (by decide)
  have hopen (tail : List Char) : (quote :: tail).dropWhile isSpace = quote :: tail := by
    rcases hquote with rfl | rfl <;> exact List.dropWhile_cons_of_neg (by decide)
  have hfind : seen.find? (·.1 == k :: ks) = none := by
    rw [List.find?_eq_none]
    intro p hp he
    exact hseen (List.mem_map.2 ⟨p, hp, by rw [hk]; exact eq_of_beq he⟩)
  rw [readAttribute, hbefore.dropWhile, hk, List.cons_append, List.dropWhile_cons_of_neg hkspace]
  simp only [(hspan _).1, (hspan _).2, hleft.dropWhile, hequals, if_true, hfind,
    hright.dropWhile, hopen, readValue_quoted hquote hraw]
  rfl

/-- Reading the attributes from some point of the tag on gives those that are written there. -/
private theorem attributesFrom_written {as : List Attribute} {raw : List Char}
    (h : WritesAttributes as raw)
    {after : List Char} (hafter : IsGap after) (tag : String) (total : Nat)
    (seen : List (List Char × Nat))
    (hdistinct : (seen.map (·.1) ++ as.map (·.name.toList)).Nodup) :
    attributesFrom tag total seen (raw ++ after) = .ok as := by
  induction h generalizing seen with
  | nil =>
    have hnone : readAttribute total seen ([] ++ after) = .ok none := by
      rw [readAttribute, ← List.append_nil ([] ++ after), List.nil_append, hafter.dropWhile]
      rfl
    rw [attributesFrom]
    split
    · next heq => cases hnone.symm.trans heq
    · rfl
    · next heq => cases hnone.symm.trans heq
  | @cons a as before left right raw rest quote name apart gaps quoted value others ih =>
    have hraw : quote ∉ raw := quote_not_mem value quoted
    have hseen : a.name.toList ∉ seen.map (·.1) := by
      intro hmem
      exact (List.nodup_append.1 hdistinct).2.2 _ hmem _ List.mem_cons_self rfl
    have hread := readAttribute_written name gaps quoted hraw total hseen (rest ++ after)
    have hdecode : Entity.decode raw = .ok a.value := by
      rw [Entity.decode_spells value (fun h => h.1 rfl), String.ofList_toList]
    have hothers := ih (seen ++ [(a.name.toList, total - byteLength (a.name.toList ++
      (left ++ '=' :: (right ++ quote :: (raw ++ quote :: (rest ++ after))))))])
        (by simpa using hdistinct)
    have hsplit :
        before ++ (a.name.toList ++ (left ++ '=' :: (right ++ quote :: (raw ++ quote :: rest)))) ++
        after = before ++ (a.name.toList ++
          (left ++ '=' :: (right ++ quote :: (raw ++ quote :: (rest ++ after))))) := by
      simp
    rw [hsplit, attributesFrom]
    split
    · next heq => cases hread.symm.trans heq
    · next heq => cases hread.symm.trans heq
    · next found heq =>
      obtain rfl := Option.some.inj (Except.ok.inj (hread.symm.trans heq))
      simp only [hdecode, hothers, String.ofList_toList]
      rfl

end Tag

namespace WritesAttributes

/-- What follows the name of the tag does not belong to it. -/
private theorem head_isSpace {as : List Attribute} {raw after : List Char}
    (h : WritesAttributes as raw)
    (hafter : IsGap after) : ∀ c ∈ (raw ++ after).head?, isSpace c = true := by
  intro c hc
  cases h with
  | nil => exact hafter c (List.mem_of_mem_head? hc)
  | @cons a as before left right raw rest quote name apart gaps quoted value others =>
    obtain ⟨b, before, rfl⟩ := List.exists_cons_of_ne_nil apart
    obtain rfl : b = c := by simpa using hc
    exact gaps b List.mem_cons_self

end WritesAttributes

/-- The name and the attributes of a tag are read as written. -/
theorem WritesTag.readTag {tag : String} {attributes : List Attribute} {content : List Char}
    (h : WritesTag tag attributes content) :
    Tag.name ⟨content⟩ = tag.toList ∧ Forest.readTag ⟨content⟩ = .ok (tag, attributes) := by
  obtain @⟨raw, after, name, distinct, written, gap⟩ := h
  have hletters : ∀ c ∈ tag.toList, (!isSpace c) = true := fun c hc => by
    rw [isSpace_of_name (name.2 c hc)]
    rfl
  obtain ⟨hname, hafter⟩ : Tag.name ⟨tag.toList ++ (raw ++ after)⟩ = tag.toList ∧
      Tag.afterName ⟨tag.toList ++ (raw ++ after)⟩ = raw ++ after :=
    span_written hletters fun c hc => by rw [written.head_isSpace gap c hc]; rfl
  have hdistinct : (attributes.map (·.name.toList)).Nodup :=
    List.pairwise_map.2 ((List.pairwise_map.1 distinct).imp fun hne he =>
      hne (String.toList_injective he))
  have hread : Tag.attributes ⟨tag.toList ++ (raw ++ after)⟩ = .ok attributes := by
    rw [Tag.attributes, hafter]
    exact Tag.attributesFrom_written written gap _ _ [] hdistinct
  refine ⟨hname, ?_⟩
  rw [Forest.readTag, hread, hname, String.ofList_toList]

/-! ## Where tags end -/

namespace Event

/-- The characters are no reason for a tag to end, whatever follows them. -/
def Passes (cs : List Char) : Prop :=
  ∀ rest, cutTag? none (cs ++ rest) = (cutTag? none rest).map fun (body, rest) => (cs ++ body, rest)

namespace Passes

theorem nil : Passes [] := fun rest => by
  cases h : cutTag? none rest <;> simp [h]

theorem append {cs ds : List Char} (hcs : Passes cs) (hds : Passes ds) : Passes (cs ++ ds) :=
  fun rest => by
  rw [List.append_assoc, hcs, hds, Option.map_map]
  simp [Function.comp_def]

/-- The tag goes on behind characters that are neither `>` nor quotes. -/
theorem of_plain {cs : List Char} (h : ∀ c ∈ cs, c ∉ ['>', '"', '\'']) : Passes cs := by
  induction cs with
  | nil => exact nil
  | cons c cs ih =>
    obtain ⟨hc, hcs⟩ := List.forall_mem_cons.1 h
    have hstep : Passes [c] := fun rest => by
      simp only [List.mem_cons, List.not_mem_nil, or_false, not_or] at hc
      simp [cutTag?, hc]
    exact hstep.append (ih hcs)

/-- The tag goes on behind anything between quotes. -/
private theorem of_quoted {quote : Char} {raw : List Char} (hquote : quote = '"' ∨ quote = '\'')
    (hraw : quote ∉ raw) : Passes (quote :: (raw ++ [quote])) := by
  have hinside (rest : List Char) : cutTag? (some quote) (raw ++ quote :: rest) =
      (cutTag? none rest).map fun (body, rest) => (raw ++ quote :: body, rest) := by
    induction raw with
    | nil => simp [cutTag?]
    | cons c raw ih =>
      have hc : c ≠ quote := Ne.symm (List.ne_of_not_mem_cons hraw)
      rw [List.cons_append, cutTag?, if_neg hc, ih (List.not_mem_of_not_mem_cons hraw),
        Option.map_map]
      simp [Function.comp_def]
  intro rest
  have hopen : quote ≠ '>' := by rcases hquote with rfl | rfl <;> decide
  rw [List.cons_append, cutTag?, if_neg hopen, if_pos hquote, List.append_assoc,
    List.singleton_append, hinside, Option.map_map]
  simp [Function.comp_def]

theorem cut {cs : List Char} (h : Passes cs) (rest : List Char) :
    cutTag? none (cs ++ '>' :: rest) = some (cs, rest) := by
  rw [h]
  simp [cutTag?]

end Passes

theorem passes_gap {cs : List Char} (h : IsGap cs) : Passes cs := by
  refine .of_plain fun c hc => ?_
  have hspace : c ∈ [' ', '\t', '\r', '\n'] := isSpace_iff.1 (h c hc)
  simp only [List.mem_cons, List.not_mem_nil, or_false] at hspace
  rcases hspace with rfl | rfl | rfl | rfl <;> decide

theorem passes_name {name : String} (h : IsName name) : Passes name.toList := by
  refine .of_plain fun c hc => ?_
  have := not_special (h.2 c hc)
  simp_all

private theorem passes_attributes {as : List Attribute} {raw : List Char}
    (h : WritesAttributes as raw) : Passes raw := by
  induction h with
  | nil => exact .nil
  | @cons a as before left right raw rest quote name apart gaps quoted value others ih =>
    obtain ⟨⟨hbefore, hleft⟩, hright⟩ := gaps.of_append.imp_left IsGap.of_append
    have hraw : quote ∉ raw := quote_not_mem value quoted
    have hequals : Passes ['='] := .of_plain (List.forall_mem_singleton.2 (by decide))
    have := (passes_gap hbefore).append <| (passes_name name).append <| (passes_gap hleft).append <|
      hequals.append <| (passes_gap hright).append <| (Passes.of_quoted quoted hraw).append ih
    simpa using this

theorem passes_tag {tag : String} {attributes : List Attribute} {content : List Char}
    (h : WritesTag tag attributes content) : Passes content := by
  obtain ⟨name, -, written, gap⟩ := h
  exact (passes_name name).append ((passes_attributes written).append (passes_gap gap))

/-! ## Reading tags -/

/-- A tag ends in a character that does not close its element. -/
private theorem getLast?_ne_slash {tag : String} {attributes : List Attribute} {content : List Char}
    (h : WritesTag tag attributes content) : content.getLast? ≠ some '/' := by
  have hname {name : String} (h : IsName name) : name.toList.getLast? ≠ some '/' := fun hlast =>
    not_special (h.2 _ (List.mem_of_getLast? hlast)) (by decide)
  have hgap {cs : List Char} (h : IsGap cs) : cs.getLast? ≠ some '/' := fun hlast => by
    have := h _ (List.mem_of_getLast? hlast)
    exact absurd this (by decide)
  have happend {cs ds : List Char} (hcs : cs.getLast? ≠ some '/') (hds : ds.getLast? ≠ some '/') :
      (cs ++ ds).getLast? ≠ some '/' := by
    rw [List.getLast?_append, ne_eq, Option.or_eq_some_iff]
    exact not_or.2 ⟨hds, fun h => hcs h.2⟩
  have hattributes {as : List Attribute} {raw : List Char} (h : WritesAttributes as raw) :
      raw.getLast? ≠ some '/' := by
    induction h with
    | nil => simp
    | @cons a as before left right raw rest quote name apart gaps quoted value others ih =>
      have hquote : some quote ≠ some '/' := by rcases quoted with rfl | rfl <;> decide
      have hwhole :
          before ++ (a.name.toList ++ (left ++ '=' :: (right ++ quote :: (raw ++ quote :: rest)))) =
          (before ++ a.name.toList ++ left ++ ['='] ++ right ++ [quote] ++ raw ++ [quote]) ++
            rest := by
        simp
      rw [hwhole]
      exact happend (by rwa [List.getLast?_concat]) ih
  obtain ⟨name, -, written, gap⟩ := h
  exact happend (hname name) (happend (hattributes written) (hgap gap))

theorem head?_of_writesTag {tag : String} {attributes : List Attribute} {content : List Char}
    (h : WritesTag tag attributes content) :
    ∃ c cs, content = c :: cs ∧ c ≠ '!' ∧ c ≠ '?' ∧ c ≠ '/' := by
  obtain @⟨raw, after, name, -, -, -⟩ := h
  obtain ⟨c, cs, hcs⟩ := List.exists_cons_of_ne_nil name.1
  have := not_special (name.2 c (hcs ▸ List.mem_cons_self))
  refine ⟨c, cs ++ (raw ++ after), by rw [hcs, List.cons_append], ?_⟩
  simp_all

/-- A part that begins like a tag is read up to where the tag ends. -/
theorem readMarkup_tag {c : Char} (hc : c ≠ '!' ∧ c ≠ '?' ∧ c ≠ '/') {cs content rest : List Char}
    (hcut : cutTag? none (c :: cs) = some (content, rest)) (total : Nat) :
    readMarkup total (c :: cs) = .ok (ofTag content, rest) := by
  obtain ⟨h₁, h₂, h₃⟩ := hc
  simp [readMarkup, h₁, h₂, h₃, hcut]

theorem read_start {tag : String} {attributes : List Attribute} {content : List Char}
    (h : WritesTag tag attributes content) (total : Nat) (rest : List Char) :
    read total ('<' :: (content ++ '>' :: rest)) = .ok (some (start ⟨content⟩, rest)) := by
  have hcut := (passes_tag h).cut rest
  have hstart : ofTag content = start ⟨content⟩ := if_neg (getLast?_ne_slash h)
  obtain ⟨c, cs, rfl, hc⟩ := head?_of_writesTag h
  rw [List.cons_append] at hcut ⊢
  rw [read, readMarkup_tag hc hcut, hstart]
  rfl

theorem read_empty {tag : String} {attributes : List Attribute} {content : List Char}
    (h : WritesTag tag attributes content) (total : Nat) (rest : List Char) :
    read total ('<' :: (content ++ '/' :: '>' :: rest)) = .ok (some (empty ⟨content⟩, rest)) := by
  have hslash : Passes ['/'] := .of_plain (List.forall_mem_singleton.2 (by decide))
  have hcut : cutTag? none (content ++ '/' :: '>' :: rest) = some (content ++ ['/'], rest) := by
    simpa using ((passes_tag h).append hslash).cut rest
  have hempty : ofTag (content ++ ['/']) = empty ⟨content⟩ := by
    rw [ofTag, if_pos List.getLast?_concat, List.dropLast_concat]
  obtain ⟨c, cs, rfl, hc⟩ := head?_of_writesTag h
  rw [List.cons_append] at hcut ⊢
  rw [read, readMarkup_tag hc hcut, hempty]
  rfl

/-- An end tag has the name of its element, whatever space follows it. -/
theorem read_close {tag : String} (h : IsName tag) {after : List Char}
    (hafter : IsGap after) (total : Nat) (rest : List Char) :
    read total ('<' :: '/' :: (tag.toList ++ after ++ '>' :: rest)) =
      .ok (some (close tag.toList, rest)) := by
  have hcut := ((passes_name h).append (passes_gap hafter)).cut rest
  have hletters : ∀ c ∈ tag.toList, isSpace c = false := fun c hc => isSpace_of_name (h.2 c hc)
  obtain ⟨c, cs, hcs⟩ := List.exists_cons_of_ne_nil h.1
  have hsome : ¬ (tag.toList ++ after).all isSpace = true := by
    simp [hcs, hletters c (hcs ▸ List.mem_cons_self)]
  have hkept : tag.toList.reverse.dropWhile isSpace = tag.toList.reverse := by
    cases hlast : tag.toList.reverse with
    | nil => rfl
    | cons d ds =>
      have hd : isSpace d = false := hletters d (List.mem_reverse.1 (hlast ▸ List.mem_cons_self))
      exact List.dropWhile_cons_of_neg (by simp [hd])
  have htrim : trimName (tag.toList ++ after) = tag.toList := by
    have hreverse : IsGap after.reverse := fun c hc => hafter c (List.mem_reverse.1 hc)
    rw [trimName, if_neg hsome, List.reverse_append, hreverse.dropWhile, hkept,
      List.reverse_reverse]
  simp only [read, readMarkup, hcut, htrim]
  rfl

/-! ## Reading what is not kept, and texts -/

/-- The first `>` that ends the part is found, if none before it does. -/
theorem cutAt?_append {stops : List Char → Bool} {before cs : List Char}
    (hgo : ∀ xs ys, cs = xs ++ '>' :: ys → stops (xs.reverse ++ before) = false)
    (hstop : stops (cs.reverse ++ before) = true) (rest : List Char) :
    cutAt? stops before (cs ++ '>' :: rest) = some (before.reverse ++ cs, rest) := by
  induction cs generalizing before with
  | nil => simp_all [cutAt?]
  | cons c cs ih =>
    have hc : ¬ (c = '>' ∧ stops before = true) := by
      rintro ⟨rfl, hs⟩
      have := hgo [] cs rfl
      simp_all
    rw [List.cons_append, cutAt?, if_neg hc, ih]
    · simp
    · intro xs ys he
      have := hgo (c :: xs) ys (by rw [he]; rfl)
      simpa using this
    · simpa using hstop

/-- A mark and a `>` that end in what is followed by no other `>` lie before it as a whole. -/
theorem infix_of_append {as bs xs mark ys : List Char} (h : as ++ bs = xs ++ (mark ++ '>' :: ys))
    (hbs : '>' ∉ bs) : mark ++ ['>'] <:+: as := by
  rcases List.append_eq_append_iff.1 h with ⟨as', -, rfl⟩ | ⟨bs', rfl, hmark⟩
  · simp at hbs
  · rcases List.append_eq_append_iff.1 hmark with ⟨cs, rfl, hcs⟩ | ⟨cs, rfl, rfl⟩
    · cases cs with
      | nil =>
        obtain rfl : '>' :: ys = bs := hcs
        exact absurd List.mem_cons_self hbs
      | cons c cs =>
        obtain ⟨rfl, -⟩ := List.cons.inj hcs
        exact ⟨xs, cs, by simp⟩
    · simp at hbs

theorem endsComment_iff {before : List Char} :
    endsComment before = true ↔ ∃ rest, before = '-' :: '-' :: rest ∧ 2 < byteLength rest := by
  unfold endsComment
  split
  · simp
  · next hne =>
    refine ⟨fun h => absurd h (by decide), ?_⟩
    rintro ⟨rest, rfl, -⟩
    exact absurd rfl (hne rest)

/-- A comment is read up to its end, whatever stands in it. -/
theorem read_comment {content : List Char} (h : ¬ ['-', '-'] <:+: content) (total : Nat)
    (rest : List Char) :
    read total (['<', '!', '-', '-'] ++ content ++ ['-', '-', '>'] ++ rest) =
      .ok (some (comment, rest)) := by
  have hgo : ∀ xs ys, ['!', '-', '-'] ++ content ++ ['-', '-'] = xs ++ '>' :: ys →
      endsComment (xs.reverse ++ []) = false := by
    intro xs ys he
    rw [List.append_nil, Bool.eq_false_iff]
    intro hends
    obtain ⟨before, hbefore, hlong⟩ := endsComment_iff.1 hends
    obtain rfl : xs = before.reverse ++ ['-', '-'] := by
      rw [← List.reverse_reverse xs, hbefore]
      simp
    -- What comes before the dashes is longer than the beginning of the comment.
    obtain ⟨start, rfl⟩ : ∃ start, before = start.reverse := ⟨before.reverse, by simp⟩
    match start with
    | [] => exact absurd hlong (by decide)
    | [a] =>
      obtain ⟨rfl, -⟩ := List.cons.inj he
      exact absurd hlong (by decide)
    | [a, b] =>
      obtain ⟨rfl, hrest⟩ := List.cons.inj he
      obtain ⟨rfl, -⟩ := List.cons.inj hrest
      exact absurd hlong (by decide)
    | a :: b :: c :: start =>
      have hrest : content ++ ['-', '-'] = start ++ (['-', '-'] ++ '>' :: ys) := by
        simp_all
      exact h ((List.infix_append' [] ['-', '-'] ['>']).trans (infix_of_append hrest (by decide)))
  have hstop : endsComment ((['!', '-', '-'] ++ content ++ ['-', '-']).reverse ++ []) = true := by
    refine endsComment_iff.2 ⟨content.reverse ++ ['-', '-', '!'], by simp, ?_⟩
    have hstart : byteLength ['-', '-', '!'] = 3 := by decide
    rw [byteLength_append, hstart]
    omega
  have hcut := cutAt?_append hgo hstop rest
  have hdeclaration :
      readDeclaration total ('!' :: '-' :: '-' :: (content ++ ['-', '-', '>'] ++ rest)) =
      .ok (comment, rest) := by
    simp_all [readDeclaration]
  simpa [read, readMarkup, Except.map] using congrArg (Except.map some) hdeclaration

/-- An instruction is read up to its end. -/
theorem read_instruction {content : List Char} (h : ¬ ['?', '>'] <:+: '?' :: content) (total : Nat)
    (rest : List Char) :
    read total (['<', '?'] ++ content ++ ['?', '>'] ++ rest) = .ok (some (instruction, rest)) := by
  have hgo : ∀ xs ys, '?' :: content ++ ['?'] = xs ++ '>' :: ys →
      endsInstruction (xs.reverse ++ []) = false := by
    intro xs ys he
    rw [List.append_nil, Bool.eq_false_iff]
    intro hends
    cases hlast : xs.reverse with
    | nil => simp [hlast, endsInstruction] at hends
    | cons c before =>
      obtain rfl : c = '?' := by
        rw [hlast] at hends
        unfold endsInstruction at hends
        split at hends
        · next heq => exact (List.cons.inj heq).1
        · cases hends
      obtain rfl : xs = before.reverse ++ ['?'] := by
        rw [← List.reverse_reverse xs, hlast]
        simp
      have hwhole : '?' :: content ++ ['?'] = before.reverse ++ (['?'] ++ '>' :: ys) := by
        simpa using he
      exact h (infix_of_append hwhole (by decide))
  have hcut := cutAt?_append hgo (by simp [endsInstruction]) rest
  simp_all [read, readMarkup, readInstruction, Except.map]

/-- A text is read up to the next tag. -/
theorem read_text {raw rest : List Char} (hraw : raw ≠ []) (hplain : '<' ∉ raw)
    (hrest : EndsText rest)
    (total : Nat) : read total (raw ++ rest) = .ok (some (text raw, rest)) := by
  have hinside : ∀ c ∈ raw, (c != '<') = true := by
    intro c hc
    rw [bne_iff_ne]
    rintro rfl
    exact hplain hc
  obtain ⟨htake, hdrop⟩ := @span_written (· != '<') raw rest hinside fun c hc => by
    rw [hrest c hc]
    rfl
  obtain ⟨c, cs, rfl⟩ := List.exists_cons_of_ne_nil hraw
  have hc : c ≠ '<' := fun he => hplain (he ▸ List.mem_cons_self)
  have hread : read total (c :: cs ++ rest) =
    .ok (some (text ((c :: cs ++ rest).takeWhile (· != '<')),
      (c :: cs ++ rest).dropWhile (· != '<'))) := by
    unfold read
    split
    · next heq => cases heq
    · next heq => exact absurd (List.cons.inj heq).1 hc
    · rfl
  rw [hread, htake, hdrop]

end Event

end ReactiveMarkup.Markup
