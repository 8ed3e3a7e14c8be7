-- SUMMARY: The HTML of a tree, parsed, gives the tree back.
import Mathlib.Data.Fintype.Card
import ReactiveMarkup.Document.View
import ReactiveMarkup.Proofs.Document
import ReactiveMarkup.Proofs.RoundTrip

/-!
# HTML that is parsed back

The HTML of a tree is one of the ways to write the tree as markup, so parsing gives back the tree
that it was made from. Two things are lost on the way: where one text ends and the next begins, and
texts without characters.
-/

namespace ReactiveMarkup

/-! ## Fields in the order of their names -/

namespace Fields

variable {α : Type}

/-- The names stand in order, and none stands twice. -/
def Sorted (fields : Fields α) : Prop := (fields.map (·.1)).Pairwise (· < ·)

private theorem names_replace (fields : Fields α) (name : String) (v : α) :
    (fields.replace name v).map (·.1) = fields.map (·.1) := by
  induction fields with
  | nil => rfl
  | cons p rest ih =>
    by_cases hp : p.1 = name <;> simp [replace, hp, ih]

private theorem mem_names_insertNew {fields : Fields α} {name other : String} {v : α}
    (h : other ∈ (fields.insertNew name v).map (·.1)) : other = name ∨
    other ∈ fields.map (·.1) := by
  induction fields with
  | nil => simpa [insertNew] using h
  | cons p rest ih =>
    by_cases hp : name < p.1
    · simpa [insertNew, hp] using h
    · simp only [insertNew, hp, if_false, List.map_cons, List.mem_cons] at h ⊢
      rcases h with h | h
      · exact .inr (.inl h)
      · exact (ih h).imp_right .inr

theorem Sorted.insertNew {fields : Fields α} (h : fields.Sorted) {name : String} (v : α)
    (hnew : fields.get? name = none) : (fields.insertNew name v).Sorted := by
  induction fields with
  | nil => exact List.pairwise_singleton _ _
  | cons p rest ih =>
    obtain ⟨hfirst, hrest⟩ := List.pairwise_cons.1 h
    by_cases hp : name < p.1
    · simp only [Fields.insertNew, hp, if_true]
      refine List.pairwise_cons.2 ⟨fun other hother => ?_, h⟩
      rcases List.mem_cons.1 hother with rfl | hother
      · exact hp
      · exact String.lt_trans hp (hfirst other hother)
    · have hne : p.1 ≠ name := by
        rintro rfl
        simp [get?] at hnew
      have hafter : p.1 < name :=
        Std.lt_of_le_of_ne (String.not_lt.1 hp) hne
      simp only [get?, hne, if_false] at hnew
      simp only [Fields.insertNew, hp, if_false]
      refine List.pairwise_cons.2 ⟨fun other hother => ?_, ih hrest hnew⟩
      rcases mem_names_insertNew hother with rfl | hother
      · exact hafter
      · exact hfirst other hother

theorem Sorted.insert {fields : Fields α} (h : fields.Sorted) (name : String) (v : α) :
    (fields.insert name v).Sorted := by
  unfold Fields.insert
  split
  · rwa [Sorted, names_replace]
  · next hnew => exact h.insertNew v hnew

end Fields

/-! ## Trees of a document -/

namespace Markup.Node

/-- A text as a list of nodes. Nothing stands for a text without characters. -/
def ofText (content : String) : List Node := if content = "" then [] else [text content]

mutual

/-- The node with each run of texts below it made into one. -/
def joinedBelow : Node → Node
  | text content => text content
  | element tag attributes children => element tag attributes (joinedAfter "" children)

/-- The nodes behind a text, with each run of texts made into one. -/
def joinedAfter (before : String) : List Node → List Node
  | [] => ofText before
  | n :: ns =>
    match n.content? with
    | some content => joinedAfter (before ++ content) ns
    | none => ofText before ++ joinedBelow n :: joinedAfter "" ns

end

/-- The nodes with each run of texts made into one, and without those that have no characters
then. -/
def joined (ns : List Node) : List Node := joinedAfter "" ns

mutual

/-- How many nodes stand on the longest way down from the node. -/
def level : Node → Nat
  | text _ => 1
  | element _ _ children => levels children + 1

/-- How many nodes stand on the longest way down from one of the nodes. -/
def levels : List Node → Nat
  | [] => 0
  | n :: ns => max (level n) (levels ns)

end

end Markup.Node

open Markup
  (Attribute Forest IsGap IsName IsPlain IsQuotable Node Spells Writes WritesAttributes
    WritesTag EndsText)

namespace Document

/-- A document made by edits. -/
inductive Made : Document → Prop
  | empty : Made {}
  | edit {d d' : Document} {e : Edit} {x : NodeId} (made : Made d)
      (done : d.edit e = .ok (x, d')) : Made d'

/-- The template nodes mirror nodes of the document and everything below them. The document has
valid tags there, and its properties are strings whose names may stand in markup, where `className`
does not stand beside `class`. -/
inductive Mirrors (d : Document) : List NodeId → List Node → Prop
  | nil : Mirrors d [] []
  | text {x : NodeId} {xs : List NodeId} {ns : List Node} {content : String}
      (kind : (d.node x).kind = .text content) (others : Mirrors d xs ns) :
      Mirrors d (x :: xs) (.text content :: ns)
  | element {x : NodeId} {xs : List NodeId} {ns children : List Node} {tag : String}
      {values : List (String × String)} (kind : (d.node x).kind = .element tag)
      (valid : isValidName tag = true)
      (properties : (d.node x).properties = values.map fun p => (p.1, .string p.2))
      (names : ∀ p ∈ values, IsName p.1)
      (single : "class" ∈ values.map (·.1) → "className" ∉ values.map (·.1))
      (inside : Mirrors d (d.children x) children) (others : Mirrors d xs ns) :
      Mirrors d (x :: xs)
        (.element tag (values.map fun p => ⟨attributeName p.1, p.2⟩) children :: ns)

variable {d d' : Document}

/-! ## Documents made by edits -/

private theorem sorted_edit {e : Edit} {x : NodeId} (h : d.edit e = .ok (x, d'))
    (hsorted : ∀ n ∈ d.nodes, n.properties.Sorted) : ∀ n ∈ d'.nodes, n.properties.Sorted := by
  have hmodify {nodes : List NodeData} {y : NodeId} {f : NodeData → NodeData}
      (hnodes : ∀ n ∈ nodes, n.properties.Sorted)
      (hf : ∀ n : NodeData, n.properties.Sorted → (f n).properties.Sorted) :
      ∀ n ∈ nodes.modify y f, n.properties.Sorted := by
    intro n hn
    obtain ⟨i, hi, rfl⟩ := List.mem_iff_getElem.1 hn
    have hold := hnodes _ (List.getElem_mem (List.length_modify f nodes y ▸ hi))
    rw [List.getElem_modify]
    split
    · exact hf _ hold
    · exact hold
  have hadd (kind : NodeKind) : ∀ n ∈ d.nodes ++ [{ kind := kind }], n.properties.Sorted :=
    List.forall_mem_append.2 ⟨hsorted, List.forall_mem_singleton.2 List.Pairwise.nil⟩
  obtain ⟨kind, -, -, hn⟩ | ⟨child, -, rfl⟩ | ⟨name, v, -, rfl⟩ | ⟨text, -, rfl⟩ := edit_cases h
  · rw [hn]
    exact hadd kind
  · exact hmodify hsorted fun n hn => hn
  · unfold setProperty
    split
    · exact hmodify (hadd _) fun n hn => hn
    · exact hmodify hsorted fun n hn => hn.insert name v
  · exact hmodify hsorted fun n hn => hn.insert "value" (.string text)

/-- A document that was made by edits holds the properties of every node in the order of their
names. -/
theorem Made.sorted (h : d.Made) (x : NodeId) : (d.node x).properties.Sorted := by
  have hnodes : ∀ n ∈ d.nodes, n.properties.Sorted := by
    induction h with
    | empty => exact List.forall_mem_nil _
    | edit _ done ih => exact sorted_edit done ih
  by_cases hx : x < d.nodes.length
  · have hnode : d.node x = d.nodes[x] := by simp [node, hx]
    rw [hnode]
    exact hnodes _ (List.getElem_mem hx)
  · rw [node_of_length_le (Nat.le_of_not_lt hx)]
    exact List.Pairwise.nil

/-! ## How deep a tree can be -/

/-- What nodes mirror is settled by the document. -/
theorem Mirrors.unique {xs : List NodeId} {ns ms : List Node} (h : d.Mirrors xs ns)
    (h' : d.Mirrors xs ms) : ns = ms := by
  induction h generalizing ms with
  | nil =>
    cases h'
    rfl
  | text kind _ ih =>
    cases h' with
    | text kind' others =>
      obtain rfl := NodeKind.text.inj (kind.symm.trans kind')
      rw [ih others]
    | element kind' => cases kind.symm.trans kind'
  | @element x xs ns children tag values kind _ properties _ _ _ _ ihInside ihOthers =>
    cases h' with
    | text kind' => cases kind.symm.trans kind'
    | @element _ _ _ _ _ values' kind' _ properties' _ _ inside others =>
      obtain rfl := NodeKind.element.inj (kind.symm.trans kind')
      have hinj : Function.Injective fun p : String × String => (p.1, Value.string p.2) := by
        rintro ⟨a, s⟩ ⟨b, t⟩ he
        simpa using he
      obtain rfl := List.map_injective_iff.2 hinj (properties.symm.trans properties')
      rw [ihInside inside, ihOthers others]

/-- Whatever is so deep holds an element of every lesser depth. -/
private theorem Mirrors.exists_level {xs : List NodeId} {ns : List Node}
    (h : d.Mirrors xs ns) {k : Nat} (hk : 2 ≤ k) (hle : k ≤ Node.levels ns) :
    ∃ x n, x < d.nodes.length ∧ d.Mirrors [x] [n] ∧ Node.levels [n] = k := by
  induction h with
  | nil =>
    simp only [Node.levels] at hle
    omega
  | text _ _ ih =>
    refine ih ?_
    simp only [Node.levels, Node.level] at hle
    omega
  | @element x xs ns children tag values kind valid properties names single inside others
    ihInside ihOthers =>
    simp only [Node.levels, Node.level] at hle
    by_cases hothers : k ≤ Node.levels ns
    · exact ihOthers hothers
    by_cases hinside : k ≤ Node.levels children
    · exact ihInside hinside
    have hx : x < d.nodes.length := by
      refine Nat.lt_of_not_le fun hlen => ?_
      rw [node_of_length_le hlen] at kind
      cases kind
    refine ⟨x, _, hx, .element kind valid properties names single inside .nil, ?_⟩
    simp only [Node.levels, Node.level]
    omega

/-- A tree is no deeper than a visit goes: elements at different depths are different nodes. -/
private theorem Mirrors.levels_le {xs : List NodeId} {ns : List Node} (h : d.Mirrors xs ns) :
    Node.levels ns ≤ d.depth := by
  have hexists : ∀ k : Fin (Node.levels ns - 1), ∃ x : Fin d.nodes.length,
      ∃ n, d.Mirrors [x.val] [n] ∧ Node.levels [n] = k + 2 := by
    intro k
    obtain ⟨x, n, hx, hn⟩ := h.exists_level (Nat.le_add_left 2 k) (by omega)
    exact ⟨⟨x, hx⟩, n, hn⟩
  choose place hplace using hexists
  have hinj : Function.Injective place := by
    intro j k he
    obtain ⟨n, hn, hj⟩ := hplace j
    obtain ⟨m, hm, hk⟩ := hplace k
    rw [he] at hn
    rw [hn.unique hm] at hj
    omega
  have hcard := Fintype.card_le_of_injective place hinj
  rw [Fintype.card_fin, Fintype.card_fin] at hcard
  rw [depth]
  omega

/-! ## HTML as a way to write a tree -/

private theorem isName_of_isValidName {tag : String} (h : isValidName tag = true) : IsName tag := by
  unfold isValidName at h
  unfold IsName
  cases hcs : tag.toList with
  | nil => simp [hcs] at h
  | cons c cs =>
    simp only [hcs, Bool.and_eq_true] at h
    refine ⟨List.cons_ne_nil _ _, List.forall_mem_cons.2 ⟨?_, List.all_eq_true.1 h.2⟩⟩
    have hc := h.1
    simp only [Bool.or_eq_true] at hc
    rcases hc with hc | hc <;> simp [Markup.isNameCharacter, hc]

private theorem isName_attributeName {name : String} (h : IsName name) : IsName
    (attributeName name) := by
  unfold attributeName
  split
  · decide +kernel
  · exact h

private theorem eq_or_of_attributeName_eq {a b : String} (h : attributeName a = attributeName b) :
    a = b ∨ a = "className" ∧ b = "class" ∨ a = "class" ∧ b = "className" := by
  unfold attributeName at h
  split at h <;> split at h <;> simp_all

@[simp] theorem escape_empty : (escape "").toList = [] := by
  rw [escape, String.toList_ofList]
  rfl

private theorem escape_append (s t : String) : (escape (s ++ t)).toList = (escape s).toList ++
    (escape t).toList := by
  simp only [escape, String.toList_ofList, String.toList_append, List.flatMap_append]

/-- A character that may not stand for itself is escaped by its name. -/
private theorem escapeChar_cases (c : Char) :
    (c ∉ ['&', '<', '>', '"'] ∧ escapeChar c = [c]) ∨
      ∃ body, Markup.IsEntity c body ∧ escapeChar c = '&' :: body ++ [';'] := by
  by_cases h : c ∈ ['&', '<', '>', '"']
  · simp only [List.mem_cons, List.not_mem_nil, or_false] at h
    rcases h with rfl | rfl | rfl | rfl
    · exact .inr ⟨"amp".toList, .named (by decide), rfl⟩
    · exact .inr ⟨"lt".toList, .named (by decide), rfl⟩
    · exact .inr ⟨"gt".toList, .named (by decide), rfl⟩
    · exact .inr ⟨"quot".toList, .named (by decide), rfl⟩
  · refine .inl ⟨h, ?_⟩
    simp_all [escapeChar]

/-- An escaped text is a spelling of it where all other characters may stand for themselves. -/
theorem spells_escape {plain : Char → Prop} (hplain : ∀ c, c ∉ ['&', '<', '>', '"'] → plain c)
    (s : String) : Spells plain s.toList (escape s).toList := by
  rw [escape, String.toList_ofList]
  induction s.toList with
  | nil => exact .nil
  | cons c cs ih =>
    rw [List.flatMap_cons]
    obtain ⟨hc, he⟩ | ⟨body, hbody, he⟩ := escapeChar_cases c
    · rw [he]
      exact .itself (hplain c hc) ih
    · rw [he, List.append_assoc]
      exact .entity hbody ih

private theorem isPlain_of_not_mem {c : Char} (h : c ∉ ['&', '<', '>', '"']) : IsPlain c := by
  simp_all [IsPlain]

private theorem isQuotable_of_not_mem {c : Char} (h : c ∉ ['&', '<', '>', '"']) :
    IsQuotable '"' c := by
  simp_all [IsQuotable]

/-- Properties with texts as values are written as attributes with quotes. -/
private theorem writes_attributes {values : List (String × String)}
    (hnames : ∀ p ∈ values, IsName p.1) :
    WritesAttributes (values.map fun p => ⟨attributeName p.1, p.2⟩)
      (values.flatMap fun p => (attributeHtml p.1 (.string p.2)).toList) := by
  induction values with
  | nil => exact .nil
  | cons p values ih =>
    obtain ⟨hp, hvalues⟩ := List.forall_mem_cons.1 hnames
    have hquoted : Spells (IsQuotable '"') p.2.toList (escape p.2).toList :=
      spells_escape (fun _ => isQuotable_of_not_mem) p.2
    have hwritten := @WritesAttributes.cons ⟨attributeName p.1, p.2⟩ _ [' '] [] [] _ _ '"'
      (isName_attributeName hp) (by decide) (by decide) (.inl rfl) hquoted (ih hvalues)
    have hhtml : (attributeHtml p.1 (.string p.2)).toList =
        [' '] ++ (attributeName p.1).toList ++ ['=', '"'] ++ (escape p.2).toList ++ ['"'] := by
      simp [attributeHtml]
    rw [List.map_cons, List.flatMap_cons, hhtml]
    simpa using hwritten

/-- Different properties are written as different attributes, unless both stand for the class. -/
private theorem nodup_attributes {values : List (String × String)}
    (hsorted : (values.map (·.1)).Pairwise (· < ·))
    (hsingle : "class" ∈ values.map (·.1) → "className" ∉ values.map (·.1)) :
    ((values.map fun p => (⟨attributeName p.1, p.2⟩ : Attribute)).map (·.name)).Nodup := by
  have hnames : (values.map fun p => (⟨attributeName p.1, p.2⟩ : Attribute)).map (·.name) =
      (values.map (·.1)).map attributeName := by
    simp [Function.comp_def]
  rw [hnames]
  refine List.pairwise_map.2 (hsorted.imp_of_mem fun {a b} ha hb hlt he => ?_)
  rcases eq_or_of_attributeName_eq he with rfl | ⟨rfl, rfl⟩ | ⟨rfl, rfl⟩
  · exact String.lt_irrefl _ hlt
  · exact hsingle hb ha
  · exact hsingle ha hb

/-- A text in front of a tag is written as one text, or not at all. -/
theorem writes_ofText {ns : List Node} {rest : List Char} (hothers : Writes false ns rest)
    (hstop : EndsText rest) (content : String) :
    Writes false (Node.ofText content ++ ns) ((escape content).toList ++ rest) := by
  unfold Node.ofText
  split
  · next hcontent =>
    rw [hcontent, escape_empty]
    exact hothers
  · next hcontent =>
    exact .text hcontent (fun h => by cases h)
      (spells_escape (fun _ => isPlain_of_not_mem) content) hstop hothers

private theorem toList_htmlWithin_element {x : NodeId} {tag : String}
    {values : List (String × String)} (kind : (d.node x).kind = .element tag)
    (properties : (d.node x).properties = values.map fun p => (p.1, .string p.2)) (depth : Nat) :
    (d.htmlWithin (depth + 1) x).toList =
      ['<'] ++
        (tag.toList ++
          ((values.flatMap fun p => (attributeHtml p.1 (.string p.2)).toList) ++ [])) ++
        ['>'] ++ ((d.children x).flatMap fun y => (d.htmlWithin depth y).toList) ++
          ['<', '/'] ++ tag.toList ++
        [] ++ ['>'] := by
  simp [htmlWithin, kind, properties, List.flatMap_map, Function.comp_def]

/-- The HTML of an element writes the element, if that of its children writes its children. -/
theorem writes_element (hd : d.Made) {outside : Bool} {x : NodeId} {ns children : List Node}
    {tag : String}
    {values : List (String × String)} {rest : List Char} (kind : (d.node x).kind = .element tag)
    (valid : isValidName tag = true)
    (properties : (d.node x).properties = values.map fun p => (p.1, .string p.2))
    (names : ∀ p ∈ values, IsName p.1)
    (single : "class" ∈ values.map (·.1) → "className" ∉ values.map (·.1)) {depth : Nat}
    (hinside : Writes false children
      ((d.children x).flatMap fun y => (d.htmlWithin depth y).toList))
    (hothers : Writes outside ns rest) :
    Writes outside (.element tag (values.map fun p => ⟨attributeName p.1, p.2⟩) children :: ns)
      ((d.htmlWithin (depth + 1) x).toList ++ rest) := by
  have hsorted : (values.map (·.1)).Pairwise (· < ·) := by
    have hproperties := hd.sorted x
    rw [Fields.Sorted, properties, List.map_map] at hproperties
    exact hproperties
  have hname : IsName tag := isName_of_isValidName valid
  have hgap : IsGap [] := fun c hc => absurd hc List.not_mem_nil
  have htag := WritesTag.mk hname (nodup_attributes hsorted single) (writes_attributes names) hgap
  rw [toList_htmlWithin_element kind properties]
  exact .element htag hinside hgap hothers

/-- HTML writes the trees that it is made from, with each run of texts made into one. -/
private theorem writes_html (hd : d.Made) {xs : List NodeId} {ns : List Node}
    (h : d.Mirrors xs ns) {depth : Nat} (hdepth : Node.levels ns ≤ depth) (before : String) :
    Writes false (Node.joinedAfter before ns)
      ((escape before).toList ++ xs.flatMap fun x => (d.htmlWithin depth x).toList) := by
  induction h generalizing depth before with
  | nil =>
    have hstop : EndsText [] := fun c hc => by cases hc
    simpa [Node.joinedAfter] using writes_ofText .nil hstop before
  | @text x xs ns content kind _ ih =>
    simp only [Node.levels, Node.level] at hdepth
    obtain ⟨depth, rfl⟩ := Nat.exists_eq_add_of_le' (show 1 ≤ depth by omega)
    have hhtml : d.htmlWithin (depth + 1) x = escape content := by
      simp [htmlWithin, kind]
    have hjoined := ih (show Node.levels ns ≤ depth + 1 by omega) (before ++ content)
    rwa [List.flatMap_cons, hhtml, ← List.append_assoc, ← escape_append]
  | @element x xs ns children tag values kind valid properties names single _ _ ihInside ihOthers =>
    simp only [Node.levels, Node.level] at hdepth
    obtain ⟨depth, rfl⟩ := Nat.exists_eq_add_of_le' (show 1 ≤ depth by omega)
    have hinside := ihInside (show Node.levels children ≤ depth by omega) ""
    have hothers := ihOthers (show Node.levels ns ≤ depth + 1 by omega) ""
    rw [escape_empty, List.nil_append] at hinside hothers
    have hwritten := writes_element hd kind valid properties names single hinside hothers
    have hstop : EndsText ((d.htmlWithin (depth + 1) x).toList ++
        xs.flatMap fun x => (d.htmlWithin (depth + 1) x).toList) := by
      rw [toList_htmlWithin_element kind properties]
      exact fun c hc => (Option.some.inj hc).symm
    exact writes_ofText hwritten hstop before

/-- Parsing the HTML of an element gives the element back. -/
theorem parse_html (hd : d.Made) {x : NodeId} {tag : String} {attributes : List Attribute}
    {children : List Node} (h : d.Mirrors [x] [.element tag attributes children]) :
    Forest.parse (d.html x) = .ok [.element tag attributes (Node.joined children)] := by
  have hlevels : Node.levels children ≤ d.nodes.length := by
    have := h.levels_le
    simp only [Node.levels, Node.level, depth] at this
    omega
  cases h with
  | element kind valid properties names single inside _ =>
    have hinside := writes_html hd inside hlevels ""
    rw [escape_empty, List.nil_append] at hinside
    have hwritten := writes_element hd kind valid properties names single hinside (@Writes.nil true)
    rw [List.append_nil, ← depth, ← html] at hwritten
    have hmark : (d.html x).toList.head? ≠ some '\uFEFF' := by
      rw [html, depth, toList_htmlWithin_element kind properties]
      exact fun he => by simp at he
    rw [Forest.parse, Forest.ofStream_writes hwritten hmark]
    rfl

/-- A card with two properties, whose two texts come back as one and whose empty text does not. -/
theorem parse_html_card :
    let d : Document :=
      { nodes := [
          { kind := .element "card",
            properties := [("className", .string "c"), ("title", .string "\"<'\n")],
            children := [2, 3, 1, 4] },
          { kind := .element "br" }, { kind := .text "x & " }, { kind := .text "]]>" },
          { kind := .text "" }],
        mutations := 10 }
    let card : Node :=
      .element "card" [⟨"class", "c"⟩, ⟨"title", "\"<'\n"⟩] [.text "x & ", .text "]]>",
        .element "br" [] [], .text ""]
    d.Made ∧ d.Mirrors [0] [card] ∧
      Forest.parse (d.html 0) =
        .ok [.element "card" [⟨"class", "c"⟩, ⟨"title", "\"<'\n"⟩] [.text "x & ]]>",
          .element "br" [] []]] := by
  intro d card
  have hmade : d.Made :=
    have h₁ := @Made.edit _ _ (.mountPoint "card") _ .empty rfl
    have h₂ := @Made.edit _ _ (.createElement "br") _ h₁ rfl
    have h₃ := @Made.edit _ _ (.createText "x & ") _ h₂ rfl
    have h₄ := @Made.edit _ _ (.createText "]]>") _ h₃ rfl
    have h₅ := @Made.edit _ _ (.createText "") _ h₄ rfl
    have h₆ := @Made.edit _ _ (.setProperty 0 "title" (.string "\"<'\n")) _ h₅ rfl
    have h₇ := @Made.edit _ _ (.setProperty 0 "className" (.string "c")) _ h₆ rfl
    have h₈ := @Made.edit _ _ (.append 0 2) _ h₇ rfl
    have h₉ := @Made.edit _ _ (.append 0 3) _ h₈ rfl
    have h₁₀ := @Made.edit _ _ (.append 0 1) _ h₉ rfl
    @Made.edit _ _ (.append 0 4) _ h₁₀ rfl
  have hnames : ∀ p ∈ [("className", "c"), ("title", "\"<'\n")], IsName p.1 := by decide +kernel
  have hbr : d.Mirrors [1, 4] [.element "br" [] [], .text ""] :=
    @Mirrors.element _ _ _ _ _ _ [] rfl (by decide) rfl (List.forall_mem_nil _) (by decide) .nil
      (.text rfl .nil)
  have hinside :
      d.Mirrors [2, 3, 1, 4] [.text "x & ", .text "]]>", .element "br" [] [], .text ""] :=
    .text rfl (.text rfl hbr)
  have hcard : d.Mirrors [0] [card] :=
    @Mirrors.element _ _ _ _ _ _ [("className", "c"), ("title", "\"<'\n")] rfl
      (by decide) rfl hnames (by decide) hinside .nil
  exact ⟨hmade, hcard, parse_html hmade hcard⟩

end Document

end ReactiveMarkup
