-- SUMMARY: What edits leave alone, and what an element goes on to show.
import ReactiveMarkup.Document.Basic

/-!
# What edits leave alone

An edit makes at most one node and changes at most one. What an element shows for a property is the
value of the property, or, for the content properties, the text that its children begin with.
`Document.Holds.edit` says that it goes on to be shown until an edit touches the property.
-/

namespace ReactiveMarkup

namespace Edit

/-- The node that the edit changes. -/
def target? : Edit → Option NodeId
  | append parent _ => some parent
  | setProperty node _ _ => some node
  | setValue node _ => some node
  | mountPoint _ | createElement _ | createText _ => none

end Edit

/-- What an entry is mapped to may be changed in its place. -/
theorem map_modify {α β : Type} {f : α → α} {g : β → β} {p : α → β} (h : ∀ a, p (f a) = g (p a))
    (l : List α) (place : Nat) : (l.modify place f).map p = (l.map p).modify place g := by
  refine List.ext_getElem? fun k => ?_
  simp only [List.getElem?_map, List.getElem?_modify]
  by_cases hk : place = k <;> cases l[k]? <;> simp [hk, h]

namespace Document

variable {d d' : Document} {x y z : NodeId}

/-! ## Nodes -/

theorem node_of_length_le (h : d.nodes.length ≤ y) : d.node y = { kind := .text "" } := by
  simp [node, List.getElem?_eq_none h]

@[simp] theorem length_add (kind : NodeKind) : (d.add kind).2.nodes.length =
    d.nodes.length + 1 := by
  simp [add]

@[simp] theorem length_modify (f : NodeData → NodeData) :
    (d.modify x f).nodes.length = d.nodes.length := by
  simp [modify]

@[simp] theorem length_count : d.count.nodes.length = d.nodes.length := rfl

@[simp] theorem node_count : d.count.node y = d.node y := rfl

theorem node_add_of_lt (kind : NodeKind) (h : y < d.nodes.length) : (d.add kind).2.node y =
    d.node y := by
  simp [add, node, List.getElem?_append_left h]

theorem node_add_length (kind : NodeKind) : (d.add kind).2.node d.nodes.length =
    { kind := kind } := by
  simp [add, node]

theorem node_modify_of_ne (f : NodeData → NodeData) (h : y ≠ x) :
    (d.modify x f).node y = d.node y := by
  simp [modify, node, Ne.symm h]

theorem node_modify_self (f : NodeData → NodeData) (h : x < d.nodes.length) :
    (d.modify x f).node x = f (d.node x) := by
  simp [modify, node, h]

/-! ## Edits -/

/-- What an edit does: it adds a node, or changes one. -/
theorem edit_cases {e : Edit} (h : d.edit e = .ok (z, d')) :
    (∃ kind, e.target? = none ∧ z = d.nodes.length ∧ d'.nodes = d.nodes ++ [{ kind := kind }]) ∨
    (∃ child, e = .append z child ∧
      d' = d.count.modify z fun n => { n with children := n.children ++ [child] }) ∨
    (∃ name v, e = .setProperty z name v ∧ d' = d.setProperty z name v) ∨
    (∃ text, e = .setValue z text ∧
      d' = d.modify z fun n =>
        { n with properties := Fields.insert n.properties "value" (.string text) }) := by
  cases e with
  | mountPoint tag =>
    cases h
    exact .inl ⟨.element tag, rfl, rfl, rfl⟩
  | createElement tag =>
    simp only [edit] at h
    split at h
    · cases h
      exact .inl ⟨.element tag, rfl, rfl, rfl⟩
    · cases h
  | createText content =>
    cases h
    exact .inl ⟨.text content, rfl, rfl, rfl⟩
  | append parent child =>
    simp only [edit] at h
    split at h
    · cases h
    · split at h
      · cases h
      · cases h
        exact .inr (.inl ⟨child, rfl, rfl⟩)
  | setProperty node name v =>
    cases h
    exact .inr (.inr (.inl ⟨name, v, rfl, rfl⟩))
  | setValue node text =>
    cases h
    exact .inr (.inr (.inr ⟨text, rfl, rfl⟩))

theorem length_setProperty (name : String) (v : Value) :
    d.nodes.length ≤ (d.setProperty x name v).nodes.length := by
  unfold setProperty
  split <;> simp

theorem length_le_of_edit {e : Edit} (h : d.edit e = .ok (z, d')) :
    d.nodes.length ≤ d'.nodes.length := by
  obtain ⟨kind, _, _, hn⟩ | ⟨child, _, rfl⟩ | ⟨name, v, _, rfl⟩ | ⟨text, _, rfl⟩ := edit_cases h
  · simp [hn]
  · simp
  · exact length_setProperty name v
  · simp

/-- Writing a property leaves other nodes alone. -/
theorem node_setProperty_of_ne {name : String} {v : Value} (hy : y < d.nodes.length) (hne : y ≠ x) :
    (d.setProperty x name v).node y = d.node y := by
  unfold setProperty
  split
  · rw [node_modify_of_ne _ hne, node_add_of_lt (d := d.count) _ hy, node_count]
  · rw [node_modify_of_ne _ hne, node_count]

/-- Writing a property replaces the children of its node, or a property. -/
theorem node_setProperty_self {name : String} {v : Value} (hx : x < d.nodes.length) :
    (d.setProperty x name v).node x =
      if isContentProperty name then { d.node x with children := [d.nodes.length] }
      else { d.node x with properties := Fields.insert (d.node x).properties name v } := by
  unfold setProperty
  cases isContentProperty name with
  | true =>
    have hlt : x < (d.count.add (.text v.text)).2.nodes.length := by
      simp only [length_add, length_count]
      exact Nat.lt_succ_of_lt hx
    simp only [if_true]
    rw [node_modify_self _ hlt, node_add_of_lt (d := d.count) _ hx]
    rfl
  | false =>
    simp only [Bool.false_eq_true, if_false]
    rw [node_modify_self _ (by simpa using hx), node_count]

/-- An edit leaves the nodes alone that were there, but for its target. -/
theorem node_of_edit {e : Edit} (h : d.edit e = .ok (z, d')) (hy : y < d.nodes.length)
    (hne : e.target? ≠ some y) : d'.node y = d.node y := by
  obtain ⟨kind, _, _, hn⟩ | ⟨child, rfl, rfl⟩ | ⟨name, v, rfl, rfl⟩ | ⟨text, rfl, rfl⟩ :=
    edit_cases h
  · simp [node, hn, List.getElem?_append_left hy]
  · exact node_modify_of_ne _ fun hz => hne (hz ▸ rfl)
  · exact node_setProperty_of_ne hy fun hz => hne (hz ▸ rfl)
  · exact node_modify_of_ne _ fun hz => hne (hz ▸ rfl)

theorem node_of_append {parent child : NodeId} (h : d.edit (.append parent child) = .ok (z, d'))
    (hp : parent < d.nodes.length) :
    d'.nodes.length = d.nodes.length ∧
      d'.node parent = { d.node parent with children := d.children parent ++ [child] } := by
  obtain ⟨_, ht, _⟩ | ⟨_, he, rfl⟩ | ⟨_, _, he, _⟩ | ⟨_, he, _⟩ := edit_cases h
  · cases ht
  · cases he
    exact ⟨by simp, node_modify_self _ hp⟩
  · cases he
  · cases he

/-- A new node is the next one. -/
theorem length_of_create {e : Edit} (h : d.edit e = .ok (z, d')) (he : e.target? = none) :
    z = d.nodes.length ∧ d'.nodes.length = d.nodes.length + 1 := by
  obtain ⟨kind, _, rfl, hn⟩ | ⟨_, rfl, _⟩ | ⟨_, _, rfl, _⟩ | ⟨_, rfl, _⟩ := edit_cases h
  · exact ⟨rfl, by simp [hn]⟩
  · cases he
  · cases he
  · cases he

theorem lt_length_of_create {e : Edit} (h : d.edit e = .ok (z, d')) (he : e.target? = none) :
    z < d'.nodes.length := by
  obtain ⟨hz, hlen⟩ := length_of_create h he
  rw [hz, hlen]
  exact Nat.lt_succ_self _

theorem node_of_createElement {tag : String} (h : d.edit (.createElement tag) = .ok (z, d')) :
    d'.node z = { kind := .element tag } := by
  simp only [edit] at h
  split at h
  · cases h
    exact node_add_length (d := d.count) _
  · cases h

theorem node_of_createText {content : String} (h : d.edit (.createText content) = .ok (z, d')) :
    d'.node z = { kind := .text content } := by
  cases h
  exact node_add_length (d := d.count) _

/-- An edit leaves the kind of every node as it is. -/
theorem kind_of_edit {e : Edit} (h : d.edit e = .ok (z, d')) (hy : y < d.nodes.length) :
    (d'.node y).kind = (d.node y).kind := by
  by_cases ht : e.target? = some y
  · obtain ⟨_, hnone, _⟩ | ⟨child, rfl, rfl⟩ | ⟨name, v, rfl, rfl⟩ | ⟨text, rfl, rfl⟩ :=
      edit_cases h
    · rw [hnone] at ht
      cases ht
    · obtain rfl : z = y := Option.some.inj ht
      rw [node_modify_self _ (by simpa using hy)]
      rfl
    · obtain rfl : z = y := Option.some.inj ht
      rw [node_setProperty_self hy]
      split <;> rfl
    · obtain rfl : z = y := Option.some.inj ht
      rw [node_modify_self _ hy]
  · rw [node_of_edit h hy ht]

theorem children_setProperty {name : String} {v : Value} (hx : x < d.nodes.length) :
    (d.setProperty x name v).children x =
      if isContentProperty name then [d.nodes.length] else d.children x := by
  rw [children, node_setProperty_self hx]
  split <;> rfl

/-! ## What is shown -/

/-- Whether two property names stand for the same property. -/
def sameProperty (a b : String) : Bool := a == b || (isContentProperty a && isContentProperty b)

/-- What an element shows for a property: the value of the property, or the text of its first
child. -/
def Shows (d : Document) (x : NodeId) (property : String) (v : Value) : Prop :=
  if isContentProperty property then
    ∃ child, (d.children x).head? = some child ∧ (d.node child).kind = .text v.text
  else d.property? x property = some v

/-- What the element shows, with the nodes of the document. -/
structure Holds (d : Document) (x : NodeId) (property : String) (v : Value) : Prop where
  lt : x < d.nodes.length
  shows : d.Shows x property v
  child_lt : isContentProperty property = true → ∀ child ∈ (d.children x).head?, child <
    d.nodes.length

end Document

/-- Whether the edit writes the property of the node. -/
def Edit.touches (x : NodeId) (property : String) : Edit → Bool
  | setProperty node name _ => node == x && Document.sameProperty name property
  | setValue node _ => node == x && property == "value"
  | mountPoint _ | createElement _ | createText _ | append _ _ => false

theorem Edit.touches_eq_false {e : Edit} {x : NodeId} (h : e.target? ≠ some x) (property : String) :
    e.touches x property = false := by
  cases e with
  | setProperty node name v =>
    have hne : node ≠ x := fun hx => h (by rw [hx]; rfl)
    simp [touches, hne]
  | setValue node text =>
    have hne : node ≠ x := fun hx => h (by rw [hx]; rfl)
    simp [touches, hne]
  | mountPoint _ | createElement _ | createText _ | append _ _ => rfl

namespace Document

variable {d d' : Document} {x z : NodeId} {property : String} {v : Value}

/-- Where the element and its first child are left as they are, the element shows the same. -/
private theorem Holds.of_node (h : d.Holds x property v) (hlen : d.nodes.length ≤ d'.nodes.length)
    (hprop : d'.property? x property = d.property? x property)
    (hhead : isContentProperty property = true →
      ∀ child ∈ (d.children x).head?, (d'.children x).head? = some child)
    (hkind : ∀ y < d.nodes.length, (d'.node y).kind = (d.node y).kind) : d'.Holds x property v := by
  refine ⟨Nat.lt_of_lt_of_le h.lt hlen, ?_, ?_⟩
  · have hs := h.shows
    unfold Shows at hs ⊢
    cases hc : isContentProperty property with
    | true =>
      simp only [hc, if_true] at hs ⊢
      obtain ⟨child, hchild, htext⟩ := hs
      have hlt : child < d.nodes.length := h.child_lt hc child hchild
      exact ⟨child, hhead hc child hchild, (hkind child hlt).trans htext⟩
    | false =>
      simp only [hc, Bool.false_eq_true, if_false] at hs ⊢
      rw [hprop, hs]
  · intro hc child hchild
    have hs := h.shows
    unfold Shows at hs
    simp only [hc, if_true] at hs
    obtain ⟨first, hfirst, _⟩ := hs
    have hsame : first = child := by
      rw [hhead hc first hfirst] at hchild
      exact Option.some.inj hchild
    exact hsame ▸ Nat.lt_of_lt_of_le (h.child_lt hc first hfirst) hlen

/-- What an element shows for a property is shown until an edit touches the property. -/
theorem Holds.edit {e : Edit} (h : d.Holds x property v) (he : d.edit e = .ok (z, d'))
    (ht : e.touches x property = false) : d'.Holds x property v := by
  refine h.of_node (length_le_of_edit he) ?_ ?_ fun y hy => kind_of_edit he hy
  case _ =>
    by_cases htarget : e.target? = some x
    · obtain ⟨_, hnone, _⟩ | ⟨child, rfl, rfl⟩ | ⟨name, w, rfl, rfl⟩ | ⟨text, rfl, rfl⟩ :=
        edit_cases he
      · rw [hnone] at htarget
        cases htarget
      · obtain rfl : z = x := Option.some.inj htarget
        rw [property?, node_modify_self (d := d.count) _ h.lt]
        rfl
      · obtain rfl : z = x := Option.some.inj htarget
        have hname : property ≠ name := by
          rintro rfl
          simp [Edit.touches, sameProperty] at ht
        rw [property?, node_setProperty_self h.lt]
        split
        · rfl
        · exact Fields.get?_insert_of_ne _ w hname
      · obtain rfl : z = x := Option.some.inj htarget
        have hname : property ≠ "value" := by
          rintro rfl
          simp [Edit.touches] at ht
        rw [property?, node_modify_self _ h.lt]
        exact Fields.get?_insert_of_ne _ _ hname
    · rw [property?, property?, node_of_edit he h.lt htarget]
  case _ =>
    intro hcontent child hchild
    by_cases htarget : e.target? = some x
    · obtain ⟨_, hnone, _⟩ | ⟨new, rfl, rfl⟩ | ⟨name, w, rfl, rfl⟩ | ⟨text, rfl, rfl⟩ :=
        edit_cases he
      · rw [hnone] at htarget
        cases htarget
      · obtain rfl : z = x := Option.some.inj htarget
        rw [children, node_modify_self (d := d.count) _ h.lt]
        have hhead : (d.children z).head? = some child := hchild
        simp only [children] at hhead
        simp [List.head?_append, hhead]
      · obtain rfl : z = x := Option.some.inj htarget
        have hname : isContentProperty name = false := by
          cases hn : isContentProperty name with
          | false => rfl
          | true => simp [Edit.touches, sameProperty, hn, hcontent] at ht
        rw [children_setProperty h.lt, hname]
        exact hchild
      · obtain rfl : z = x := Option.some.inj htarget
        rw [children, node_modify_self _ h.lt]
        exact hchild
    · rw [children, node_of_edit he h.lt htarget]
      exact hchild

theorem isContentProperty_of_sameProperty {name : String} (h : sameProperty name property = true)
    (hp : isContentProperty property = true) : isContentProperty name = true := by
  simp only [sameProperty, hp, Bool.and_true, Bool.or_eq_true, beq_iff_eq] at h
  rcases h with rfl | hn
  · exact hp
  · exact hn

/-- Writing a property has the value shown. -/
theorem holds_setProperty {name : String} (hx : x < d.nodes.length)
    (hname : sameProperty name property = true) : (d.setProperty x name v).Holds x property v := by
  have hlen : d.nodes.length ≤ (d.setProperty x name v).nodes.length := length_setProperty name v
  refine ⟨Nat.lt_of_lt_of_le hx hlen, ?_, ?_⟩
  case _ =>
    unfold Shows
    cases hc : isContentProperty property with
    | true =>
      have hn : isContentProperty name = true := isContentProperty_of_sameProperty hname hc
      refine ⟨d.nodes.length, by simp [children_setProperty hx, hn], ?_⟩
      have hne : d.nodes.length ≠ x := Nat.ne_of_gt hx
      simp only [setProperty, hn, if_true]
      rw [node_modify_of_ne _ hne]
      exact congrArg NodeData.kind (node_add_length (d := d.count) _)
    | false =>
      obtain rfl : name = property := by simpa [sameProperty, hc] using hname
      simp [property?, node_setProperty_self hx, hc]
  case _ =>
    intro hc child hchild
    have hn : isContentProperty name = true := isContentProperty_of_sameProperty hname hc
    rw [children_setProperty hx, hn] at hchild
    obtain rfl : d.nodes.length = child := by simpa using hchild
    simp [setProperty, hn]

end Document

end ReactiveMarkup
