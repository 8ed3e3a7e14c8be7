-- SUMMARY: Which edits keep a document a forest.
import Mathlib.Data.List.Perm.Subperm
import Mathlib.Logic.Relation
import ReactiveMarkup.Proofs.Document
import ReactiveMarkup.World

/-!
# Documents that are forests

A document keeps the children of every node as a list of numbers, and an edit is refused for the
nodes that it names, not for what stands above or below them. So it is left to whoever edits a
document that its nodes are a forest: `World.forest_iff_careful` says which edits keep to one, and
that visits come to an end exactly where no way down runs in a circle.
-/

namespace ReactiveMarkup

open Relation (ReflTransGen TransGen)

namespace Document

variable {d d' : Document} {x y z : NodeId}

/-- Whether the second node is a child of the first. -/
def Child (d : Document) (x y : NodeId) : Prop := y ∈ d.children x

/-- A document whose nodes are a forest. -/
structure IsForest (d : Document) : Prop where
  /-- No node is below itself. -/
  acyclic : ∀ x, ¬ TransGen d.Child x x
  /-- No node stands twice below another. -/
  nodup : ∀ x, (d.children x).Nodup
  /-- No node stands below two others. -/
  single : ∀ x y z, d.Child x z → d.Child y z → x = y
  /-- Texts have no children. -/
  texts : ∀ x, d.isText x = true → d.children x = []

/-- The children are nodes of the document. -/
def Closed (d : Document) : Prop := ∀ x y, d.Child x y → y < d.nodes.length

/-- From some depth on, a visit of the node finds nothing more. -/
def VisitEnds (d : Document) (x : NodeId) : Prop :=
  ∃ depth, ∀ deeper, depth ≤ deeper → d.nodesWithin deeper x = d.nodesWithin depth x

end Document

namespace Edit

/-- The nodes that the edit names. -/
def nodes : Edit → List NodeId
  | append parent child => [parent, child]
  | setProperty node _ _ | setValue node _ => [node]
  | mountPoint _ | createElement _ | createText _ => []

/-- An edit that keeps to a forest: a node is attached that stands below no other and not above its
new parent, and content is given to elements. -/
def Careful (d : Document) : Edit → Prop
  | append parent child => (∀ x, ¬ d.Child x child) ∧ ¬ ReflTransGen d.Child child parent
  | setProperty node name _ => Document.isContentProperty name = true → d.isText node = false
  | mountPoint _ | createElement _ | createText _ | setValue _ _ => True

end Edit

namespace Document

variable {d d' : Document} {x y z : NodeId}

/-! ## What edits do to children -/

theorem children_of_length_le (h : d.nodes.length ≤ x) : d.children x = [] := by
  rw [children, node_of_length_le h]

theorem not_child_of_length_le (h : d.nodes.length ≤ x) : ¬ d.Child x y := by
  simp [Child, children_of_length_le h]

theorem children_add (kind : NodeKind) : (d.add kind).2.children y = d.children y := by
  rcases Nat.lt_trichotomy y d.nodes.length with hy | rfl | hy
  · rw [children, node_add_of_lt kind hy]
    rfl
  · rw [children, node_add_length, children_of_length_le (Nat.le_refl _)]
  · rw [children_of_length_le (Nat.le_of_lt hy), children_of_length_le (by simp; omega)]

theorem children_modify_of_ne (f : NodeData → NodeData) (h : y ≠ x) :
    (d.modify x f).children y = d.children y := by
  rw [children, node_modify_of_ne f h]
  rfl

/-- The children of every node after an edit: they are what they were, or one node has one more, or
one node has a new text only. -/
theorem children_of_edit {e : Edit} (h : d.edit e = .ok (z, d'))
    (hnodes : ∀ x ∈ e.nodes, x < d.nodes.length) :
    ((∀ y, d'.children y = d.children y) ∧ e.Careful d) ∨
    (∃ child, e = .append z child ∧ child < d.nodes.length ∧ d.isText z = false ∧
      d'.children z = d.children z ++ [child] ∧ ∀ y, y ≠ z → d'.children y = d.children y) ∨
    (∃ name v, e = .setProperty z name v ∧ isContentProperty name = true ∧
      d'.nodes.length = d.nodes.length + 1 ∧ d'.children z = [d.nodes.length] ∧
      ∀ y, y ≠ z → d'.children y = d.children y) := by
  cases e with
  | mountPoint tag =>
    cases h
    exact .inl ⟨fun y => children_add _, trivial⟩
  | createElement tag =>
    simp only [edit] at h
    split at h
    · cases h
      exact .inl ⟨fun y => children_add (d := d.count) _, trivial⟩
    · cases h
  | createText content =>
    cases h
    exact .inl ⟨fun y => children_add (d := d.count) _, trivial⟩
  | append parent child =>
    have hz : parent < d.nodes.length := hnodes parent (by simp [Edit.nodes])
    simp only [edit] at h
    split at h
    · cases h
    · split at h
      · cases h
      · next htext =>
        cases h
        refine .inr (.inl ⟨child, rfl, hnodes child (by simp [Edit.nodes]),
          by simpa using htext, ?_, fun y hy => children_modify_of_ne (d := d.count) _ hy⟩)
        rw [children, node_modify_self _ (by simpa using hz)]
        rfl
  | setProperty _ name v =>
    cases h
    have hz : z < d.nodes.length := hnodes z (by simp [Edit.nodes])
    have hself : (d.setProperty z name v).children z =
        if isContentProperty name then [d.nodes.length] else d.children z := children_setProperty hz
    cases hname : isContentProperty name with
    | true =>
      refine .inr (.inr ⟨name, v, rfl, hname, ?_, ?_, fun y hy => ?_⟩)
      · simp [setProperty, hname]
      · simpa [hname] using hself
      · simp only [setProperty, hname, if_true]
        exact (children_modify_of_ne _ hy).trans (children_add (d := d.count) _)
    | false =>
      refine .inl ⟨fun y => ?_, fun hcontent => absurd hcontent (by simp [hname])⟩
      by_cases hy : y = z
      · rw [hy]
        simpa [hname] using hself
      · simp only [setProperty, hname, Bool.false_eq_true, if_false]
        exact children_modify_of_ne (d := d.count) _ hy
  | setValue _ text =>
    cases h
    have hz : z < d.nodes.length := hnodes z (by simp [Edit.nodes])
    refine .inl ⟨fun y => ?_, trivial⟩
    by_cases hy : y = z
    · rw [hy, children, node_modify_self _ hz]
      rfl
    · exact children_modify_of_ne _ hy

/-- Edits of existing nodes attach existing nodes. -/
theorem Closed.edit {e : Edit} (hclosed : d.Closed) (h : d.edit e = .ok (z, d'))
    (hnodes : ∀ x ∈ e.nodes, x < d.nodes.length) : d'.Closed := by
  intro x y hxy
  have hle := length_le_of_edit h
  have hold (hsame : d'.children x = d.children x) : y < d'.nodes.length :=
    Nat.lt_of_lt_of_le (hclosed x y (by rwa [Child, ← hsame])) hle
  obtain ⟨hsame, -⟩ | ⟨child, -, hchild, -, hz, hother⟩ | ⟨_, _, -, -, hlen, hz, hother⟩ :=
    children_of_edit h hnodes
  · exact hold (hsame x)
  · by_cases hx : x = z
    · rw [hx, Child, hz, List.mem_append, List.mem_singleton] at hxy
      rcases hxy with hxy | rfl
      · exact Nat.lt_of_lt_of_le (hclosed z y hxy) hle
      · exact Nat.lt_of_lt_of_le hchild hle
    · exact hold (hother x hx)
  · by_cases hx : x = z
    · rw [hx, Child, hz, List.mem_singleton] at hxy
      rw [hxy, hlen]
      exact Nat.lt_succ_self _
    · exact hold (hother x hx)

/-! ## Ways down -/

/-- The children after a node was attached are the old ones and the new one. -/
theorem child_append_iff {child a b : NodeId} (hz : d'.children z = d.children z ++ [child])
    (hother : ∀ y, y ≠ z → d'.children y = d.children y) :
    d'.Child a b ↔ d.Child a b ∨ a = z ∧ b = child := by
  by_cases ha : a = z
  · simp [Child, ha, hz]
  · simp [Child, ha, hother a ha]

/-- A child after a node was given content is the new text, or an old child. -/
theorem child_of_content {a b : NodeId} (hz : d'.children z = [d.nodes.length])
    (hother : ∀ y, y ≠ z → d'.children y = d.children y) (h : d'.Child a b) :
    a = z ∧ b = d.nodes.length ∨ d.Child a b := by
  by_cases ha : a = z
  · exact .inl ⟨ha, by rwa [ha, Child, hz, List.mem_singleton] at h⟩
  · exact .inr (by rwa [Child, ← hother a ha])

/-- A way down after a node was attached leads as before, or through the new place. -/
private theorem transGen_of_append {child : NodeId} (hz : d'.children z = d.children z ++ [child])
    (hother : ∀ y, y ≠ z → d'.children y = d.children y) (h : TransGen d'.Child x y) :
    TransGen d.Child x y ∨ ReflTransGen d.Child x z ∧ ReflTransGen d.Child child y := by
  induction h with
  | single hxy =>
    rcases (child_append_iff hz hother).1 hxy with hxy | ⟨rfl, rfl⟩
    · exact .inl (.single hxy)
    · exact .inr ⟨.refl, .refl⟩
  | tail _ hbc ih =>
    rcases ih, (child_append_iff hz hother).1 hbc with ⟨hxb | ⟨hxz, hb⟩, hbc | ⟨rfl, rfl⟩⟩
    · exact .inl (hxb.tail hbc)
    · exact .inr ⟨hxb.to_reflTransGen, .refl⟩
    · exact .inr ⟨hxz, hb.tail hbc⟩
    · exact .inr ⟨hxz, .refl⟩

/-- A way down after a node was given content ends at the new text, or leads as before. -/
private theorem transGen_of_content (hz : d'.children z = [d.nodes.length])
    (hother : ∀ y, y ≠ z → d'.children y = d.children y) (h : TransGen d'.Child x y) :
    y = d.nodes.length ∨ TransGen d.Child x y := by
  induction h with
  | single hxy => exact (child_of_content hz hother hxy).imp (·.2) .single
  | tail _ hbc ih =>
    rcases child_of_content hz hother hbc with ⟨-, hc⟩ | hbc
    · exact .inl hc
    · rcases ih with rfl | hxb
      · exact absurd hbc (not_child_of_length_le (Nat.le_refl _))
      · exact .inr (hxb.tail hbc)

theorem IsForest.empty : ({} : Document).IsForest where
  acyclic x h := by
    obtain ⟨y, hxy, -⟩ := TransGen.head'_iff.1 h
    exact not_child_of_length_le (Nat.zero_le _) hxy
  nodup x := by simp [children_of_length_le]
  single x y z hxz _ := absurd hxz (not_child_of_length_le (Nat.zero_le _))
  texts x _ := children_of_length_le (Nat.zero_le _)

/-- A forest whose nodes keep their children is still one. -/
private theorem IsForest.of_children (h : d.IsForest) (hsame : ∀ y, d'.children y = d.children y)
    (htext : ∀ y < d.nodes.length, d'.isText y = d.isText y) : d'.IsForest := by
  have hchild : d'.Child = d.Child := by
    funext a b
    rw [Child, hsame, Child]
  refine ⟨fun x => hchild ▸ h.acyclic x, fun x => hsame x ▸ h.nodup x, hchild ▸ h.single,
    fun x hx => ?_⟩
  rw [hsame]
  by_cases hlt : x < d.nodes.length
  · exact h.texts x (htext x hlt ▸ hx)
  · exact children_of_length_le (Nat.le_of_not_lt hlt)

theorem isText_of_edit {e : Edit} (h : d.edit e = .ok (z, d')) (hy : y < d.nodes.length) :
    d'.isText y = d.isText y := by
  rw [isText, kind_of_edit h hy, isText]

/-- Texts have no children after an edit if they had none and the node changed is none. -/
theorem texts_of_edit {e : Edit} (h : d.edit e = .ok (z, d')) (hforest : d.IsForest)
    (htext : d.isText z = false)
    (hlt : z < d.nodes.length) (hother : ∀ y, y ≠ z → d'.children y = d.children y) :
    ∀ x, d'.isText x = true → d'.children x = [] := by
  intro x hx
  by_cases hold : x < d.nodes.length
  · rw [isText_of_edit h hold] at hx
    have hne : x ≠ z := fun he => by simp [he, htext] at hx
    rw [hother x hne]
    exact hforest.texts x hx
  · have hne : x ≠ z := fun he => hold (he ▸ hlt)
    rw [hother x hne]
    exact children_of_length_le (Nat.le_of_not_lt hold)

/-- Attaching a node to an element keeps to a forest if and only if it is careful. -/
theorem IsForest.append_iff {child : NodeId} (hforest : d.IsForest)
    (h : d.edit (.append z child) = .ok (z, d')) (hlt : z < d.nodes.length)
    (htext : d.isText z = false)
    (hz : d'.children z = d.children z ++ [child])
    (hother : ∀ y, y ≠ z → d'.children y = d.children y) :
    d'.IsForest ↔ (Edit.append z child).Careful d := by
  have hmono (a b : NodeId) (hab : d.Child a b) : d'.Child a b :=
    (child_append_iff hz hother).2 (.inl hab)
  have hnew : d'.Child z child := (child_append_iff hz hother).2 (.inr ⟨rfl, rfl⟩)
  constructor
  · intro hforest'
    refine ⟨fun x hx => ?_, fun habove => ?_⟩
    · obtain rfl : x = z := hforest'.single x z child (hmono x child hx) hnew
      have htwice := hforest'.nodup x
      rw [hz, List.nodup_append] at htwice
      exact htwice.2.2 child hx child (List.mem_singleton_self child) rfl
    · exact hforest'.acyclic z (.head' hnew (ReflTransGen.mono hmono _ _ habove))
  · rintro ⟨hfree, habove⟩
    refine ⟨fun x hx => ?_, fun x => ?_, fun a b c hac hbc => ?_,
      texts_of_edit h hforest htext hlt hother⟩
    · rcases transGen_of_append hz hother hx with hx | ⟨hxz, hx⟩
      · exact hforest.acyclic x hx
      · exact habove (hx.trans hxz)
    · by_cases hx : x = z
      · rw [hx, hz]
        refine List.nodup_append.2 ⟨hforest.nodup z, List.pairwise_singleton _ _,
          fun a ha b hb he => ?_⟩
        rw [List.mem_singleton] at hb
        exact hfree z (by rwa [Child, ← hb, ← he])
      · rw [hother x hx]
        exact hforest.nodup x
    · rcases (child_append_iff hz hother).1 hac, (child_append_iff hz hother).1 hbc with
        ⟨hac | ⟨ha, hc⟩, hbc | ⟨hb, hc'⟩⟩
      · exact hforest.single a b c hac hbc
      · exact absurd (hc' ▸ hac) (hfree a)
      · exact absurd (hc ▸ hbc) (hfree b)
      · rw [ha, hb]

/-- Giving content keeps to a forest if and only if it is given to an element. -/
theorem IsForest.content_iff {name : String} {v : Value} (hforest : d.IsForest) (hclosed : d.Closed)
    (h : d.edit (.setProperty z name v) = .ok (z, d')) (hname : isContentProperty name = true)
    (hlt : z < d.nodes.length) (hz : d'.children z = [d.nodes.length])
    (hother : ∀ y, y ≠ z → d'.children y = d.children y) :
    d'.IsForest ↔ (Edit.setProperty z name v).Careful d := by
  constructor
  · intro hforest' _
    cases htext : d.isText z with
    | false => rfl
    | true =>
      have hnone := hforest'.texts z ((isText_of_edit h hlt).trans htext)
      rw [hz] at hnone
      cases hnone
  · intro hcareful
    have htext : d.isText z = false := hcareful hname
    have hnew {a : NodeId} (ha : d.Child a d.nodes.length) : False :=
      Nat.lt_irrefl _ (hclosed a _ ha)
    refine ⟨fun x hx => ?_, fun x => ?_, fun a b c hac hbc => ?_,
      texts_of_edit h hforest htext hlt hother⟩
    · rcases transGen_of_content hz hother hx with rfl | hold
      · obtain ⟨y, hy, -⟩ := TransGen.head'_iff.1 hx
        rcases child_of_content hz hother hy with ⟨he, -⟩ | hy
        · exact Nat.ne_of_gt hlt he
        · exact not_child_of_length_le (Nat.le_refl _) hy
      · exact hforest.acyclic x hold
    · by_cases hx : x = z
      · rw [hx, hz]
        exact List.pairwise_singleton _ _
      · rw [hother x hx]
        exact hforest.nodup x
    · rcases child_of_content hz hother hac, child_of_content hz hother hbc with
        ⟨⟨ha, hc⟩ | hac, ⟨hb, hc'⟩ | hbc⟩
      · rw [ha, hb]
      · exact (hnew (hc ▸ hbc)).elim
      · exact (hnew (hc' ▸ hac)).elim
      · exact hforest.single a b c hac hbc

/-- An edit of a forest leaves a forest if and only if it is careful. -/
theorem IsForest.edit_iff {e : Edit} (hforest : d.IsForest) (hclosed : d.Closed)
    (h : d.edit e = .ok (z, d')) (hnodes : ∀ x ∈ e.nodes, x < d.nodes.length) : d'.IsForest ↔
    e.Careful d := by
  obtain ⟨hsame, hcareful⟩ | ⟨child, rfl, -, htext, hz, hother⟩ |
    ⟨name, v, rfl, hname, -, hz, hother⟩ :=
    children_of_edit h hnodes
  · exact iff_of_true (hforest.of_children hsame fun y hy => isText_of_edit h hy) hcareful
  · exact hforest.append_iff h (hnodes z (by simp [Edit.nodes])) htext hz hother
  · exact hforest.content_iff hclosed h hname (hnodes z (by simp [Edit.nodes])) hz hother

/-! ## Visits -/

/-- Whether a way down from the node leads to a node below itself. -/
def ReachesCycle (d : Document) (x : NodeId) : Prop := ∃ y, ReflTransGen d.Child x y ∧
    TransGen d.Child y y

/-- A visit finds everything once it goes deeper than every way down from the node. -/
theorem visit_eq {α : Type} (visit : Nat → NodeId → α)
    (hvisit : ∀ n m x, (d.children x).map (visit n) = (d.children x).map (visit m) →
      visit (n + 1) x = visit (m + 1) x)
    {depth deeper : Nat}
    (hways : ∀ way, List.IsChain d.Child (x :: way) → way.length < depth) (hle : depth ≤ deeper) :
    visit deeper x = visit depth x := by
  induction depth generalizing x deeper with
  | zero => exact absurd (hways [] (.singleton x)) (Nat.not_lt_zero _)
  | succ depth ih =>
    obtain ⟨deeper, rfl⟩ : ∃ n, deeper = n + 1 := ⟨deeper - 1, by omega⟩
    refine hvisit _ _ _ (List.map_congr_left fun y hy => ih (fun way hway => ?_)
      (Nat.le_of_succ_le_succ hle))
    exact Nat.lt_of_succ_lt_succ (hways (y :: way) (.cons_cons hy hway))

/-- A visit finds as many nodes as there are on any way down that it goes. -/
private theorem length_le_nodesWithin {depth : Nat} {way : List NodeId}
    (hway : List.IsChain d.Child (x :: way))
    (hle : depth ≤ way.length + 1) : depth ≤ (d.nodesWithin depth x).length := by
  induction depth generalizing x way with
  | zero => exact Nat.zero_le _
  | succ depth ih =>
    rw [nodesWithin, List.length_cons]
    refine Nat.succ_le_succ ?_
    cases way with
    | nil => simp_all
    | cons y way =>
      obtain ⟨hy, hrest⟩ := List.isChain_cons_cons.1 hway
      have hbelow : depth ≤ (d.nodesWithin depth y).length := ih hrest (Nat.le_of_succ_le_succ hle)
      obtain ⟨before, after, hsplit⟩ := List.append_of_mem hy
      rw [hsplit, List.flatMap_append, List.flatMap_cons, List.length_append, List.length_append]
      omega

/-- Where no way down runs in a circle, none has more steps than the document has nodes. -/
private theorem length_way_lt (hclosed : d.Closed) (hcycle : ¬ d.ReachesCycle x) {way : List NodeId}
    (hway : List.IsChain d.Child (x :: way)) : way.length < d.depth := by
  have hbelow : (x :: way).Pairwise (TransGen d.Child) :=
    (hway.imp fun _ _ => TransGen.single).pairwise
  have hreach : ∀ y ∈ x :: way, ReflTransGen d.Child x y := by
    rintro y (_ | ⟨_, hy⟩)
    · exact .refl
    · exact (List.rel_of_pairwise_cons hbelow hy).to_reflTransGen
  have hnodup : (x :: way).Nodup := by
    refine hbelow.imp_of_mem fun {a b} ha _ hab he => ?_
    exact hcycle ⟨a, hreach a ha, he ▸ hab⟩
  have hsubset : way ⊆ List.range d.nodes.length := by
    intro y hy
    obtain ⟨parent, -, hchild⟩ := TransGen.tail'_iff.1 (List.rel_of_pairwise_cons hbelow hy)
    exact List.mem_range.2 (hclosed parent y hchild)
  have hle := (List.Nodup.subperm hnodup.of_cons hsubset).length_le
  rw [List.length_range] at hle
  exact Nat.lt_succ_of_le hle

/-- From a node above a cycle there are ways down of every length. -/
private theorem ReachesCycle.exists_way (h : d.ReachesCycle x) (n : Nat) :
    ∃ way, List.IsChain d.Child (x :: way) ∧ way.length = n := by
  induction n generalizing x with
  | zero => exact ⟨[], .singleton x, rfl⟩
  | succ n ih =>
    obtain ⟨y, hxy, hyy⟩ := h
    obtain ⟨child, hchild, hdown⟩ : ∃ child, d.Child x child ∧ ReflTransGen d.Child child y := by
      rcases hxy.cases_head with rfl | hstep
      · exact TransGen.head'_iff.1 hyy
      · exact hstep
    obtain ⟨way, hway, hlen⟩ := ih ⟨y, hdown, hyy⟩
    exact ⟨child :: way, .cons_cons hchild hway, congrArg (· + 1) hlen⟩

/-- Where no way down runs in a circle, visits that go deeper find the same. -/
theorem visits_eq (hclosed : d.Closed) (hcycle : ¬ d.ReachesCycle x) {deeper : Nat}
    (hle : d.depth ≤ deeper) :
    d.textWithin deeper x = d.textContent x ∧ d.nodesWithin deeper x = d.nodesWithin d.depth x ∧
      d.htmlWithin deeper x = d.html x := by
  have hways (way : List NodeId) : List.IsChain d.Child (x :: way) → way.length < d.depth :=
    length_way_lt hclosed hcycle
  refine ⟨?_, ?_, ?_⟩
  · refine visit_eq d.textWithin (fun n m y hbelow => ?_) hways hle
    simp only [textWithin, hbelow]
  · refine visit_eq d.nodesWithin (fun n m y hbelow => ?_) hways hle
    simp only [nodesWithin, List.flatMap_def, hbelow]
  · refine visit_eq d.htmlWithin (fun n m y hbelow => ?_) hways hle
    simp only [htmlWithin, hbelow]

/-- Visits of a node come to an end exactly where no way down runs in a circle. -/
theorem visitEnds_iff (hclosed : d.Closed) : d.VisitEnds x ↔ ¬ d.ReachesCycle x := by
  constructor
  · rintro ⟨depth, hends⟩ hcycle
    let deeper := max depth ((d.nodesWithin depth x).length + 1)
    obtain ⟨way, hway, hlen⟩ := hcycle.exists_way deeper
    have hgrows : deeper ≤ (d.nodesWithin deeper x).length :=
      length_le_nodesWithin hway (hlen ▸ Nat.le_succ _)
    rw [hends deeper (Nat.le_max_left _ _)] at hgrows
    exact Nat.not_succ_le_self _ (Nat.le_trans (Nat.le_max_right _ _) hgrows)
  · exact fun hcycle => ⟨d.depth, fun deeper hle => (visits_eq hclosed hcycle hle).2.1⟩

end Document

/-! ## Calls from outside -/

/-- What is called from outside to change a document or to listen to it. -/
inductive HostCall (σ : Type) where
  | edit (e : Edit)
  | listen (node : NodeId) (event : String) (owner : Option StateId) (callback : Script σ)
  | unlisten (listener : ListenerId)

namespace HostCall

variable {σ : Type}

/-- The nodes that the call names. -/
def nodes : HostCall σ → List NodeId
  | edit e => e.nodes
  | listen node _ _ _ => [node]
  | unlisten _ => []

/-- A call that is refused or keeps to a forest. -/
def Careful (d : Document) : HostCall σ → Prop
  | edit e => (∃ reply, d.edit e = .ok reply) → e.Careful d
  | listen _ _ _ _ | unlisten _ => True

end HostCall

namespace World

variable {σ : Type} {w : World σ} {c : HostCall σ} {cs : List (HostCall σ)}

/-- What a call leaves. A refused call changes nothing. -/
def call (w : World σ) : HostCall σ → World σ
  | .edit e => (w.edit e).2
  | .listen node event owner callback => (w.listen node event owner callback).2
  | .unlisten id => w.unlisten id

/-- What calls leave, one after the other. -/
def calls (w : World σ) (cs : List (HostCall σ)) : World σ := cs.foldl call w

/-- Each call names nodes that are there when it is made. -/
def Given (w : World σ) : List (HostCall σ) → Prop
  | [] => True
  | c :: cs => (∀ x ∈ c.nodes, x < w.document.nodes.length) ∧ (w.call c).Given cs

/-- Each call is refused or keeps to a forest when it is made. -/
def Careful (w : World σ) : List (HostCall σ) → Prop
  | [] => True
  | c :: cs => c.Careful w.document ∧ (w.call c).Careful cs

/-- The nodes are a forest at every moment. -/
def StaysForest (w : World σ) : List (HostCall σ) → Prop
  | [] => w.document.IsForest
  | c :: cs => w.document.IsForest ∧ (w.call c).StaysForest cs

theorem document_call_edit (e : Edit) :
    (w.call (.edit e)).document = w.document ∧ (∀ reply, w.document.edit e ≠ .ok reply) ∨
      ∃ z, w.document.edit e = .ok (z, (w.call (.edit e)).document) := by
  cases he : w.document.edit e with
  | error err => exact .inl (by simp [call, World.edit, he])
  | ok reply => exact .inr ⟨reply.1, by simp [call, World.edit, he]⟩

theorem closed_call (hclosed : w.document.Closed)
    (hnodes : ∀ x ∈ c.nodes, x < w.document.nodes.length) : (w.call c).document.Closed := by
  cases c with
  | edit e =>
    obtain ⟨hsame, -⟩ | ⟨z, he⟩ := document_call_edit (w := w) e
    · rwa [hsame]
    · exact hclosed.edit he hnodes
  | listen | unlisten => exact hclosed

theorem closed_calls (hclosed : w.document.Closed) (hgiven : w.Given cs) :
    (w.calls cs).document.Closed := by
  induction cs generalizing w with
  | nil => exact hclosed
  | cons c cs ih => exact ih (closed_call hclosed hgiven.1) hgiven.2

/-- A call leaves a forest if and only if it is refused or careful. -/
theorem isForest_call_iff (hforest : w.document.IsForest) (hclosed : w.document.Closed)
    (hnodes : ∀ x ∈ c.nodes, x < w.document.nodes.length) :
    (w.call c).document.IsForest ↔ c.Careful w.document := by
  cases c with
  | edit e =>
    obtain ⟨hsame, hrefused⟩ | ⟨z, he⟩ := document_call_edit (w := w) e
    · exact iff_of_true (hsame ▸ hforest) fun ⟨reply, hreply⟩ => absurd hreply (hrefused reply)
    · rw [hforest.edit_iff hclosed he hnodes]
      exact ⟨fun hcareful _ => hcareful, fun hcareful => hcareful ⟨_, he⟩⟩
  | listen | unlisten => exact iff_of_true hforest trivial

private theorem StaysForest.isForest (h : w.StaysForest cs) : w.document.IsForest := by
  cases cs with
  | nil => exact h
  | cons c cs => exact h.1

/-- What stays a forest is one in the end. -/
theorem StaysForest.calls (h : w.StaysForest cs) : (w.calls cs).document.IsForest := by
  induction cs generalizing w with
  | nil => exact h
  | cons c cs ih => exact ih h.2

/-- The nodes stay a forest if and only if every call is refused or careful. -/
theorem staysForest_iff (hforest : w.document.IsForest) (hclosed : w.document.Closed)
    (hgiven : w.Given cs) : w.StaysForest cs ↔ w.Careful cs := by
  induction cs generalizing w with
  | nil => exact iff_of_true hforest trivial
  | cons c cs ih =>
    obtain ⟨hnodes, hrest⟩ := hgiven
    have hcall := isForest_call_iff hforest hclosed hnodes
    constructor
    · rintro ⟨-, hstays⟩
      have hforest' := hstays.isForest
      exact ⟨hcall.1 hforest', (ih hforest' (closed_call hclosed hnodes) hrest).1 hstays⟩
    · rintro ⟨hcareful, hcareful'⟩
      have hforest' := hcall.2 hcareful
      exact ⟨hforest, (ih hforest' (closed_call hclosed hnodes) hrest).2 hcareful'⟩

instance decidableGiven (w : World σ) : (cs : List (HostCall σ)) → Decidable (w.Given cs)
  | [] => .isTrue trivial
  | c :: cs =>
    have := decidableGiven (w.call c) cs
    inferInstanceAs (Decidable ((∀ x ∈ c.nodes, x < w.document.nodes.length) ∧ (w.call c).Given cs))

theorem closed_of_empty (hempty : w.document = {}) : w.document.Closed := by
  intro x y hxy
  rw [hempty] at hxy
  exact absurd hxy (Document.not_child_of_length_le (Nat.zero_le _))

/-- Made and changed from nothing by calls that name nodes which are there, a document is a forest
at every moment if and only if each call is refused or careful, and then visits of every node come
to an end. In any case the visit of a node comes to an end if and only if no way down from it runs
in a circle, and it reads the same then however deep it goes. -/
theorem forest_iff_careful (hempty : w.document = {}) (hgiven : w.Given cs) :
    (w.StaysForest cs ↔ w.Careful cs) ∧
    (w.StaysForest cs → ∀ x, (w.calls cs).document.VisitEnds x) ∧
    ∀ x, ((w.calls cs).document.VisitEnds x ↔ ¬ (w.calls cs).document.ReachesCycle x) ∧
      ((w.calls cs).document.VisitEnds x → ∀ deeper, (w.calls cs).document.depth ≤ deeper →
        (w.calls cs).document.textWithin deeper x = (w.calls cs).document.textContent x ∧
        (w.calls cs).document.nodesWithin deeper x =
          (w.calls cs).document.nodesWithin (w.calls cs).document.depth x ∧
        (w.calls cs).document.htmlWithin deeper x = (w.calls cs).document.html x) := by
  have hforest : w.document.IsForest := hempty ▸ .empty
  have hclosed : w.document.Closed := closed_of_empty hempty
  have hclosed' : (w.calls cs).document.Closed := closed_calls hclosed hgiven
  have hends (x : NodeId) : (w.calls cs).document.VisitEnds x ↔ ¬
      (w.calls cs).document.ReachesCycle x :=
    Document.visitEnds_iff hclosed'
  refine ⟨staysForest_iff hforest hclosed hgiven, fun hstays x => (hends x).2 ?_,
    fun x => ⟨hends x, ?_⟩⟩
  · rintro ⟨y, -, hcycle⟩
    exact hstays.calls.acyclic y hcycle
  · exact fun hx _ hle => Document.visits_eq hclosed' ((hends x).1 hx) hle

/-- Makes a list with one item, which is listened to for a while. An item is not its own parent, so
the last call is refused. -/
def listCalls : List (HostCall Unit) :=
  [.edit (.mountPoint "ul"), .edit (.createElement "li"), .edit (.append 0 1),
    .listen 1 "click" none .done,
    .edit (.setProperty 1 "innerText" (.string "first")), .unlisten 0, .edit (.append 1 1)]

theorem forest_iff_careful_list :
    ({ memory := () } : World Unit).Given listCalls ∧
    ({ memory := () } : World Unit).StaysForest listCalls ∧
      ∀ x, (({ memory := () } : World Unit).calls listCalls).document.VisitEnds x := by
  have hgiven : ({ memory := () } : World Unit).Given listCalls := by decide +kernel
  have hlone (x y : NodeId) :
      ¬ (({ memory := () } : World Unit).calls (listCalls.take 2)).document.Child x y := by
    rcases x with _ | _ | x
    · exact List.not_mem_nil
    · exact List.not_mem_nil
    · exact Document.not_child_of_length_le (Nat.le_add_left 2 x)
  have hcareful : ({ memory := () } : World Unit).Careful listCalls := by
    refine ⟨fun _ => trivial, fun _ => trivial, fun _ => ⟨fun x hx => ?_, fun hbelow => ?_⟩,
      trivial, fun _ _ => by decide +kernel, trivial, fun ⟨_, h⟩ => ?_, trivial⟩
    · exact hlone x 1 hx
    · obtain he | ⟨y, hy, -⟩ := hbelow.cases_head
      · cases he
      · exact hlone 1 y hy
    · cases h
  obtain ⟨hiff, hends, -⟩ := forest_iff_careful rfl hgiven
  exact ⟨hgiven, hiff.2 hcareful, hends (hiff.2 hcareful)⟩

/-- Attaches two elements to each other, gives content to a text, and attaches the text twice. -/
def knotCalls : List (HostCall Unit) :=
  [.edit (.mountPoint "r"), .edit (.createElement "a"), .edit (.createElement "b"),
    .edit (.append 1 2),
    .edit (.append 2 1), .edit (.createText "t"), .edit (.setProperty 3 "innerText" (.string "u")),
    .edit (.append 0 3), .edit (.append 0 3)]

/-- All of these calls are accepted, and they leave a node below itself, a text with a child, and a
node with two places. A visit of the node below itself does not come to an end. -/
theorem forest_knotted :
    ({ memory := () } : World Unit).Given knotCalls ∧
    TransGen (({ memory := () } : World Unit).calls knotCalls).document.Child 1 1 ∧
    (({ memory := () } : World Unit).calls knotCalls).document.isText 3 = true ∧
    (({ memory := () } : World Unit).calls knotCalls).document.children 3 = [4] ∧
    (({ memory := () } : World Unit).calls knotCalls).document.children 0 = [3, 3] ∧
    ¬ (({ memory := () } : World Unit).calls knotCalls).document.VisitEnds 1 := by
  have hgiven : ({ memory := () } : World Unit).Given knotCalls := by decide +kernel
  have hdown : (({ memory := () } : World Unit).calls knotCalls).document.children 1 = [2] :=
    by decide +kernel
  have hup : (({ memory := () } : World Unit).calls knotCalls).document.children 2 = [1] :=
    by decide +kernel
  have hcycle : TransGen (({ memory := () } : World Unit).calls knotCalls).document.Child 1 1 :=
    .tail (b := 2) (.single (by rw [Document.Child, hdown]; exact List.mem_singleton_self 2))
      (by rw [Document.Child, hup]; exact List.mem_singleton_self 1)
  refine ⟨hgiven, hcycle, by decide +kernel, by decide +kernel, by decide +kernel, fun hends => ?_⟩
  exact (Document.visitEnds_iff (closed_calls (closed_of_empty rfl) hgiven)).1 hends ⟨1,
    .refl, hcycle⟩

end World

end ReactiveMarkup
