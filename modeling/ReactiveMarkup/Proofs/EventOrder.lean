-- SUMMARY: A parsed forest, written out in document order, gives back the events read.
import ReactiveMarkup.Proofs.RoundTrip

/-!
# Forests and events

A forest that was parsed, written out in document order, gives the events back that were read: start
tags, texts and end tags in their order. The forest that is built meanwhile is taken in the same
way, with the elements that are open from the outside in, so `Forest.Reads` can be carried from
event to event. It also tells which start tags have had no end tag so far: those of the open
elements. `Forest.parse_follows_events` puts this together.
-/

namespace ReactiveMarkup.Markup

/-! ## Writing forests and events out -/

/-- What stands in a forest, in document order. -/
inductive Token where
  | start (tag : String) (attributes : List Attribute)
  | text (content : String)
  | close (tag : String)
deriving DecidableEq

mutual

/-- The node, written out. -/
def Node.tokens : Node → List Token
  | .element tag attributes children => .start tag attributes :: (tokensOf children ++ [.close tag])
  | .text content => [.text content]

/-- The nodes, written out in document order. -/
def tokensOf : List Node → List Token
  | [] => []
  | n :: ns => n.tokens ++ tokensOf ns

end

@[simp] theorem tokensOf_nil : tokensOf [] = [] := by rw [tokensOf]

@[simp] theorem tokensOf_cons (n : Node) (ns : List Node) : tokensOf
    (n :: ns) = n.tokens ++ tokensOf ns := by
  rw [tokensOf]

@[simp] theorem tokensOf_append (ns ns' : List Node) : tokensOf (ns ++ ns') = tokensOf ns ++
    tokensOf ns' := by
  induction ns with
  | nil => simp
  | cons n ns ih => simp [ih]

namespace Event

/-- How many elements are open after the event. -/
def depthAfter (depth : Nat) : Event → Nat
  | start _ => depth + 1
  | close _ => depth - 1
  | empty _ | text _ | characterData _ | comment | instruction | documentType => depth

/-- What the event writes where so many elements are open, if it can be decoded. -/
def tokens? (depth : Nat) : Event → Option (List Token)
  | start t => t.attributes.toOption.map fun attributes =>
    [.start (String.ofList t.name) attributes]
  | empty t =>
    t.attributes.toOption.map fun attributes =>
      [.start (String.ofList t.name) attributes, .close (String.ofList t.name)]
  | close name => some [.close (String.ofList name)]
  | text raw =>
    (Entity.decode raw).toOption.map fun content =>
      if depth = 0 ∧ Text.allBlank content = true then [] else [.text content]
  | characterData content => some [.text (String.ofList content)]
  | comment | instruction | documentType => some []

/-- The attributes and the entities of the event can be read. -/
def Decodes : Event → Prop
  | start t | empty t => ∃ attributes, t.attributes = .ok attributes
  | text raw => ∃ content, Entity.decode raw = .ok content
  | close _ | characterData _ | comment | instruction | documentType => True

/-- Whether the event leaves the elements open that are. -/
def isFlat : Event → Bool
  | start _ | close _ => false
  | empty _ | text _ | characterData _ | comment | instruction | documentType => true

end Event

/-- What the events write, if they all can be decoded. -/
def tokensFrom? (depth : Nat) : List Event → Option (List Token)
  | [] => some []
  | e :: es => do return (← e.tokens? depth) ++ (← tokensFrom? (e.depthAfter depth) es)

private theorem tokensFrom?_append (depth : Nat) (es es' : List Event) :
    tokensFrom? depth (es ++ es') =
    do return (← tokensFrom? depth es) ++
      (← tokensFrom? (es.foldl Event.depthAfter depth) es') := by
  induction es generalizing depth with
  | nil => simp [tokensFrom?]
  | cons e es ih => simp [tokensFrom?, ih, Option.bind_assoc, List.append_assoc]

/-! ## Start tags and their end tags -/

/-- Every start tag has an end tag, and every end tag a start tag. -/
inductive Balanced : List Event → Prop
  | nil : Balanced []
  | flat {e : Event} {es : List Event} (h : e.isFlat = true) (rest : Balanced es) :
    Balanced (e :: es)
  | element {t : Tag} {inner : List Event} {name : List Char} {es : List Event}
      (inside : Balanced inner)
      (rest : Balanced es) : Balanced (.start t :: (inner ++ .close name :: es))

/-- The events behind a start tag hold its end tag. -/
def HasEnd (later : List Event) : Prop :=
  ∃ inner name rest, later = inner ++ .close name :: rest ∧ Balanced inner

/-- A start tag at the offset has no end tag. -/
def Unclosed (events : List (Nat × Event)) (offset : Nat) (t : Tag) : Prop :=
  ∃ before after, events = before ++ (offset, .start t) :: after ∧ ¬ HasEnd (after.map (·.2))

/-- The start tag at the offset is the last one that has no end tag. -/
def LastUnclosed (events : List (Nat × Event)) (offset : Nat) (t : Tag) : Prop :=
  ∃ before after, events = before ++ (offset, .start t) :: after ∧ ¬ HasEnd (after.map (·.2)) ∧
    ∀ offset t, ¬ Unclosed after offset t

namespace Balanced

variable {es es' : List Event} {t : Tag} {name : List Char}

theorem append (h : Balanced es) (h' : Balanced es') : Balanced (es ++ es') := by
  induction h with
  | nil => exact h'
  | flat hflat _ ih => exact .flat hflat ih
  | element inside _ _ ih =>
    rw [List.cons_append, List.append_assoc, List.cons_append]
    exact .element inside ih

theorem singleton {e : Event} (h : e.isFlat = true) : Balanced [e] := .flat h .nil

/-- Every start tag has an end tag. -/
private theorem hasEnd (h : Balanced es) {before after : List Event}
    (hes : es = before ++ .start t :: after) : HasEnd after := by
  induction h generalizing before after with
  | nil => simp at hes
  | @flat e es hflat _ ih =>
    cases before with
    | nil =>
      obtain ⟨rfl, -⟩ := List.cons.inj hes
      cases hflat
    | cons f before => exact ih (List.cons.inj hes).2
  | @element t' inner name es inside _ ihInside ihRest =>
    cases before with
    | nil =>
      obtain ⟨-, rfl⟩ := List.cons.inj hes
      exact ⟨inner, name, es, rfl, inside⟩
    | cons f before =>
      have hrest := (List.cons.inj hes).2
      -- The start tag stands within the element or behind it.
      obtain ⟨middle, rfl, hsplit⟩ | ⟨middle, rfl, hsplit⟩ := List.append_eq_append_iff.1 hrest
      · cases middle with
        | nil => cases hsplit
        | cons g middle => exact ihRest (List.cons.inj hsplit).2
      · cases middle with
        | nil => cases hsplit
        | cons g middle =>
          obtain ⟨rfl, rfl⟩ := List.cons.inj hsplit
          obtain ⟨inner', name', rest', rfl, hinner⟩ := ihInside rfl
          exact ⟨inner', name', rest' ++ .close name :: es, by simp, hinner⟩

end Balanced

/-- How many elements are open after the events, if every end tag has a start tag. -/
def depth? (depth : Nat) : List Event → Option Nat
  | [] => some depth
  | .close _ :: es => if depth = 0 then none else depth? (depth - 1) es
  | e :: es => depth? (e.depthAfter depth) es

theorem Balanced.depth?_append {es : List Event} (h : Balanced es) (depth : Nat)
    (es' : List Event) : depth? depth (es ++ es') = depth? depth es' := by
  induction h generalizing depth es' with
  | nil => rfl
  | @flat e es hflat _ ih =>
    cases e with
    | start _ | close _ => cases hflat
    | empty _ | text _ | characterData _ | comment | instruction | documentType =>
      exact ih depth es'
  | @element t inner name es _ _ ihInside ihRest =>
    calc depth? depth (.start t :: (inner ++ .close name :: es) ++ es')
      _ = depth? (depth + 1) (inner ++ (.close name :: (es ++ es'))) := by
        rw [List.cons_append, List.append_assoc]
        rfl
      _ = depth? depth (es ++ es') := by
        rw [ihInside]
        rfl
      _ = depth? depth es' := ihRest depth es'

/-- No end tag is left over. -/
private theorem Balanced.not_hasEnd {es : List Event} (h : Balanced es) : ¬ HasEnd es := by
  rintro ⟨inner, name, rest, rfl, hinner⟩
  have hwhole := h.depth?_append 0 []
  rw [List.append_nil, hinner.depth?_append] at hwhole
  cases hwhole

/-- Only one start tag is the last without an end tag. -/
theorem LastUnclosed.unique {events : List (Nat × Event)} {offset offset' : Nat} {t t' : Tag}
    (h : LastUnclosed events offset t) (h' : LastUnclosed events offset' t') :
    offset = offset' ∧ t = t' := by
  obtain ⟨before, after, rfl, hopen, hlast⟩ := h
  obtain ⟨before', after', heq, hopen', hlast'⟩ := h'
  obtain ⟨middle, rfl, hsplit⟩ | ⟨middle, rfl, hsplit⟩ := List.append_eq_append_iff.1 heq <;>
    cases middle with
  | nil =>
    cases hsplit
    exact ⟨rfl, rfl⟩
  | cons x middle => ?_
  · exact absurd ⟨middle, after', (List.cons.inj hsplit).2, hopen'⟩ (hlast offset' t')
  · exact absurd ⟨middle, after, (List.cons.inj hsplit).2, hopen⟩ (hlast' offset t)

/-- The start tags without an end tag are those of the elements given, the innermost first, each
with its offset. -/
inductive Nests : List (Nat × List Char) → List (Nat × Event) → Prop
  | outside {events : List (Nat × Event)} (h : Balanced (events.map (·.2))) : Nests [] events
  | inside {opened : List (Nat × List Char)} {before after : List (Nat × Event)}
      {offset : Nat} {t : Tag} (outer : Nests opened before) (h : Balanced (after.map (·.2))) :
      Nests ((offset, t.name) :: opened) (before ++ (offset, .start t) :: after)

namespace Nests

variable {opened : List (Nat × List Char)} {events later : List (Nat × Event)} {x : Nat × List Char}

theorem append (h : Nests opened events) (hlater : Balanced (later.map (·.2))) :
    Nests opened (events ++ later) := by
  cases h with
  | outside h =>
    refine .outside ?_
    rw [List.map_append]
    exact h.append hlater
  | inside outer h =>
    rw [List.append_assoc, List.cons_append]
    refine .inside outer ?_
    rw [List.map_append]
    exact h.append hlater

theorem start (h : Nests opened events) (offset : Nat) (t : Tag) :
    Nests ((offset, t.name) :: opened) (events ++ [(offset, .start t)]) := .inside h .nil

/-- An end tag is that of the innermost element. -/
theorem close (h : Nests (x :: opened) events) (offset : Nat) (name : List Char) :
    Nests opened (events ++ [(offset, .close name)]) := by
  cases h with
  | inside outer h =>
    rw [List.append_assoc]
    refine outer.append ?_
    rw [List.cons_append, List.map_cons, List.map_append]
    exact .element h .nil

theorem not_unclosed {offset : Nat} {t : Tag} (h : Balanced (events.map (·.2))) :
    ¬ Unclosed events offset t := by
  rintro ⟨before, after, rfl, hopen⟩
  exact hopen (h.hasEnd (by rw [List.map_append, List.map_cons]))

/-- The innermost element is that of the last start tag without an end tag. -/
private theorem lastUnclosed (h : Nests (x :: opened) events) : ∃ t, t.name = x.2 ∧
    LastUnclosed events x.1 t := by
  cases h with
  | @inside _ before after offset t outer h =>
    exact ⟨t, rfl, before, after, rfl, h.not_hasEnd, fun _ _ => not_unclosed h⟩

end Nests

/-! ## What the reader gives -/

/-- Every end tag has the name of the innermost open element. -/
inductive Matched : List (List Char) → List Event → Prop
  | nil (opened : List (List Char)) : Matched opened []
  | cons {opened opened' : List (List Char)} {e : Event} {es : List Event}
      (enters : e.enter opened = .ok opened') (rest : Matched opened' es) : Matched opened (e :: es)

private theorem Reading.matched {total : Nat} {opened opened' : List (List Char)}
    {cs rest : List Char}
    {events : List (Nat × Event)} (h : Reading total opened cs events opened' rest) :
    Matched opened (events.map (·.2)) := by
  induction h with
  | done opened _ => exact .nil opened
  | step _ enters _ ih => exact .cons enters ih

private theorem matched_readFrom (total : Nat) (opened : List (List Char)) (cs : List Char) :
    Matched opened ((EventStream.readFrom total opened cs).events.map (·.2)) := by
  obtain ⟨_, _, hreading, -⟩ := Reading.of_readFrom total opened cs
  exact hreading.matched

/-! ## The forest and the events read -/

/-- An element that is open, written out as far as it was read. -/
def OpenElement.tokens (e : OpenElement) : List Token :=
  .start e.tag e.attributes :: tokensOf e.children

namespace Forest

/-- A forest written out as far as it was read. -/
def tokens (f : Forest) : List Token :=
  tokensOf f.nodes ++ f.opened.reverse.flatMap OpenElement.tokens

/-- The offsets and names of the open elements, the innermost first. -/
def marks (f : Forest) : List (Nat × List Char) := f.opened.map fun e => (e.offset, e.tag.toList)

theorem tokens_push (f : Forest) (n : Node) : (f.push n).tokens = f.tokens ++ n.tokens := by
  obtain ⟨nodes, opened⟩ := f
  cases opened with
  | nil => simp [push, tokens]
  | cons parent outer => simp [push, tokens, OpenElement.tokens]

theorem marks_push (f : Forest) (n : Node) : (f.push n).marks = f.marks := by
  obtain ⟨nodes, opened⟩ := f
  cases opened <;> rfl

theorem length_opened_push (f : Forest) (n : Node) : (f.push n).opened.length =
    f.opened.length := by
  obtain ⟨nodes, opened⟩ := f
  cases opened <;> rfl

private theorem tokens_enter (f : Forest) (tag : String) (attributes : List Attribute)
    (offset : Nat) :
    (f.enter tag attributes offset).tokens = f.tokens ++ [.start tag attributes] := by
  simp [enter, tokens, OpenElement.tokens]

/-- An element that is left is written out with its end. -/
private theorem tokens_leave (nodes : List Node) (e : OpenElement) (outer : List OpenElement) :
    (leave ⟨nodes, e :: outer⟩).tokens = tokens ⟨nodes, e :: outer⟩ ++ [.close e.tag] := by
  have hleave : leave ⟨nodes, e :: outer⟩ =
    push ⟨nodes, outer⟩ (.element e.tag e.attributes e.children) := rfl
  rw [hleave, tokens_push]
  simp [tokens, OpenElement.tokens, Node.tokens]

/-- The forest is what the events write, and its open elements are the start tags without an end
tag. -/
structure Reads (f : Forest) (events : List (Nat × Event)) : Prop where
  tokens : tokensFrom? 0 (events.map (·.2)) = some f.tokens
  depth : (events.map (·.2)).foldl Event.depthAfter 0 = f.opened.length
  nests : Nests f.marks events

theorem reads_empty : empty.Reads [] := ⟨rfl, rfl, .outside .nil⟩

theorem readTag_eq_ok_iff {t : Tag} {tag : String} {attributes : List Attribute} :
    readTag t = .ok (tag, attributes) ↔ tag = String.ofList t.name ∧
    t.attributes = .ok attributes := by
  unfold readTag
  cases t.attributes with
  | error e => simp
  | ok attributes' => simp [eq_comm]

namespace Reads

variable {f g : Forest} {events : List (Nat × Event)} {offset : Nat} {e : Event} {ts : List Token}

/-- One more event writes what the forest gains. -/
theorem snoc (h : f.Reads events) (he : e.tokens? f.opened.length = some ts)
    (htokens : g.tokens = f.tokens ++ ts)
    (hdepth : e.depthAfter f.opened.length = g.opened.length)
    (hnests : Nests g.marks (events ++ [(offset, e)])) :
    g.Reads (events ++ [(offset, e)]) where
  tokens := by
    rw [List.map_append, tokensFrom?_append, h.tokens, h.depth, htokens]
    simp [tokensFrom?, he]
  depth := by
    rw [List.map_append, List.foldl_append, h.depth]
    exact hdepth
  nests := hnests

/-- An event that opens and closes nothing may leave a node, or nothing. -/
theorem push (h : f.Reads events) (hflat : e.isFlat = true) {n : Node}
    (he : e.tokens? f.opened.length = some n.tokens) :
    (f.push n).Reads (events ++ [(offset, e)]) := by
  refine h.snoc he (tokens_push f n) ?_ ?_
  · rw [length_opened_push]
    cases e <;> first | rfl | cases hflat
  · rw [marks_push]
    exact h.nests.append (.singleton hflat)

theorem skip (h : f.Reads events) (hflat : e.isFlat = true)
    (he : e.tokens? f.opened.length = some []) : f.Reads (events ++ [(offset, e)]) := by
  refine h.snoc he (List.append_nil _).symm ?_ (h.nests.append (.singleton hflat))
  cases e <;> first | rfl | cases hflat

/-- A start tag opens an element. -/
theorem start {t : Tag} {attributes : List Attribute} (h : f.Reads events)
    (ht : t.attributes = .ok attributes) :
    (f.enter (String.ofList t.name) attributes offset).Reads (events ++ [(offset, .start t)]) := by
  refine h.snoc ?_ (tokens_enter f _ attributes offset) rfl ?_
  · simp [Event.tokens?, ht, Except.toOption]
  · have hmarks : (f.enter (String.ofList t.name) attributes offset).marks =
        (offset, t.name) :: f.marks := by
      simp [enter, marks]
    rw [hmarks]
    exact h.nests.start offset t

/-- An end tag finishes the innermost element, whose name it has. -/
theorem close {nodes : List Node} {o : OpenElement} {outer : List OpenElement}
    (h : Reads ⟨nodes, o :: outer⟩ events) :
    (leave ⟨nodes, o :: outer⟩).Reads (events ++ [(offset, .close o.tag.toList)]) := by
  refine h.snoc ?_ (tokens_leave nodes o outer) (length_opened_push ⟨nodes, outer⟩ _).symm ?_
  · simp [Event.tokens?]
  · have hmarks : (leave ⟨nodes, o :: outer⟩).marks = marks ⟨nodes, outer⟩ := marks_push _ _
    rw [hmarks]
    exact h.nests.close offset o.tag.toList

/-- The forest goes along with every event that it accepts. -/
theorem accept {opened : List (List Char)} (h : f.Reads events)
    (henter : e.enter f.names = .ok opened)
    (haccept : f.accept offset e = .ok g) : g.Reads (events ++ [(offset, e)]) ∧
    g.names = opened := by
  cases e with
  | start t =>
    cases hread : readTag t with
    | error cause => simp [Forest.accept, hread, bind, Except.bind] at haccept
    | ok p =>
      obtain ⟨tag, attributes⟩ := p
      obtain ⟨rfl, hattributes⟩ := readTag_eq_ok_iff.1 hread
      simp only [Forest.accept, hread, bind, Except.bind, pure, Except.pure,
        Except.ok.injEq] at haccept
      subst haccept
      refine ⟨h.start hattributes, ?_⟩
      rw [names_enter, String.toList_ofList]
      exact Except.ok.inj henter
  | empty t =>
    cases hread : readTag t with
    | error cause => simp [Forest.accept, hread, bind, Except.bind] at haccept
    | ok p =>
      obtain ⟨tag, attributes⟩ := p
      obtain ⟨rfl, hattributes⟩ := readTag_eq_ok_iff.1 hread
      simp only [Forest.accept, hread, bind, Except.bind, pure, Except.pure,
        Except.ok.injEq] at haccept
      subst haccept
      refine ⟨h.push rfl ?_, (names_push f _).trans (Except.ok.inj henter)⟩
      simp [Event.tokens?, hattributes, Except.toOption, Node.tokens]
  | close name =>
    obtain rfl := Except.ok.inj haccept
    obtain ⟨nodes, opened'⟩ := f
    cases opened' with
    | nil => cases henter
    | cons o outer =>
      simp only [Event.enter, names, List.map_cons] at henter
      split at henter
      · next hname =>
        subst hname
        exact ⟨h.close, (names_push ⟨nodes, outer⟩ _).trans (Except.ok.inj henter)⟩
      · cases henter
  | text raw =>
    cases hdecode : Entity.decode raw with
    | error cause => simp [Forest.accept, hdecode] at haccept
    | ok content =>
      simp only [Forest.accept, hdecode] at haccept
      split at haccept
      · next hblank =>
        cases haccept
        cases henter
        refine ⟨h.skip rfl ?_, rfl⟩
        simp_all [Event.tokens?, Except.toOption]
      · next hkept =>
        cases haccept
        refine ⟨h.push rfl ?_, (names_push f _).trans (Except.ok.inj henter)⟩
        simp_all [Event.tokens?, Except.toOption, Node.tokens]
  | characterData content =>
    cases haccept
    exact ⟨h.push rfl (by rw [Node.tokens]; rfl), (names_push f _).trans (Except.ok.inj henter)⟩
  | comment | instruction | documentType =>
    cases haccept
    cases henter
    exact ⟨h.skip rfl rfl, rfl⟩

/-- The forest goes along with all events of the reader that it accepts. -/
theorem acceptAll {later : List (Nat × Event)} (h : f.Reads events)
    (hm : Matched f.names (later.map (·.2)))
    (haccept : f.acceptAll later = .ok g) : g.Reads (events ++ later) := by
  induction later generalizing f events with
  | nil =>
    cases haccept
    rwa [List.append_nil]
  | cons x later ih =>
    obtain ⟨offset, e⟩ := x
    cases hm with
    | cons enters rest =>
      simp only [Forest.acceptAll] at haccept
      split at haccept
      · next f' haccepted =>
        obtain ⟨hreads, rfl⟩ := h.accept enters haccepted
        rw [List.append_cons]
        exact ih hreads rest haccept
      · cases haccept

end Reads

/-! ## Events that decode are accepted -/

theorem accept_of_decodes {e : Event} (h : e.Decodes) (f : Forest) (offset : Nat) :
    ∃ g, f.accept offset e = .ok g := by
  cases e with
  | start t | empty t =>
    obtain ⟨attributes, ht⟩ := h
    have hread := readTag_eq_ok_iff.2 ⟨rfl, ht⟩
    simp [accept, hread, bind, Except.bind, pure, Except.pure]
  | text raw =>
    obtain ⟨content, hdecode⟩ := h
    simp only [accept, hdecode]
    split <;> exact ⟨_, rfl⟩
  | close _ | characterData _ | comment | instruction | documentType => exact ⟨_, rfl⟩

private theorem acceptAll_of_decodes {events : List (Nat × Event)} (h : ∀ x ∈ events, x.2.Decodes)
    (f : Forest) : ∃ g, f.acceptAll events = .ok g := by
  induction events generalizing f with
  | nil => exact ⟨f, rfl⟩
  | cons x events ih =>
    obtain ⟨hx, hevents⟩ := List.forall_mem_cons.1 h
    obtain ⟨g, hg⟩ := accept_of_decodes hx f x.1
    simp only [acceptAll, hg]
    exact ih hevents g

/-! ## Parsing -/

/-- The forest that was read from all events of some markup. -/
theorem reads_ofMarkup {cs : List Char} {g : Forest}
    (h : empty.acceptAll (EventStream.ofMarkup cs).events = .ok g) : g.Reads
    (EventStream.ofMarkup cs).events :=
  reads_empty.acceptAll (matched_readFrom _ [] _) h

/-- A parse that succeeds has come to the end of the events with no element open. -/
theorem parse_eq_ok_iff {markup : String} {nodes : List Node} :
    parse markup = .ok nodes ↔ (EventStream.ofMarkup markup.toList).failure? = none ∧
      empty.acceptAll (EventStream.ofMarkup markup.toList).events = .ok ⟨nodes, []⟩ := by
  unfold parse ofStream
  cases empty.acceptAll (EventStream.ofMarkup markup.toList).events with
  | error e => simp
  | ok f =>
    obtain ⟨nodes', opened⟩ := f
    cases (EventStream.ofMarkup markup.toList).failure? with
    | some failure => simp
    | none => cases opened <;> simp

/-- When everything can be read and decoded, every start tag has an end tag and there are nodes, or
the error is about the last start tag that has none. -/
theorem parse_outcome {markup : String}
    (hread : (EventStream.ofMarkup markup.toList).failure? = none)
    (hdecodes : ∀ x ∈ (EventStream.ofMarkup markup.toList).events, x.2.Decodes) :
    (∃ nodes, parse markup = .ok nodes ∧
        ∀ offset t, ¬ Unclosed (EventStream.ofMarkup markup.toList).events offset t) ∨
      ∃ offset t, LastUnclosed (EventStream.ofMarkup markup.toList).events offset t ∧
        parse markup =
          .error ⟨.neverClosed (String.ofList t.name), .ofOffset markup.toList offset⟩ := by
  obtain ⟨⟨nodes, opened⟩, haccept⟩ := acceptAll_of_decodes hdecodes empty
  have hnests := (reads_ofMarkup haccept).nests
  cases opened with
  | nil =>
    cases hnests with
    | outside hbalanced =>
      exact .inl ⟨nodes, parse_eq_ok_iff.2 ⟨hread, haccept⟩,
        fun _ _ => Nests.not_unclosed hbalanced⟩
  | cons o outer =>
    obtain ⟨t, hname, hlast⟩ := hnests.lastUnclosed
    refine .inr ⟨o.offset, t, hlast, ?_⟩
    rw [hname, String.ofList_toList]
    simp only [parse, ofStream, haccept, hread]

/-- What parsing has to do with the events of the markup. -/
structure FollowsEvents (markup : String) (s : EventStream) : Prop where
  /-- The nodes, written out, are the events. -/
  tokens : ∀ nodes, parse markup = .ok nodes →
    s.failure? = none ∧ tokensFrom? 0 (s.events.map (·.2)) = some (tokensOf nodes)
  /-- If all can be read and decoded, the parse fails exactly if some start tag has no end tag. -/
  fails_iff : s.failure? = none → (∀ x ∈ s.events, x.2.Decodes) →
    ((∃ e, parse markup = .error e) ↔ ∃ offset t, Unclosed s.events offset t)
  /-- Then the error is about the last start tag that has no end tag. -/
  last : s.failure? = none → (∀ x ∈ s.events, x.2.Decodes) →
    ∀ offset t, LastUnclosed s.events offset t →
    parse markup = .error ⟨.neverClosed (String.ofList t.name), .ofOffset markup.toList offset⟩

/-- Parsing goes by the events of the markup and by nothing else. -/
theorem parse_follows_events (markup : String) :
    FollowsEvents markup (EventStream.ofMarkup markup.toList) where
  tokens nodes h := by
    obtain ⟨hread, haccept⟩ := parse_eq_ok_iff.1 h
    refine ⟨hread, ?_⟩
    rw [(reads_ofMarkup haccept).tokens]
    simp [Forest.tokens]
  fails_iff hread hdecodes := by
    obtain ⟨nodes, hparse, hnone⟩ | ⟨offset, t, hlast, hparse⟩ := parse_outcome hread hdecodes
    · refine iff_of_false ?_ fun ⟨offset, t, h⟩ => hnone offset t h
      rintro ⟨e, he⟩
      cases hparse.symm.trans he
    · obtain ⟨before, after, hevents, hopen, -⟩ := hlast
      exact iff_of_true ⟨_, hparse⟩ ⟨offset, t, before, after, hevents, hopen⟩
  last hread hdecodes offset t h := by
    obtain ⟨nodes, -, hnone⟩ | ⟨offset', t', hlast, hparse⟩ := parse_outcome hread hdecodes
    · obtain ⟨before, after, hevents, hopen, -⟩ := h
      exact absurd ⟨before, after, hevents, hopen⟩ (hnone offset t)
    · obtain ⟨rfl, rfl⟩ := h.unique hlast
      exact hparse

end Forest

end ReactiveMarkup.Markup
