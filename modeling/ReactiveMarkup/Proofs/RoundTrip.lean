-- SUMMARY: Parsing gives back a forest, whichever way it was written.
import ReactiveMarkup.Proofs.EventParts

/-!
# Parsing what was written

A forest read so far and the markup that is left determine the outcome of parsing; `Forest.resume`
is that function. Each written part takes `resume` one step on, and by induction on the ways of
writing a forest, parsing gives the forest back, whichever way was chosen.
-/

namespace ReactiveMarkup.Markup.Forest

/-! ## Parsing from some point on -/

/-- The names of the open elements, the innermost first. -/
def names (f : Forest) : List (List Char) := f.opened.map (·.tag.toList)

/-- The nodes of a forest after the events of a stream, or the cause of an error with its offset. -/
def finish (f : Forest) (s : EventStream) : Except (ParseCause × Nat) (List Node) :=
  match f.acceptAll s.events with
  | .error e => .error e
  | .ok f =>
    match s.failure?, f.opened with
    | some failure, _ => .error (.read failure.error, failure.offset)
    | none, e :: _ => .error (.neverClosed e.tag, e.offset)
    | none, [] => .ok f.nodes

/-- The nodes of a forest after the rest of the markup. -/
def resume (total : Nat) (f : Forest) (cs : List Char) : Except (ParseCause × Nat) (List Node) :=
  f.finish (EventStream.readFrom total f.names cs)

@[simp] theorem names_push (f : Forest) (n : Node) : (f.push n).names = f.names := by
  obtain ⟨nodes, opened⟩ := f
  cases opened <;> rfl

@[simp] theorem isEmpty_opened_push (f : Forest) (n : Node) :
    (f.push n).opened.isEmpty = f.opened.isEmpty := by
  obtain ⟨nodes, opened⟩ := f
  cases opened <;> rfl

@[simp] theorem names_foldl_push (f : Forest) (ns : List Node) :
    (ns.foldl push f).names = f.names := by
  induction ns generalizing f with
  | nil => rfl
  | cons n ns ih => rw [List.foldl_cons, ih, names_push]

@[simp] theorem names_enter (f : Forest) (tag : String) (attributes : List Attribute)
    (offset : Nat) : (f.enter tag attributes offset).names = tag.toList :: f.names := rfl

/-- Nodes that are pushed outside of all elements are the finished nodes. -/
private theorem foldl_push_nil (nodes ns : List Node) : ns.foldl push ⟨nodes, []⟩ =
    ⟨nodes ++ ns, []⟩ := by
  induction ns generalizing nodes with
  | nil => simp
  | cons n ns ih => simp [push, ih]

/-- Nodes that are pushed into an open element become its children. -/
private theorem foldl_push_cons (nodes : List Node) (e : OpenElement) (outer : List OpenElement)
    (ns : List Node) :
    ns.foldl push ⟨nodes, e :: outer⟩ =
      ⟨nodes, { e with children := e.children ++ ns } :: outer⟩ := by
  induction ns generalizing e with
  | nil => simp
  | cons n ns ih => simp [push, ih]

/-- An element that is entered, filled and left is pushed as one node. -/
private theorem leave_foldl_push_enter (f : Forest) (tag : String) (attributes : List Attribute)
    (offset : Nat) (ns : List Node) :
    (ns.foldl push (f.enter tag attributes offset)).leave =
      f.push (.element tag attributes ns) := by
  rw [enter, foldl_push_cons]
  rfl

/-- Parsing goes on behind an event that is read and accepted. -/
theorem resume_event {total : Nat} {f g : Forest} {cs rest : List Char} {e : Event}
    (hread : Event.read total cs = .ok (some (e, rest))) (henter : e.enter f.names = .ok g.names)
    (haccept : f.accept (total - byteLength cs) e = .ok g) :
    f.resume total cs = g.resume total rest := by
  rw [resume, EventStream.readFrom_step hread henter, finish, acceptAll, haccept]
  rfl

private theorem resume_nil (total : Nat) (nodes : List Node) : resume total ⟨nodes, []⟩
    [] = .ok nodes := by
  rw [resume, EventStream.readFrom]
  rfl

/-! ## Parts of the markup -/

/-- Comments and instructions leave the forest alone. -/
private theorem resume_skip {total : Nat} {f : Forest} {cs rest : List Char} {e : Event}
    (hread : Event.read total cs = .ok (some (e, rest))) (he : e = .comment ∨ e = .instruction) :
    f.resume total cs = f.resume total rest := by
  rcases he with rfl | rfl <;> exact resume_event hread rfl rfl

/-- A text is pushed as it was before it was spelled, unless it is dropped. -/
private theorem resume_text {content : String} {raw rest : List Char} (hcontent : content ≠ "")
    (hraw : Spells IsPlain content.toList raw) (hrest : EndsText rest) (total : Nat) (f : Forest) :
    f.resume total (raw ++ rest) =
      (if f.opened.isEmpty && Text.allBlank content then f else f.push
        (.text content)).resume total rest := by
  have hne : raw ≠ [] := hraw.ne_nil (by simpa using hcontent)
  have hplain : '<' ∉ raw := hraw.not_mem (by decide) (fun h => h.2 rfl)
  have hdecode : Entity.decode raw = .ok content := by
    rw [Entity.decode_spells hraw (fun h => h.1 rfl), String.ofList_toList]
  refine resume_event (Event.read_text hne hplain hrest total) ?_ ?_
  · split <;> simp [Event.enter]
  · rw [accept, hdecode]
    dsimp only
    split <;> rfl

private theorem resume_empty {tag : String} {attributes : List Attribute} {content : List Char}
    (h : WritesTag tag attributes content) (total : Nat) (f : Forest) (rest : List Char) :
    f.resume total ('<' :: (content ++ '/' :: '>' :: rest)) =
      (f.push (.element tag attributes [])).resume total rest := by
  refine resume_event (Event.read_empty h total rest) (by simp [Event.enter]) ?_
  rw [accept, h.readTag.2]
  rfl

/-- A start tag opens its element. Where it began matters only if it is never closed. -/
private theorem resume_start {tag : String} {attributes : List Attribute} {content : List Char}
    (h : WritesTag tag attributes content) (total : Nat) (f : Forest) (rest : List Char) :
    ∃ offset, f.resume total ('<' :: (content ++ '>' :: rest)) =
      (f.enter tag attributes offset).resume total rest := by
  refine ⟨total - byteLength ('<' :: (content ++ '>' :: rest)),
    resume_event (Event.read_start h total rest) ?_ ?_⟩
  · rw [Event.enter, h.readTag.1]
    rfl
  · rw [accept, h.readTag.2]
    rfl

/-- An end tag closes the element whose name it has. -/
private theorem resume_close {tag : String} (h : IsName tag) {after : List Char}
    (hafter : IsGap after)
    (total : Nat) {f g : Forest} (hopen : f.names = tag.toList :: g.names) (hleave : f.leave = g)
    (rest : List Char) :
    f.resume total ('<' :: '/' :: (tag.toList ++ after ++ '>' :: rest)) = g.resume total rest := by
  refine resume_event (Event.read_close h hafter total rest) ?_ (congrArg Except.ok hleave)
  rw [hopen, Event.enter, if_pos rfl]

/-! ## Forests -/

/-- What is written for a forest is read as that forest, wherever it stands. -/
private theorem resume_writes {outside : Bool} {ns : List Node} {raw : List Char}
    (h : Writes outside ns raw)
    (total : Nat) {f : Forest} (hf : f.opened.isEmpty = outside) {rest : List Char}
    (hrest : EndsText rest) :
    f.resume total (raw ++ rest) = (ns.foldl push f).resume total rest := by
  induction h generalizing f rest with
  | nil => rfl
  | @comment outside ns content others closed _ ih =>
    rw [List.append_assoc, resume_skip (Event.read_comment closed total _) (.inl rfl)]
    exact ih hf hrest
  | @instruction outside ns content others closed _ ih =>
    rw [List.append_assoc, resume_skip (Event.read_instruction closed total _) (.inr rfl)]
    exact ih hf hrest
  | @blank ns content raw others nonempty blank spelled stop _ ih =>
    have hcontent : String.ofList content ≠ "" := by simpa using nonempty
    have hspelled : Spells IsPlain (String.ofList content).toList raw :=
      by rwa [String.toList_ofList]
    have hblank : Text.allBlank (String.ofList content) = true := by
      rwa [Text.allBlank, String.toList_ofList]
    rw [List.append_assoc, resume_text hcontent hspelled (stop.append hrest), hf, hblank]
    exact ih hf hrest
  | @text outside ns content raw others nonempty seen spelled stop _ ih =>
    have hkept : (f.opened.isEmpty && Text.allBlank content) = false := by
      rw [hf]
      cases outside with
      | false => rfl
      | true => exact seen rfl
    rw [List.append_assoc, resume_text nonempty spelled (stop.append hrest), hkept]
    exact ih (by simpa using hf) hrest
  | @empty outside ns tag attributes content others written _ ih =>
    have hwhole : ['<'] ++ content ++ ['/', '>'] ++ others ++ rest =
        '<' :: (content ++ '/' :: '>' :: (others ++ rest)) := by simp
    rw [hwhole, resume_empty written]
    exact ih (by simpa using hf) hrest
  | @element outside ns children tag attributes content inner after others written _ gap _
    ihInside ihOthers =>
    have hwhole : ['<'] ++ content ++ ['>'] ++ inner ++ ['<', '/'] ++ tag.toList ++ after ++
      ['>'] ++ others ++ rest = '<' :: (content ++ '>' :: (inner ++
          '<' :: '/' :: (tag.toList ++ after ++ '>' :: (others ++ rest)))) := by simp
    obtain ⟨offset, hstart⟩ := resume_start written total f
      (inner ++ '<' :: '/' :: (tag.toList ++ after ++ '>' :: (others ++ rest)))
    have hname : IsName tag := by
      obtain ⟨name, -, -, -⟩ := written
      exact name
    have hopen : (children.foldl push (f.enter tag attributes offset)).names =
        tag.toList :: (f.push (.element tag attributes children)).names := by simp
    rw [hwhole, hstart, ihInside rfl (by rintro c ⟨⟩; rfl),
      resume_close hname gap total hopen (leave_foldl_push_enter f tag attributes offset children)]
    exact ihOthers (by simpa using hf) hrest

/-- The events of markup that writes a forest build that forest. -/
theorem ofStream_writes {ns : List Node} {cs : List Char} (h : Writes true ns cs)
    (hmark : cs.head? ≠ some '\uFEFF') : ofStream (EventStream.ofMarkup cs) = .ok ns := by
  have hkept : EventStream.withoutMark cs = cs := by
    cases cs with
    | nil => rfl
    | cons c cs =>
      have hc : c.toNat ≠ 0xFEFF :=
        fun he => hmark (by rw [List.head?_cons, ← Char.ofNat_toNat c, he])
      exact if_neg hc
  have hstream : ofStream (EventStream.ofMarkup cs) = resume (byteLength cs) empty (cs ++ []) := by
    rw [EventStream.ofMarkup, hkept, List.append_nil]
    rfl
  rw [hstream, resume_writes h _ rfl (by rintro c ⟨⟩), empty, foldl_push_nil, resume_nil,
    List.nil_append]

/-- Parsing undoes every way of writing a forest. -/
theorem parse_writes {ns : List Node} {markup : String} (h : Writes true ns markup.toList)
    (hmark : markup.toList.head? ≠ some '\uFEFF') : parse markup = .ok ns := by
  rw [parse, ofStream_writes h hmark]

/-- A card with two values, written with an instruction before it, space within its tags, both kinds
of quotes, entities of all kinds, and a comment behind a text. -/
theorem parse_writes_card :
    Writes true
        [.element "card" [⟨"a", "<'"⟩, ⟨"b", "\"&"⟩] [.text "x&y", .element "br" [] []]]
        "<?v 1?> \n<card a=\"&lt;'\"\tb = '\"&#038;' >x&#x26;y<!-- - --><br /></card >".toList ∧
      parse "<?v 1?> \n<card a=\"&lt;'\"\tb = '\"&#038;' >x&#x26;y<!-- - --><br /></card >" =
        .ok [.element "card" [⟨"a", "<'"⟩, ⟨"b", "\"&"⟩] [.text "x&y", .element "br" [] []]] := by
  have hname : ∀ name ∈ ["card", "a", "b", "br"], IsName name := by decide +kernel
  have hgap : ∀ cs ∈ [[' '], ['\t', ' ', ' ']], IsGap cs := by decide
  have hstop (rest : List Char) : EndsText ('<' :: rest) := fun c hc => (Option.some.inj hc).symm
  have hlt : Spells (IsQuotable '"') ['<', '\''] "&lt;'".toList :=
    @Spells.entity _ '<' _ "lt".toList _ (.named (by decide)) (.itself ⟨by decide, by decide⟩ .nil)
  have h38 : Numeral 10 "038".toList 38 :=
    @Numeral.snoc _ "03".toList '8' 3 8 (@Numeral.snoc _ "0".toList '3' 0 3
      (.digit ⟨by decide, .inl rfl⟩) ⟨by decide, .inl rfl⟩) ⟨by decide, .inl rfl⟩
  have hamp : Spells (IsQuotable '\'') ['"', '&'] "\"&#038;".toList :=
    .itself ⟨by decide, by decide⟩
      (@Spells.entity _ '&' _ "#038".toList _ (.decimal h38 (by decide)) .nil)
  have h26 : Numeral 16 "26".toList 38 :=
    @Numeral.snoc _ "2".toList '6' 2 6 (.digit ⟨by decide, .inl rfl⟩) ⟨by decide, .inl rfl⟩
  have htext : Spells IsPlain ['x', '&', 'y'] "x&#x26;y".toList :=
    .itself ⟨by decide, by decide⟩
      (@Spells.entity _ '&' _ "#x26".toList _ (.hexadecimal h26 (by decide))
        (.itself ⟨by decide, by decide⟩ .nil))
  have hb : WritesAttributes [⟨"b", "\"&"⟩] "\tb = '\"&#038;'".toList :=
    @WritesAttributes.cons ⟨"b", "\"&"⟩ _ ['\t'] [' '] [' '] _ _ '\''
      (hname _ (by decide)) (by decide) (hgap _ (by decide)) (.inr rfl) hamp .nil
  have ha : WritesAttributes [⟨"a", "<'"⟩, ⟨"b", "\"&"⟩] " a=\"&lt;'\"\tb = '\"&#038;'".toList :=
    @WritesAttributes.cons ⟨"a", "<'"⟩ _ [' '] [] [] _ _ '"' (hname _ (by decide)) (by decide)
      (hgap _ (by decide)) (.inl rfl) hlt hb
  have hcard :
      WritesTag "card" [⟨"a", "<'"⟩, ⟨"b", "\"&"⟩] "card a=\"&lt;'\"\tb = '\"&#038;' ".toList :=
    @WritesTag.mk _ _ _ [' '] (hname _ (by decide)) (by decide) ha (hgap _ (by decide))
  have hbr : WritesTag "br" [] "br ".toList :=
    @WritesTag.mk _ _ _ [' '] (hname _ (by decide)) (by decide) .nil (hgap _ (by decide))
  have hinside :
      Writes false [.text "x&y", .element "br" [] []] "x&#x26;y<!-- - --><br />".toList :=
    @Writes.text _ _ "x&y" _ _ (by decide) (by decide) htext (hstop _)
      (@Writes.comment _ _ " - ".toList _ (by decide) (.empty hbr .nil))
  have hblank : Spells IsPlain [' ', '\n'] [' ', '\n'] :=
    .itself ⟨by decide, by decide⟩ (.itself ⟨by decide, by decide⟩ .nil)
  have hwrites : Writes true
      [.element "card" [⟨"a", "<'"⟩, ⟨"b", "\"&"⟩] [.text "x&y", .element "br" [] []]]
      "<?v 1?> \n<card a=\"&lt;'\"\tb = '\"&#038;' >x&#x26;y<!-- - --><br /></card >".toList :=
    @Writes.instruction _ _ "v 1".toList _ (by decide)
      (.blank (by decide) (by decide) hblank (hstop _)
        (@Writes.element _ _ _ _ _ _ _ [' '] _ hcard hinside (hgap _ (by decide)) .nil))
  exact ⟨hwrites, parse_writes hwrites (by decide)⟩

end ReactiveMarkup.Markup.Forest
