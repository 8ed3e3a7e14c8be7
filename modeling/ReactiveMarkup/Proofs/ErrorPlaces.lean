-- SUMMARY: The position that an error of parsing is reported at.
import Mathlib.Algebra.Module.Submodule.Lattice
import Mathlib.Data.List.Permutation
import ReactiveMarkup.Proofs.EventOrder
import ReactiveMarkup.Proofs.Positions

/-!
# Where errors are reported

An error that is not about reading is about one part of the markup: the first tag or text that
cannot be decoded, or the start tag of the last element that is never closed. `Concerns` finds the
part among the events, and `StandsBetween` finds it in the markup. `Forest.parse_error_place` says
that the error is reported at the first character of the part, unless the markup begins with a byte
order mark: offsets do not count the mark, so the error is reported three bytes too early then.
-/

namespace ReactiveMarkup.Markup

/-! ## Parts in their places -/

/-- The event is read from a part of the markup. If it is a text, it is not the rest of a longer
one, and it goes on up to a tag. -/
structure Event.StandsBetween (e : Event) (before part after : List Char) : Prop where
  part : e.Part part
  begins : ∀ raw, e = .text raw → ∀ c ∈ before.getLast?, c = '>'
  ends : e.MayPrecede after

/-- What is no text ends in `>`. -/
theorem Event.Part.getLast? {e : Event} {part : List Char} (h : e.Part part)
    (hnot : ∀ raw, e ≠ .text raw) : part.getLast? = some '>' := by
  have hlast (inner : List Char) : ('<' :: (inner ++ ['>'])).getLast? = some '>' := by
    rw [← List.cons_append, List.getLast?_concat]
  cases e with
  | text raw => exact absurd rfl (hnot raw)
  | start t =>
    obtain rfl := h
    exact hlast t.content
  | empty t =>
    obtain rfl := h
    simpa using hlast (t.content ++ ['/'])
  | close _ | characterData _ | comment | instruction | documentType =>
    obtain ⟨inner, rfl⟩ := h
    exact hlast inner

/-- Every event on a way through markup stands at its offset. -/
theorem Reading.standsBetween {total : Nat} {opened opened' : List (List Char)}
    {cs rest : List Char} {earlier later : List (Nat × Event)} {offset : Nat} {e : Event}
    (h : Reading total opened cs (earlier ++ (offset, e) :: later) opened' rest) :
    ∃ before part after, cs = before ++ (part ++ after) ∧ e.StandsBetween before part after ∧
      offset = total - byteLength (part ++ after) := by
  induction earlier generalizing opened cs with
  | nil =>
    cases h with
    | step read enters _ =>
      obtain ⟨part, rfl, hpart, hprecede, -⟩ := Event.exists_part read
      exact ⟨[], part, _, rfl, ⟨hpart, by rintro _ - _ ⟨⟩, hprecede⟩, rfl⟩
  | cons x earlier ih =>
    cases h with
    | @step _ _ _ _ cs₁ _ f _ read enters hrest =>
      obtain ⟨part₀, rfl, hpart₀, hprecede₀, -⟩ := Event.exists_part read
      obtain ⟨before, part, after, rfl, hstands, hoffset⟩ := ih hrest
      refine ⟨part₀ ++ before, part, after, by simp, ⟨hstands.part, ?_, hstands.ends⟩, hoffset⟩
      rintro raw rfl c hc
      cases before with
      | cons d before =>
        refine hstands.begins raw rfl c ?_
        simpa [List.getLast?_append, List.getLast?_cons] using hc
      | nil =>
        -- A text right before this one would go on with it.
        have hnot : ∀ raw₀, f ≠ .text raw₀ := by
          intro raw₀ hf
          obtain ⟨hraw, hne, hplain⟩ := hstands.part
          obtain ⟨d, ds, rfl⟩ := List.exists_cons_of_ne_nil hne
          obtain rfl : d = '<' := hprecede₀ raw₀ hf d (by simp [hraw])
          exact hplain List.mem_cons_self
        rw [List.append_nil, hpart₀.getLast? hnot] at hc
        exact (Option.some.inj hc).symm

/-! ## The byte order mark -/

namespace EventStream

/-- The byte order mark at the start of the markup, if there is one. -/
def mark : List Char → List Char
  | c :: _ => if c.toNat = 0xFEFF then [c] else []
  | [] => []

private theorem mark_append (markup : List Char) : mark markup ++ withoutMark markup = markup := by
  cases markup with
  | nil => rfl
  | cons c cs =>
    simp only [mark, withoutMark]
    split <;> rfl

/-- Every event of some markup stands at its offset, which does not count the mark. -/
theorem standsBetween {markup : List Char} {earlier later : List (Nat × Event)}
    {offset : Nat} {e : Event} (h : (ofMarkup markup).events = earlier ++ (offset, e) :: later) :
    ∃ before part after, withoutMark markup = before ++ (part ++ after) ∧
    e.StandsBetween before part after ∧ offset = byteLength before := by
  obtain ⟨opened, rest, hreading, -⟩ :=
    Reading.of_readFrom (byteLength (withoutMark markup)) [] (withoutMark markup)
  have hevents : (readFrom (byteLength (withoutMark markup)) [] (withoutMark markup)).events =
      earlier ++ (offset, e) :: later := h
  rw [hevents] at hreading
  obtain ⟨before, part, after, hsplit, hstands, hoffset⟩ := hreading.standsBetween
  refine ⟨before, part, after, hsplit, hstands, ?_⟩
  rw [hoffset, hsplit, byteLength_append before, Nat.add_sub_cancel]

end EventStream

/-! ## What errors are about -/

/-- The cause is what is wrong with the event. -/
def Event.IsWrong : Event → ParseCause → Prop
  | .start t, cause | .empty t, cause => ∃ error, t.attributes = .error error ∧ cause = .tag error
  | .text raw, cause => ∃ error, Entity.decode raw = .error error ∧ cause = .text error
  | .close _, _ | .characterData _, _ | .comment, _ | .instruction, _ | .documentType, _ => False

/-- The cause is about the event at the offset: it is the first one that is wrong, or nothing is
wrong but that the element is the last one that is never closed. -/
inductive ParseCause.Concerns (s : EventStream) : ParseCause → Nat → Event → Prop
  | wrong {earlier later : List (Nat × Event)} {offset : Nat} {e : Event} {cause : ParseCause}
      (events : s.events = earlier ++ (offset, e) :: later) (first : ∀ x ∈ earlier, x.2.Decodes)
      (wrong : e.IsWrong cause) : Concerns s cause offset e
  | unclosed {offset : Nat} {t : Tag} (complete : s.failure? = none)
      (decodes : ∀ x ∈ s.events, x.2.Decodes)
      (last : LastUnclosed s.events offset t) : Concerns s
      (.neverClosed (String.ofList t.name)) offset (.start t)

/-- What a cause is about is one of the events. -/
private theorem ParseCause.Concerns.exists_events {s : EventStream} {cause : ParseCause}
    {offset : Nat} {e : Event}
    (h : cause.Concerns s offset e) : ∃ earlier later, s.events = earlier ++
    (offset, e) :: later := by
  cases h with
  | wrong events _ _ => exact ⟨_, _, events⟩
  | unclosed _ _ last =>
    obtain ⟨earlier, later, events, -⟩ := last
    exact ⟨earlier, later, events⟩

namespace Forest

/-- What does not decode is wrong, and is refused for that. -/
private theorem accept_of_not_decodes {e : Event} (h : ¬ e.Decodes) (f : Forest) (offset : Nat) :
    ∃ cause, f.accept offset e = .error cause ∧ e.IsWrong cause := by
  cases e with
  | start t | empty t =>
    cases ht : t.attributes with
    | ok attributes => exact absurd ⟨attributes, ht⟩ h
    | error error =>
      refine ⟨.tag error, ?_, error, ht, rfl⟩
      simp only [accept, readTag, ht]
      rfl
  | text raw =>
    cases hdecode : Entity.decode raw with
    | ok content => exact absurd ⟨content, hdecode⟩ h
    | error error => exact ⟨.text error, by simp only [accept, hdecode], error, hdecode, rfl⟩
  | close _ | characterData _ | comment | instruction | documentType => exact absurd trivial h

/-- Events are accepted up to the first one that is wrong. -/
private theorem acceptAll_cases (f : Forest) (events : List (Nat × Event)) :
    (∃ g, f.acceptAll events = .ok g ∧ ∀ x ∈ events, x.2.Decodes) ∨
      ∃ earlier offset e later cause, events = earlier ++ (offset, e) :: later ∧
        (∀ x ∈ earlier, x.2.Decodes) ∧ e.IsWrong cause ∧
        f.acceptAll events = .error (cause, offset) := by
  induction events generalizing f with
  | nil => exact .inl ⟨f, rfl, by simp⟩
  | cons x events ih =>
    obtain ⟨offset, e⟩ := x
    by_cases hdecodes : e.Decodes
    · obtain ⟨g, hg⟩ := accept_of_decodes hdecodes f offset
      have hgo : f.acceptAll ((offset, e) :: events) = g.acceptAll events :=
        by simp only [acceptAll, hg]
      obtain ⟨g', hg', hall⟩ |
        ⟨earlier, offset', e', later, cause, rfl, hearlier, hwrong, herror⟩ := ih g
      · exact .inl ⟨g', hgo.trans hg', List.forall_mem_cons.2 ⟨hdecodes, hall⟩⟩
      · exact .inr ⟨(offset, e) :: earlier, offset', e', later, cause, rfl,
          List.forall_mem_cons.2 ⟨hdecodes, hearlier⟩, hwrong, hgo.trans herror⟩
    · obtain ⟨cause, hcause, hwrong⟩ := accept_of_not_decodes hdecodes f offset
      exact .inr ⟨[], offset, e, events, cause, rfl, by simp, hwrong,
        by simp only [acceptAll, hcause]⟩

/-- An error that is not about reading is about an event, and reported at the offset of the
event. -/
private theorem concerns_of_parse {markup : String} {e : ParseError} (h : parse markup = .error e)
    (hcause : ∀ error, e.cause ≠ .read error) :
    ∃ offset event, e.cause.Concerns (EventStream.ofMarkup markup.toList) offset event ∧
      e.position = .ofOffset markup.toList offset := by
  obtain ⟨g, hg, hdecodes⟩ |
    ⟨earlier, offset, event, later, cause, hevents, hfirst, hwrong, herror⟩ :=
    acceptAll_cases empty (EventStream.ofMarkup markup.toList).events
  · cases hfailure : (EventStream.ofMarkup markup.toList).failure? with
    | some failure =>
      have hparse :
          parse markup = .error ⟨.read failure.error, .ofOffset markup.toList failure.offset⟩ := by
        simp only [parse, ofStream, hg, hfailure]
      cases hparse.symm.trans h
      exact absurd rfl (hcause failure.error)
    | none =>
      obtain ⟨nodes, hok, -⟩ | ⟨offset, t, hlast, herror⟩ := parse_outcome hfailure hdecodes
      · cases hok.symm.trans h
      · cases herror.symm.trans h
        exact ⟨offset, .start t, .unclosed hfailure hdecodes hlast, rfl⟩
  · have hparse : parse markup = .error ⟨cause, .ofOffset markup.toList offset⟩ := by
      simp only [parse, ofStream, herror]
    cases hparse.symm.trans h
    exact ⟨offset, event, .wrong hevents hfirst hwrong, rfl⟩

open EventStream in
/-- An error that is not about reading is about a part of the markup. It is reported at the offset
of the part behind the byte order mark, which is the place of the part if and only if there is no
mark. -/
theorem parse_error_place {markup : String} {e : ParseError} (h : parse markup = .error e)
    (hcause : ∀ error, e.cause ≠ .read error) :
    ∃ before part after event, markup.toList = mark markup.toList ++ (before ++ (part ++ after)) ∧
      event.StandsBetween before part after ∧
      e.cause.Concerns (ofMarkup markup.toList) (byteLength before) event ∧
      e.position = .ofOffset markup.toList (byteLength before) ∧
      (e.position = .behind (mark markup.toList ++ before) ↔ mark markup.toList = []) := by
  obtain ⟨offset, event, hconcerns, hposition⟩ := concerns_of_parse h hcause
  obtain ⟨earlier, later, hevents⟩ := hconcerns.exists_events
  obtain ⟨before, part, after, hsplit, hstands, rfl⟩ := standsBetween hevents
  have hmarkup : markup.toList = mark markup.toList ++ (before ++ (part ++ after)) := by
    rw [← hsplit, mark_append]
  refine ⟨before, part, after, event, hmarkup, hstands, hconcerns, hposition, ?_, ?_⟩
  · intro hplace
    obtain ⟨before', hprefix, hbehind, -, ⟨-, hle⟩, -⟩ :=
      Position.ofOffset_eq_behind markup.toList (byteLength before)
    have hprefix' : mark markup.toList ++ before <+: markup.toList :=
      ⟨part ++ after, by rw [List.append_assoc, ← hmarkup]⟩
    -- The place reported is behind the part of the markup that ends three bytes earlier.
    have hlength :=
      (Position.behind_eq_iff hprefix hprefix').1 (hbehind.symm.trans (hposition.symm.trans hplace))
    rw [byteLength_append] at hlength
    cases hmark : mark markup.toList with
    | nil => rfl
    | cons c rest =>
      have hsize := c.utf8Size_pos
      rw [hmark, byteLength_cons] at hlength
      omega
  · intro hmark
    rw [hmark, List.nil_append] at hmarkup
    rw [hposition, hmark, List.nil_append, hmarkup, Position.ofOffset_byteLength]

/-- A text with an unknown entity, in the second line and behind a tag with a letter of two
bytes. -/
theorem parse_error_place_note :
    parse "<é>\n x<b>&oe;</b></é>" = .error ⟨.text (.unknownName 1 3 "oe"), ⟨2, 6⟩⟩ ∧
      (∀ error, ParseCause.text (.unknownName 1 3 "oe") ≠ .read error) ∧
      ∃ before part after event,
        "<é>\n x<b>&oe;</b></é>".toList =
          EventStream.mark "<é>\n x<b>&oe;</b></é>".toList ++ (before ++ (part ++ after)) ∧
        event.StandsBetween before part after ∧
        (ParseCause.text (.unknownName 1 3 "oe")).Concerns
          (EventStream.ofMarkup "<é>\n x<b>&oe;</b></é>".toList) (byteLength before) event ∧
        (⟨2, 6⟩ : Position) = .ofOffset "<é>\n x<b>&oe;</b></é>".toList (byteLength before) ∧
        ((⟨2, 6⟩ : Position) =
          .behind (EventStream.mark "<é>\n x<b>&oe;</b></é>".toList ++ before) ↔
          EventStream.mark "<é>\n x<b>&oe;</b></é>".toList = []) := by
  have hparse : parse "<é>\n x<b>&oe;</b></é>" = .error ⟨.text (.unknownName 1 3 "oe"), ⟨2, 6⟩⟩ :=
    by cbv
  have hcause : ∀ error, ParseCause.text (.unknownName 1 3 "oe") ≠ .read error := by rintro _ ⟨⟩
  exact ⟨hparse, hcause, parse_error_place hparse hcause⟩

/-- A tag with a bad attribute that begins at the sixth character, behind a byte order mark, has its
error reported at the third. -/
theorem parse_error_displaced :
    parse "\uFEFF<b/><p a=x/>" = .error ⟨.tag (.badAttribute "p" (.unquotedValue 4)), ⟨1, 3⟩⟩ ∧
      "\uFEFF<b/><p a=x/>".toList = "\uFEFF<b/>".toList ++ "<p a=x/>".toList ∧
      Position.behind "\uFEFF<b/>".toList = ⟨1, 6⟩ := by
  refine ⟨by cbv, by decide, by decide⟩

end Forest

end ReactiveMarkup.Markup
