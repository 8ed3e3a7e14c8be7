-- SUMMARY: Parsing fragments one behind the other is parsing each of them.
import Mathlib.Algebra.Module.Submodule.Lattice
import Mathlib.Data.List.Permutation
import ReactiveMarkup.Proofs.EventOrder

/-!
# Fragments one behind the other

A fragment that parses leaves nothing open, and its last part ends where it ends. So markup that is
added behind it is read as it would be alone, with all offsets moved on (`Forest.finish_moved`), and
`Forest.parse_append` says that its nodes, or its error, are those of the whole.
-/

namespace ReactiveMarkup.Markup

/-! ## Offsets that are moved on -/

/-- The failure, with its offset moved on. -/
def ReadFailure.moved (distance : Nat) (f : ReadFailure) : ReadFailure :=
  { f with offset := distance + f.offset }

/-- The events and the failure, with their offsets moved on. -/
def EventStream.moved (distance : Nat) (s : EventStream) : EventStream :=
  ⟨s.events.map fun x => (distance + x.1, x.2), s.failure?.map (·.moved distance)⟩

/-- The forest behind other nodes, with its offsets moved on. -/
def Forest.moved (before : List Node) (distance : Nat) (f : Forest) : Forest :=
  ⟨before ++ f.nodes, f.opened.map fun e => { e with offset := distance + e.offset }⟩

/-! ## Reading -/

namespace Event

variable {total : Nat} {cs : List Char}

private theorem readDeclaration_moved (distance : Nat) (h : byteLength cs ≤ total) :
    readDeclaration (distance + total) cs =
      (readDeclaration total cs).mapError (·.moved distance) := by
  have hrest {stops : List Char → Bool} {body rest : List Char}
    (hcut : cutAt? stops [] cs = some (body, rest)) :
      distance + total - byteLength rest = distance + (total - byteLength rest) := by
    obtain ⟨inner, rfl, -⟩ := cutAt?_eq_some hcut
    simp only [byteLength_append, byteLength_cons] at h
    omega
  unfold readDeclaration
  split
  · split
    · rfl
    · next hcut =>
      rw [hrest hcut]
      split <;> rfl
  · split
    · rfl
    · next hcut =>
      rw [hrest hcut]
      split <;> rfl
  · split
    · split
      · rfl
      · next hcut =>
        rw [hrest hcut]
        split
        · rfl
        · split <;> rfl
    · rw [Nat.add_sub_assoc h]
      rfl
  · rw [Nat.add_sub_assoc h]
    rfl

private theorem readInstruction_moved (distance : Nat) (h : byteLength cs ≤ total) :
    readInstruction (distance + total) cs =
      (readInstruction total cs).mapError (·.moved distance) := by
  unfold readInstruction
  split
  · rfl
  · next hcut =>
    obtain ⟨inner, rfl, -⟩ := cutAt?_eq_some hcut
    simp only [byteLength_append, byteLength_cons] at h
    rw [Nat.add_sub_assoc (by omega)]
    split <;> rfl

/-- What is read does not depend on how much came before, but for the offset of a failure. -/
private theorem read_moved (distance : Nat) (h : byteLength cs ≤ total) :
    read (distance + total) cs = (read total cs).mapError (·.moved distance) := by
  have hmarkup {cs : List Char} (h : byteLength cs ≤ total) :
      readMarkup (distance + total) cs = (readMarkup total cs).mapError (·.moved distance) := by
    unfold readMarkup
    split
    · exact readDeclaration_moved distance h
    · exact readInstruction_moved distance h
    · split <;> rfl
    · split <;> rfl
  unfold read
  split
  · rfl
  · next rest =>
    rw [byteLength_cons] at h
    rw [hmarkup (by omega)]
    cases readMarkup total rest <;> rfl
  · rfl

private theorem byteLength_of_read {e : Event} {rest : List Char}
    (h : read total cs = .ok (some (e, rest))) : byteLength rest ≤ byteLength cs := by
  obtain ⟨part, rfl, -⟩ := exists_part h
  rw [byteLength_append]
  omega

end Event

theorem EventStream.readFrom_moved {total : Nat} {cs : List Char} (distance : Nat)
    (opened : List (List Char)) (h : byteLength cs ≤ total) :
    readFrom (distance + total) opened cs = (readFrom total opened cs).moved distance := by
  rw [readFrom_eq, readFrom_eq total, Event.read_moved distance h]
  match hread : Event.read total cs with
  | .error failure => rfl
  | .ok none => rfl
  | .ok (some (e, rest)) =>
    have hrest : byteLength rest ≤ total := Nat.le_trans (Event.byteLength_of_read hread) h
    have hlt := Event.length_of_read hread
    simp only [Except.mapError]
    cases e.enter opened with
    | error error =>
      simp only [moved, ReadFailure.moved, Nat.add_sub_assoc hrest]
      rfl
    | ok opened =>
      simp only [readFrom_moved distance opened hrest, moved, Nat.add_sub_assoc h]
      rfl
termination_by cs.length
decreasing_by assumption

/-! ## Building the forest -/

namespace Forest

variable {before : List Node} {distance : Nat}

private theorem names_moved (f : Forest) : (f.moved before distance).names = f.names := by
  simp [moved, names, Function.comp_def]

theorem push_moved (f : Forest) (n : Node) :
    (f.moved before distance).push n = (f.push n).moved before distance := by
  obtain ⟨nodes, opened⟩ := f
  cases opened with
  | nil => simp [moved, push]
  | cons parent outer => rfl

private theorem leave_moved (f : Forest) : (f.moved before distance).leave =
    f.leave.moved before distance := by
  obtain ⟨nodes, opened⟩ := f
  cases opened with
  | nil => rfl
  | cons e outer => exact push_moved ⟨nodes, outer⟩ _

private theorem accept_moved (f : Forest) (offset : Nat) (e : Event) :
    (f.moved before distance).accept (distance + offset) e =
      (f.accept offset e).map (·.moved before distance) := by
  cases e with
  | start t =>
    simp only [accept]
    cases readTag t <;> rfl
  | empty t =>
    simp only [accept]
    cases readTag t with
    | error cause => rfl
    | ok p => exact congrArg Except.ok (push_moved f _)
  | close _ => exact congrArg Except.ok (leave_moved f)
  | text raw =>
    have hopened : (f.moved before distance).opened.isEmpty = f.opened.isEmpty := List.isEmpty_map
    simp only [accept, hopened]
    split
    · rfl
    · split
      · rfl
      · exact congrArg Except.ok (push_moved f _)
  | characterData content => exact congrArg Except.ok (push_moved f _)
  | comment | instruction | documentType => rfl

/-- Where the nodes and the errors of a forest get when other nodes come before it. -/
def outcomeMoved (before : List Node) (distance : Nat) :
    Except (ParseCause × Nat) (List Node) → Except (ParseCause × Nat) (List Node)
  | .ok nodes => .ok (before ++ nodes)
  | .error (cause, offset) => .error (cause, distance + offset)

/-- Events whose offsets are moved on do the same to a forest that is moved on. -/
theorem finish_moved (f : Forest) (s : EventStream) :
    (f.moved before distance).finish (s.moved distance) =
      outcomeMoved before distance (f.finish s) := by
  obtain ⟨events, failure?⟩ := s
  induction events generalizing f with
  | nil =>
    obtain ⟨nodes, opened⟩ := f
    cases failure? <;> cases opened <;> rfl
  | cons x events ih =>
    obtain ⟨offset, e⟩ := x
    have haccept := @accept_moved before distance f offset e
    cases hf : f.accept offset e with
    | error cause =>
      rw [hf] at haccept
      simp only [finish, EventStream.moved, List.map_cons, acceptAll, hf, haccept]
      rfl
    | ok g =>
      rw [hf] at haccept
      simp only [finish, EventStream.moved, List.map_cons, acceptAll, hf, haccept, Except.map]
      exact ih g

private theorem resume_moved (f : Forest) {total : Nat} {cs : List Char}
    (h : byteLength cs ≤ total) :
    (f.moved before distance).resume (distance + total) cs =
      outcomeMoved before distance (f.resume total cs) := by
  rw [resume, names_moved, EventStream.readFrom_moved distance f.names h, finish_moved, resume]

/-! ## Behind a fragment -/

/-- Behind events that are accepted, parsing goes on with the forest they build. -/
private theorem resume_reading {total : Nat} {f g : Forest} {cs rest : List Char}
    {opened : List (List Char)} {earlier events : List (Nat × Event)} (hreads : f.Reads earlier)
    (h : Reading total f.names cs events opened rest) (haccept : f.acceptAll events = .ok g) :
    f.resume total cs = g.resume total rest := by
  generalize hnames : f.names = names at h
  induction h generalizing f earlier with
  | done =>
    cases haccept
    rfl
  | @step _ _ _ cs _ _ e events read enters _ ih =>
    subst hnames
    rw [acceptAll] at haccept
    split at haccept
    · next f' haccepted =>
      obtain ⟨hreads', hnames'⟩ := hreads.accept enters haccepted
      rw [resume_event read (hnames' ▸ enters) haccepted]
      exact ih hreads' haccept hnames'
    · cases haccept

/-- The mark of the whole is that of its beginning, if there is no mark at the start of the rest. -/
theorem withoutMark_append (cs : List Char) {ds : List Char} (hds : ds.head? = some '<') :
    EventStream.withoutMark (cs ++ ds) = EventStream.withoutMark cs ++ ds := by
  cases cs with
  | nil =>
    cases ds with
    | nil => rfl
    | cons d ds =>
      obtain rfl : d = '<' := Option.some.inj hds
      rfl
  | cons c cs =>
    simp only [List.cons_append, EventStream.withoutMark]
    split <;> rfl

theorem ofStream_ofMarkup (cs : List Char) : ofStream (EventStream.ofMarkup cs) =
    empty.resume (byteLength (EventStream.withoutMark cs)) (EventStream.withoutMark cs) := rfl

/-- Behind a fragment that parses, markup has the outcome that it has alone. -/
private theorem ofStream_append {as bs : List Char} {x : List Node}
    (haccept : empty.acceptAll (EventStream.ofMarkup as).events = .ok ⟨x, []⟩)
    (hend : (EventStream.ofMarkup as).failure? = none) (hb : bs.head? = some '<') :
    ofStream (EventStream.ofMarkup (as ++ bs)) =
      outcomeMoved x (byteLength (EventStream.withoutMark as))
        (ofStream (EventStream.ofMarkup bs)) := by
  have hbs : EventStream.withoutMark bs = bs := withoutMark_append [] hb
  have htag : EndsText bs := fun c hc => Option.some.inj ((Option.mem_def.1 hc).symm.trans hb)
  obtain ⟨opened, rest, hreading, hrest⟩ :=
    Reading.of_readFrom (byteLength (EventStream.withoutMark as)) [] (EventStream.withoutMark as)
  obtain rfl := hrest hend
  rw [ofStream_ofMarkup, ofStream_ofMarkup, withoutMark_append as hb, byteLength_append, hbs,
    resume_reading reads_empty (hreading.append_right htag) haccept]
  -- The fragment has left no element open, so its nodes stand before those that follow.
  have hstart : (⟨x, []⟩ : Forest) = empty.moved x (byteLength (EventStream.withoutMark as)) := by
    simp [moved, empty]
  rw [hstart]
  exact resume_moved empty (Nat.le_refl _)

/-- Fragments compose: behind a fragment that parses, markup that begins with a tag adds the nodes
that it has alone, or fails with the error that it has alone, reported elsewhere. -/
theorem parse_append {a b : String} {x : List Node} (ha : parse a = .ok x)
    (hb : b.toList.head? = some '<') : (∀ y, parse b = .ok y → parse (a ++ b) = .ok (x ++ y)) ∧
      ∀ e, parse b = .error e →
        ∃ e', parse (a ++ b) = .error e' ∧ e'.cause = e.cause ∧ e'.message = e.message := by
  obtain ⟨hend, haccept⟩ := parse_eq_ok_iff.1 ha
  have hwhole := ofStream_append haccept hend hb
  rw [← String.toList_append] at hwhole
  constructor
  · intro y hy
    rw [parse, hwhole]
    rw [parse] at hy
    split at hy
    · next hnodes =>
      cases hy
      rw [hnodes]
      rfl
    · cases hy
  · intro e he
    rw [parse, hwhole]
    rw [parse] at he
    split at he
    · cases he
    · next herror =>
      cases he
      rw [herror]
      exact ⟨_, rfl, rfl, rfl⟩

/-- A fragment that ends in a comment and a blank text, followed by a fragment that parses and by
one that has an unknown entity. -/
theorem parse_append_note :
    parse "x &amp; <p>y</p><!-- - -->\n" = .ok [.text "x & ", .element "p" [] [.text "y"]] ∧
      parse ("x &amp; <p>y</p><!-- - -->\n" ++ "<br/>z") =
        .ok [.text "x & ", .element "p" [] [.text "y"], .element "br" [] [], .text "z"] ∧
      parse "<br/>&z;" = .error ⟨.text (.unknownName 1 2 "z"), ⟨1, 6⟩⟩ ∧
      ∃ e', parse ("x &amp; <p>y</p><!-- - -->\n" ++ "<br/>&z;") = .error e' ∧
        e'.cause = .text (.unknownName 1 2 "z") ∧
        e'.message = (EntityError.unknownName 1 2 "z").message := by
  have ha : parse "x &amp; <p>y</p><!-- - -->\n" =
    .ok [.text "x & ", .element "p" [] [.text "y"]] := by cbv
  have hb : parse "<br/>z" = .ok [.element "br" [] [], .text "z"] := by cbv
  have hbad : parse "<br/>&z;" = .error ⟨.text (.unknownName 1 2 "z"), ⟨1, 6⟩⟩ := by cbv
  exact ⟨ha, (parse_append ha (by decide)).1 _ hb, hbad, (parse_append ha (by decide)).2 _ hbad⟩

end Forest

end ReactiveMarkup.Markup
