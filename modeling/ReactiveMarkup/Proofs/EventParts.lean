-- SUMMARY: The parts that markup is cut into, and what can be added behind them.
import ReactiveMarkup.Proofs.Writing

/-!
# The parts of markup

The reader cuts markup into parts and makes an event of each. `Event.exists_part` says what a part
looks like, and that the event depends on nothing behind it, unless it is a text, which goes on up
to a tag. `Reading` is a way through the markup part by part, the one that `EventStream.readFrom`
takes (`Reading.of_readFrom`), and markup may be added at its end (`Reading.append_right`).
-/

namespace ReactiveMarkup.Markup

namespace Event

/-! ## What parts look like -/

/-- What an event is read from. -/
def Part : Event → List Char → Prop
  | start t, part => part = '<' :: (t.content ++ ['>'])
  | empty t, part => part = '<' :: (t.content ++ ['/', '>'])
  | text raw, part => part = raw ∧ raw ≠ [] ∧ '<' ∉ raw
  | close _, part | characterData _, part | comment, part | instruction, part |
    documentType, part =>
    ∃ inner, part = '<' :: (inner ++ ['>'])

/-- What may follow the event: a text goes on up to a tag. -/
def MayPrecede (e : Event) (rest : List Char) : Prop := ∀ raw, e = .text raw → EndsText rest

/-- A part ends at its `>`, whatever follows. -/
theorem cutAt?_eq_some {stops : List Char → Bool} {before cs body rest : List Char}
    (h : cutAt? stops before cs = some (body, rest)) :
    ∃ inner, cs = inner ++ '>' :: rest ∧ body = before.reverse ++ inner ∧
      ∀ rest', cutAt? stops before (inner ++ '>' :: rest') = some (body, rest') := by
  induction cs generalizing before with
  | nil => simp [cutAt?] at h
  | cons c cs ih =>
    rw [cutAt?] at h
    split at h
    · next hstop =>
      simp only [Option.some.injEq, Prod.mk.injEq] at h
      obtain ⟨rfl, rfl⟩ := h
      refine ⟨[], by rw [hstop.1]; rfl, by simp, fun rest' => ?_⟩
      rw [List.nil_append, cutAt?, if_pos ⟨rfl, hstop.2⟩]
    · next hgo =>
      obtain ⟨inner, rfl, rfl, hcut⟩ := ih h
      refine ⟨c :: inner, rfl, by simp, fun rest' => ?_⟩
      rw [List.cons_append, cutAt?, if_neg hgo, hcut]

theorem cutTag?_eq_some {quote : Option Char} {cs body rest : List Char}
    (h : cutTag? quote cs = some (body, rest)) :
    cs = body ++ '>' :: rest ∧ ∀ rest', cutTag? quote (body ++ '>' :: rest') =
      some (body, rest') := by
  induction cs generalizing quote body with
  | nil => simp [cutTag?] at h
  | cons c cs ih =>
    -- A character that does not end the tag is passed in the same way.
    have hpass : ∀ {quote' : Option Char}, (cutTag? quote' cs).map (fun p => (c :: p.1, p.2)) =
        some (body, rest) → ∃ body', body = c :: body' ∧ cs = body' ++ '>' :: rest ∧
          ∀ rest', cutTag? quote' (body' ++ '>' :: rest') = some (body', rest') := by
      intro quote' hmap
      obtain ⟨⟨body', rest'⟩, hcut, heq⟩ := Option.map_eq_some_iff.1 hmap
      simp only [Prod.mk.injEq] at heq
      obtain ⟨rfl, rfl⟩ := heq
      exact ⟨body', rfl, ih hcut⟩
    cases quote with
    | some q =>
      rw [cutTag?] at h
      obtain ⟨body', rfl, rfl, hcut⟩ := hpass h
      refine ⟨rfl, fun rest' => ?_⟩
      rw [List.cons_append, cutTag?, hcut]
      rfl
    | none =>
      rw [cutTag?] at h
      split at h
      · next hend =>
        simp only [Option.some.injEq, Prod.mk.injEq] at h
        obtain ⟨rfl, rfl⟩ := h
        exact ⟨by rw [hend]; rfl, fun rest' => by rw [List.nil_append, cutTag?, if_pos rfl]⟩
      · next hgo =>
        obtain ⟨body', rfl, rfl, hcut⟩ := hpass h
        refine ⟨rfl, fun rest' => ?_⟩
        rw [List.cons_append, cutTag?, if_neg hgo, hcut]
        rfl

/-- A part with a mark of two characters goes on behind the mark. -/
theorem cutAt?_marked {stops : List Char → Bool} {c d : Char} {cs body rest : List Char}
    (hc : c ≠ '>') (hd : d ≠ '>') (h : cutAt? stops [] (c :: d :: cs) = some (body, rest)) :
    ∃ inner, cs = inner ++ '>' :: rest ∧ body = c :: d :: inner ∧
      ∀ rest', cutAt? stops [] (c :: d :: (inner ++ '>' :: rest')) = some (body, rest') := by
  obtain ⟨inner, hcs, hbody, hcut⟩ := cutAt?_eq_some h
  match inner with
  | [] => exact absurd (List.cons.inj hcs).1 hc
  | [_] => exact absurd (List.cons.inj (List.cons.inj hcs).2).1 hd
  | _ :: _ :: inner =>
    simp only [List.cons_append, List.cons.injEq] at hcs
    obtain ⟨rfl, rfl, rfl⟩ := hcs
    exact ⟨inner, rfl, hbody, hcut⟩

/-- Between `<` and `>` the reader finds the event, whatever follows. -/
structure IsEnclosed (e : Event) (inner : List Char) : Prop where
  part : e.Part ('<' :: (inner ++ ['>']))
  not_text : ∀ raw, e ≠ .text raw
  read : ∀ total rest, readMarkup total (inner ++ '>' :: rest) = .ok (e, rest)

private theorem isEnclosed_declaration {total : Nat} {cs rest : List Char} {e : Event}
    (h : readDeclaration total ('!' :: cs) = .ok (e, rest)) :
    ∃ inner, '!' :: cs = inner ++ '>' :: rest ∧ e.IsEnclosed inner := by
  simp only [readDeclaration, List.drop_succ_cons, List.drop_zero] at h
  split at h
  · split at h
    · cases h
    · next hcut =>
      obtain ⟨inner, rfl, rfl, hagain⟩ := cutAt?_marked (by decide) (by decide) hcut
      split at h
      · next hmark =>
        cases h
        refine ⟨'!' :: '[' :: inner, rfl, ⟨_, rfl⟩, by rintro _ ⟨⟩, fun total' rest' => ?_⟩
        simp [readMarkup, readDeclaration, hagain, hmark]
      · cases h
  · split at h
    · cases h
    · next hcut =>
      obtain ⟨inner, rfl, rfl, hagain⟩ := cutAt?_marked (by decide) (by decide) hcut
      split at h
      · next hmark =>
        cases h
        refine ⟨'!' :: '-' :: inner, rfl, ⟨_, rfl⟩, by rintro _ ⟨⟩, fun total' rest' => ?_⟩
        simp [readMarkup, readDeclaration, hagain, hmark]
      · cases h
  · next d cs hbracket hdash =>
    split at h
    · next hd =>
      have hnot : d ≠ '>' := by rcases hd with rfl | rfl <;> decide
      split at h
      · cases h
      · next hcut =>
        obtain ⟨inner, rfl, rfl, hagain⟩ := cutAt?_marked (by decide) hnot hcut
        split at h
        · cases h
        · next hname =>
          split at h
          · cases h
          · next hblank =>
            cases h
            refine ⟨'!' :: d :: inner, rfl, ⟨_, rfl⟩, by rintro _ ⟨⟩, fun total' rest' => ?_⟩
            rcases hd with rfl | rfl <;> simp [readMarkup, readDeclaration, hagain, hname, hblank]
    · cases h
  · cases h

private theorem isEnclosed_instruction {total : Nat} {cs rest : List Char} {e : Event}
    (h : readInstruction total ('?' :: cs) = .ok (e, rest)) :
    ∃ inner, '?' :: cs = inner ++ '>' :: rest ∧ e.IsEnclosed inner := by
  rw [readInstruction] at h
  split at h
  · cases h
  · next body _ hcut =>
    obtain ⟨inner, hcs, hbody, hagain⟩ := cutAt?_eq_some hcut
    obtain rfl : body = inner := hbody
    split at h
    · next hlong =>
      cases h
      cases body with
      | nil => cases (List.cons.inj hcs).1
      | cons c body =>
        obtain ⟨rfl, rfl⟩ := List.cons.inj hcs
        refine ⟨'?' :: body, rfl, ⟨_, rfl⟩, by rintro _ ⟨⟩, fun total' rest' => ?_⟩
        have hread : readInstruction total' ('?' :: body ++ '>' :: rest') =
            .ok (instruction, rest') := by
          rw [readInstruction, hagain]
          exact if_pos hlong
        exact hread
    · cases h

private theorem isEnclosed_close {name : List Char}
    (h : ∀ rest, cutTag? none (name ++ '>' :: rest) = some (name, rest)) :
    (close (trimName name)).IsEnclosed ('/' :: name) := by
  refine ⟨⟨_, rfl⟩, by rintro _ ⟨⟩, fun total rest => ?_⟩
  simp [readMarkup, h]

private theorem isEnclosed_tag {c : Char} {cs content rest : List Char}
    (hc : c ≠ '!' ∧ c ≠ '?' ∧ c ≠ '/')
    (h : cutTag? none (c :: cs) = some (content, rest)) : (ofTag content).IsEnclosed content := by
  obtain ⟨hcs, hagain⟩ := cutTag?_eq_some h
  have hread (total : Nat) (rest' : List Char) :
      readMarkup total (content ++ '>' :: rest') = .ok (ofTag content, rest') := by
    cases content with
    | nil => exact readMarkup_tag (by decide) (hagain rest') total
    | cons d content =>
      obtain ⟨rfl, -⟩ := List.cons.inj hcs
      exact readMarkup_tag hc (hagain rest') total
  unfold ofTag at hread ⊢
  split at hread
  · next hslash =>
    rw [if_pos hslash]
    refine ⟨?_, by rintro _ ⟨⟩, hread⟩
    obtain ⟨inner, rfl⟩ := List.getLast?_eq_some_iff.1 hslash
    simp [Part]
  · next hslash =>
    rw [if_neg hslash]
    exact ⟨rfl, by rintro _ ⟨⟩, hread⟩

private theorem exists_isEnclosed {total : Nat} {cs rest : List Char} {e : Event}
    (h : readMarkup total cs = .ok (e, rest)) : ∃ inner, cs = inner ++ '>' :: rest ∧
    e.IsEnclosed inner := by
  unfold readMarkup at h
  split at h
  · exact isEnclosed_declaration h
  · exact isEnclosed_instruction h
  · split at h
    · cases h
    · next hcut =>
      cases h
      obtain ⟨rfl, hagain⟩ := cutTag?_eq_some hcut
      exact ⟨_, rfl, isEnclosed_close hagain⟩
  · next hbang hquestion hslash =>
    split at h
    · cases h
    · next hcut =>
      cases h
      refine ⟨_, (cutTag?_eq_some hcut).1, ?_⟩
      cases cs with
      | nil => cases hcut
      | cons c cs =>
        refine isEnclosed_tag ⟨?_, ?_, ?_⟩ hcut
        · rintro rfl; exact hbang cs rfl
        · rintro rfl; exact hquestion cs rfl
        · rintro rfl; exact hslash cs rfl

/-- What an event was read from, and that it would be read again from that whatever followed. -/
theorem exists_part {total : Nat} {cs rest : List Char} {e : Event}
    (h : read total cs = .ok (some (e, rest))) :
    ∃ part, cs = part ++ rest ∧ e.Part part ∧ e.MayPrecede rest ∧
      ∀ total rest, e.MayPrecede rest → read total (part ++ rest) = .ok (some (e, rest)) := by
  unfold read at h
  split at h
  · cases h
  · next cs =>
    cases hread : readMarkup total cs with
    | error failure => simp [hread, Except.map] at h
    | ok p =>
      simp only [hread, Except.map, Except.ok.injEq, Option.some.injEq] at h
      subst h
      obtain ⟨inner, rfl, henclosed⟩ := exists_isEnclosed hread
      refine ⟨'<' :: (inner ++ ['>']), by simp, henclosed.part,
        fun raw hraw => absurd hraw (henclosed.not_text raw), fun total rest _ => ?_⟩
      have hagain := henclosed.read total rest
      simp [read, hagain, Except.map]
  · next hne hlt =>
    simp only [Except.ok.injEq, Option.some.injEq, Prod.mk.injEq] at h
    obtain ⟨rfl, rfl⟩ := h
    have hraw : cs.takeWhile (· != '<') ≠ [] := by
      cases cs with
      | nil => exact absurd rfl hne
      | cons c cs =>
        have hc : c ≠ '<' := fun hc => hlt cs (hc ▸ rfl)
        simp [hc]
    have hplain : '<' ∉ cs.takeWhile (· != '<') := fun hmem => by
      simpa using List.all_eq_true.1 List.all_takeWhile '<' hmem
    refine ⟨cs.takeWhile (· != '<'), List.takeWhile_append_dropWhile.symm,
      ⟨rfl, hraw, hplain⟩, ?_, ?_⟩
    · rintro raw - c hc
      have hstop := List.head?_dropWhile_not (· != '<') cs
      rw [Option.mem_def.1 hc] at hstop
      simpa using hstop
    · exact fun total rest hrest => read_text hraw hplain (hrest _ rfl) total

private theorem eq_nil_of_read {total : Nat} {cs : List Char}
    (h : read total cs = .ok none) : cs = [] := by
  unfold read at h
  split at h
  · rfl
  · next cs => cases hread : readMarkup total cs <;> simp [hread, Except.map] at h
  · cases h

end Event

/-! ## Ways through markup -/

/-- The reader gets through the markup by the events, each with its offset: where it starts and
where it gets to, some elements are open and some markup is left. -/
inductive Reading (total : Nat) :
    List (List Char) → List Char → List (Nat × Event) → List (List Char) → List Char → Prop
  | done (opened : List (List Char)) (cs : List Char) : Reading total opened cs [] opened cs
  | step {opened opened₁ opened₂ : List (List Char)} {cs cs₁ cs₂ : List Char} {e : Event}
      {events : List (Nat × Event)} (read : Event.read total cs = .ok (some (e, cs₁)))
      (enters : e.enter opened = .ok opened₁)
      (rest : Reading total opened₁ cs₁ events opened₂ cs₂) :
      Reading total opened cs ((total - byteLength cs, e) :: events) opened₂ cs₂

namespace EventStream

/-- One event after the other is read, up to the end or a failure. -/
theorem readFrom_eq (total : Nat) (opened : List (List Char)) (cs : List Char) :
    readFrom total opened cs =
      match Event.read total cs with
      | .error failure => ⟨[], some failure⟩
      | .ok none => ⟨[], none⟩
      | .ok (some (e, rest)) =>
        match e.enter opened with
        | .error error => ⟨[], some ⟨error, total - byteLength rest⟩⟩
        | .ok opened =>
          ⟨(total - byteLength cs, e) :: (readFrom total opened rest).events,
            (readFrom total opened rest).failure?⟩ := by
  rw [readFrom]
  split
  · next heq => rw [heq]
  · next heq => rw [heq]
  · next e rest heq => cases henter : e.enter opened <;> simp only [heq, henter]

theorem readFrom_step {total : Nat} {opened opened' : List (List Char)}
    {cs rest : List Char} {e : Event}
    (hread : Event.read total cs = .ok (some (e, rest))) (henter : e.enter opened = .ok opened') :
    readFrom total opened cs =
      ⟨(total - byteLength cs, e) :: (readFrom total opened' rest).events,
        (readFrom total opened' rest).failure?⟩ := by
  rw [readFrom_eq, hread]
  simp only [henter]

end EventStream

namespace Reading

variable {total : Nat} {opened opened' : List (List Char)} {cs rest : List Char}
  {events : List (Nat × Event)}

/-- The events of some markup lead through it, and to its end if there is no failure. -/
theorem of_readFrom (total : Nat) (opened : List (List Char)) (cs : List Char) :
    ∃ opened' rest,
    Reading total opened cs (EventStream.readFrom total opened cs).events opened' rest ∧
      ((EventStream.readFrom total opened cs).failure? = none → rest = []) := by
  rw [EventStream.readFrom]
  split
  · exact ⟨opened, cs, .done opened cs, by rintro ⟨⟩⟩
  · next hread => exact ⟨opened, cs, .done opened cs, fun _ => Event.eq_nil_of_read hread⟩
  · next e rest hread =>
    split
    · exact ⟨opened, cs, .done opened cs, by rintro ⟨⟩⟩
    · next opened₁ henter =>
      have hlt := Event.length_of_read hread
      obtain ⟨opened₂, rest₂, hreading, hend⟩ := of_readFrom total opened₁ rest
      exact ⟨opened₂, rest₂, .step hread henter hreading, hend⟩
termination_by cs.length
decreasing_by assumption

/-- Markup that begins with a tag may be added. -/
theorem append_right (h : Reading total opened cs events opened' rest) {more : List Char}
    (hmore : EndsText more) :
    Reading (total + byteLength more) opened (cs ++ more) events opened' (rest ++ more) := by
  induction h with
  | done => exact .done _ _
  | @step _ _ _ cs rest _ _ _ read enters _ ih =>
    have hoffset : total - byteLength cs = total + byteLength more - byteLength (cs ++ more) := by
      rw [byteLength_append, Nat.add_sub_add_right]
    rw [hoffset]
    refine .step ?_ enters ih
    obtain ⟨part, rfl, -, hprecede, hagain⟩ := Event.exists_part read
    rw [List.append_assoc]
    exact hagain _ _ fun raw he => (hprecede raw he).append hmore

end Reading

end ReactiveMarkup.Markup
