-- SUMMARY: The events that markup is read as, with their offsets, up to the first failure.
import ReactiveMarkup.Markup.Tag

/-!
# Reading markup as events

Markup is a sequence of texts and of parts that stand between `<` and `>`. `EventStream.ofMarkup`
lists the events with the offsets at which they begin; it stops at the first part that cannot be
read, and keeps the failure. An end tag is an event only if it has the name of the innermost open
element. Tags are read up to a `>` outside quotes; comments, character data, instructions and
document types each have a way of their own to end.
-/

namespace ReactiveMarkup.Markup

/-- The parts of markup that need a mark at their end. -/
inductive Enclosed where
  | tag
  | characterData
  | comment
  | documentType
  | instruction
deriving DecidableEq

/-- Why markup cannot be read as events. -/
inductive ReadError where
  | unclosed (part : Enclosed)
  /-- `<!` begins none of the parts that may begin so. -/
  | unknownDeclaration
  | namelessDocumentType
  /-- The end tag has another name than the innermost open element. -/
  | mismatchedEnd (expected found : String)
  /-- No element is open at the end tag. -/
  | unmatchedEnd (found : String)
deriving DecidableEq

/-- What a part lacks when it is not closed. -/
def Enclosed.message : Enclosed → String
  | tag => "tag not closed: `>` not found before end of input"
  | characterData => "CDATA not closed: `]]>` not found before end of input"
  | comment => "comment not closed: `-->` not found before end of input"
  | documentType => "DOCTYPE not closed: `>` not found before end of input"
  | instruction =>
    "processing instruction or xml declaration not closed: `?>` not found before end of input"

/-- The message of the error. -/
def ReadError.message : ReadError → String
  | unclosed part => "syntax error: " ++ part.message
  | unknownDeclaration => "syntax error: unknown or missed symbol in markup"
  | namelessDocumentType =>
    "ill-formed document: `<!DOCTYPE>` declaration does not contain a name of a document type"
  | mismatchedEnd expected found =>
    "ill-formed document: expected `</" ++ expected ++ ">`, but `</" ++ found ++ ">` was found"
  | unmatchedEnd found =>
    "ill-formed document: close tag `</" ++ found ++ ">` does not match any open tag"

/-- An error and the offset at which reading stopped. -/
structure ReadFailure where
  error : ReadError
  offset : Nat
deriving DecidableEq

/-- A part of the markup. -/
inductive Event where
  | start (tag : Tag)
  /-- A tag that opens and closes its element. -/
  | empty (tag : Tag)
  | close (name : List Char)
  /-- A text with its entities as written. -/
  | text (raw : List Char)
  | characterData (content : List Char)
  | comment
  | instruction
  | documentType
deriving DecidableEq

namespace Event

/-! ## Where a part ends -/

/-- What stands before the first `>` that `stops` accepts, and what stands behind it. The characters
before a `>` are handed to `stops` last one first. -/
def cutAt? (stops : List Char → Bool) (before : List Char) : List Char → Option
    (List Char × List Char)
  | [] => none
  | c :: cs =>
    if c = '>' ∧ stops before = true then some (before.reverse, cs)
    else cutAt? stops (c :: before) cs

/-- What stands before the first `>` outside quotes, and what stands behind it. -/
def cutTag? (quote : Option Char) : List Char → Option (List Char × List Char)
  | [] => none
  | c :: cs =>
    match quote with
    | some q => (cutTag? (if c = q then none else some q) cs).map fun (body, rest) =>
      (c :: body, rest)
    | none =>
      if c = '>' then some ([], cs)
      else
        (cutTag? (if c = '"' ∨ c = '\'' then some c else none) cs).map fun (body, rest) =>
          (c :: body, rest)

/-- Character data ends at `]]>`. -/
def endsCharacterData : List Char → Bool
  | ']' :: ']' :: _ => true
  | _ => false

/-- A comment ends at `-->`, the dashes of its beginning not counted. -/
def endsComment : List Char → Bool
  | '-' :: '-' :: rest => decide (2 < byteLength rest)
  | _ => false

/-- A document type ends where as many `<` as `>` have been seen. -/
def endsDocumentType (before : List Char) : Bool := before.count '<' == before.count '>'

/-- An instruction ends at `?>`. -/
def endsInstruction : List Char → Bool
  | '?' :: _ => true
  | _ => false

/-- What follows `word` at the start of the text, up to the case of ASCII letters. -/
def afterWord? : (word cs : List Char) → Option (List Char)
  | [], cs => some cs
  | w :: word, c :: cs => if w.toLower = c.toLower then afterWord? word cs else none
  | _ :: _, [] => none

/-! ## Reading one event -/

/-- The part that begins with `<!`, given what follows the `<`. -/
def readDeclaration (total : Nat) (cs : List Char) : Except ReadFailure (Event × List Char) :=
  match cs.drop 1 with
  | '[' :: _ =>
    match cutAt? endsCharacterData [] cs with
    | none => .error ⟨.unclosed .characterData, total⟩
    | some (body, rest) =>
      if ['!', '[', 'C', 'D', 'A', 'T', 'A', '['].isPrefixOf body then
        .ok (.characterData ((body.drop 8).take (body.length - 10)), rest)
      else .error ⟨.unclosed .characterData, total - byteLength rest⟩
  | '-' :: _ =>
    match cutAt? endsComment [] cs with
    | none => .error ⟨.unclosed .comment, total⟩
    | some (body, rest) =>
      if ['!', '-', '-'].isPrefixOf body then .ok (.comment, rest)
      else .error ⟨.unclosed .comment, total - byteLength rest⟩
  | c :: _ =>
    if c = 'D' ∨ c = 'd' then
      match cutAt? endsDocumentType [] cs with
      | none => .error ⟨.unclosed .documentType, total⟩
      | some (body, rest) =>
        match afterWord? ['!', 'D', 'O', 'C', 'T', 'Y', 'P', 'E'] body with
        | none => .error ⟨.unclosed .documentType, total - byteLength rest⟩
        | some name =>
          if name.all isSpace then .error ⟨.namelessDocumentType, total - byteLength rest⟩
          else .ok (.documentType, rest)
    else .error ⟨.unknownDeclaration, total - byteLength cs⟩
  | [] => .error ⟨.unknownDeclaration, total - byteLength cs⟩

/-- The part that begins with `<?`, given what follows the `<`. -/
def readInstruction (total : Nat) (cs : List Char) : Except ReadFailure (Event × List Char) :=
  match cutAt? endsInstruction [] cs with
  | none => .error ⟨.unclosed .instruction, total⟩
  | some (body, rest) =>
    if 1 < body.length then .ok (.instruction, rest)
    else .error ⟨.unclosed .instruction, total - byteLength rest⟩

/-- The name without the spaces at its end. A name that is spaces alone keeps them. -/
def trimName (name : List Char) : List Char :=
  if name.all isSpace then name else (name.reverse.dropWhile isSpace).reverse

/-- The event of a start tag with the content given. A slash at the end closes the element at
once. -/
def ofTag (content : List Char) : Event :=
  if content.getLast? = some '/' then empty ⟨content.dropLast⟩ else start ⟨content⟩

/-- The part that begins with `<`, given what follows it. -/
def readMarkup (total : Nat) (cs : List Char) : Except ReadFailure (Event × List Char) :=
  match cs with
  | '!' :: _ => readDeclaration total cs
  | '?' :: _ => readInstruction total cs
  | '/' :: name =>
    match cutTag? none name with
    | none => .error ⟨.unclosed .tag, total⟩
    | some (name, rest) => .ok (close (trimName name), rest)
  | _ =>
    match cutTag? none cs with
    | none => .error ⟨.unclosed .tag, total⟩
    | some (content, rest) => .ok (ofTag content, rest)

/-- The first event of the markup, with the markup behind it. The whole markup has `total` bytes. -/
def read (total : Nat) (cs : List Char) : Except ReadFailure (Option (Event × List Char)) :=
  match cs with
  | [] => .ok none
  | '<' :: rest => (readMarkup total rest).map some
  | _ => .ok (some (text (cs.takeWhile (· != '<')), cs.dropWhile (· != '<')))

/-! ## Reading takes characters away -/

theorem length_of_cutAt? {stops : List Char → Bool} {before cs body rest : List Char}
    (h : cutAt? stops before cs = some (body, rest)) : rest.length < cs.length := by
  induction cs generalizing before with
  | nil => simp [cutAt?] at h
  | cons c cs ih =>
    simp only [cutAt?] at h
    split at h
    · simp only [Option.some.injEq, Prod.mk.injEq] at h
      simp [← h.2]
    · have := ih h
      simp only [List.length_cons]
      omega

theorem length_of_cutTag? {quote : Option Char} {cs body rest : List Char}
    (h : cutTag? quote cs = some (body, rest)) : rest.length < cs.length := by
  induction cs generalizing quote body with
  | nil => simp [cutTag?] at h
  | cons c cs ih =>
    simp only [cutTag?] at h
    split at h
    · obtain ⟨⟨body', rest'⟩, h', he⟩ := Option.map_eq_some_iff.1 h
      simp only [Prod.mk.injEq] at he
      have := ih (he.2 ▸ h')
      simp only [List.length_cons]
      omega
    · split at h
      · simp only [Option.some.injEq, Prod.mk.injEq] at h
        simp [← h.2]
      · obtain ⟨⟨body', rest'⟩, h', he⟩ := Option.map_eq_some_iff.1 h
        simp only [Prod.mk.injEq] at he
        have := ih (he.2 ▸ h')
        simp only [List.length_cons]
        omega

private theorem length_of_readDeclaration {total : Nat} {cs rest : List Char} {e : Event}
    (h : readDeclaration total cs = .ok (e, rest)) : rest.length < cs.length := by
  simp only [readDeclaration] at h
  split at h
  · split at h
    · contradiction
    · next hc =>
      split at h
      · simp only [Except.ok.injEq, Prod.mk.injEq] at h
        exact h.2 ▸ length_of_cutAt? hc
      · contradiction
  · split at h
    · contradiction
    · next hc =>
      split at h
      · simp only [Except.ok.injEq, Prod.mk.injEq] at h
        exact h.2 ▸ length_of_cutAt? hc
      · contradiction
  · split at h
    · split at h
      · contradiction
      · next hc =>
        split at h
        · contradiction
        · split at h
          · contradiction
          · simp only [Except.ok.injEq, Prod.mk.injEq] at h
            exact h.2 ▸ length_of_cutAt? hc
    · contradiction
  · contradiction

private theorem length_of_readInstruction {total : Nat} {cs rest : List Char} {e : Event}
    (h : readInstruction total cs = .ok (e, rest)) : rest.length < cs.length := by
  simp only [readInstruction] at h
  split at h
  · contradiction
  · next hc =>
    split at h
    · simp only [Except.ok.injEq, Prod.mk.injEq] at h
      exact h.2 ▸ length_of_cutAt? hc
    · contradiction

private theorem length_of_readMarkup {total : Nat} {cs rest : List Char} {e : Event}
    (h : readMarkup total cs = .ok (e, rest)) : rest.length < cs.length := by
  simp only [readMarkup] at h
  split at h
  · exact length_of_readDeclaration h
  · exact length_of_readInstruction h
  · split at h
    · contradiction
    · next hc =>
      simp only [Except.ok.injEq, Prod.mk.injEq] at h
      have := length_of_cutTag? hc
      rw [h.2] at this
      simp only [List.length_cons]
      omega
  · split at h
    · contradiction
    · next hc =>
      simp only [Except.ok.injEq, Prod.mk.injEq] at h
      exact h.2 ▸ length_of_cutTag? hc

/-- An event takes characters away from the markup. -/
theorem length_of_read {total : Nat} {cs rest : List Char} {e : Event}
    (h : read total cs = .ok (some (e, rest))) : rest.length < cs.length := by
  simp only [read] at h
  split at h
  · simp at h
  · next cs' =>
    cases hm : readMarkup total cs' with
    | error f => simp [hm, Except.map] at h
    | ok p =>
      simp only [hm, Except.map, Except.ok.injEq, Option.some.injEq] at h
      have := length_of_readMarkup (hm.trans (congrArg Except.ok h))
      simp only [List.length_cons]
      omega
  · next hne hlt =>
    simp only [Except.ok.injEq, Option.some.injEq, Prod.mk.injEq] at h
    cases cs with
    | nil => exact absurd rfl hne
    | cons c cs' =>
      have hc : c ≠ '<' := fun hc => hlt cs' (hc ▸ rfl)
      have hl := Tag.length_dropWhile_le (· != '<') cs'
      rw [← h.2]
      simp only [List.dropWhile_cons, bne_iff_ne, ne_eq, hc, not_false_eq_true, if_true,
        List.length_cons]
      omega

/-! ## Reading all events -/

/-- The names of the open elements after the event, the innermost first. -/
def enter (opened : List (List Char)) : Event → Except ReadError (List (List Char))
  | start tag => .ok (tag.name :: opened)
  | close name =>
    match opened with
    | [] => .error (.unmatchedEnd (String.ofList name))
    | expected :: outer =>
      if name = expected then .ok outer
      else .error (.mismatchedEnd (String.ofList expected) (String.ofList name))
  | _ => .ok opened

end Event

/-- The events of some markup with their offsets, up to the end or to a failure. -/
structure EventStream where
  events : List (Nat × Event)
  failure? : Option ReadFailure

namespace EventStream

/-- The events from some point of the markup on, with the elements open there. -/
def readFrom (total : Nat) (opened : List (List Char)) (cs : List Char) : EventStream :=
  match _h : Event.read total cs with
  | .error failure => ⟨[], some failure⟩
  | .ok none => ⟨[], none⟩
  | .ok (some (e, rest)) =>
    match e.enter opened with
    | .error error => ⟨[], some ⟨error, total - byteLength rest⟩⟩
    | .ok opened =>
      let later := readFrom total opened rest
      ⟨(total - byteLength cs, e) :: later.events, later.failure?⟩
termination_by cs.length
decreasing_by exact Event.length_of_read _h

/-- The markup without a byte order mark at its start, which offsets do not count. -/
def withoutMark : List Char → List Char
  | c :: cs => if c.toNat = 0xFEFF then cs else c :: cs
  | [] => []

/-- The events of the markup. -/
def ofMarkup (markup : List Char) : EventStream :=
  let cs := withoutMark markup
  readFrom (byteLength cs) [] cs

end EventStream

end ReactiveMarkup.Markup
