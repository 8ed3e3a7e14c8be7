-- SUMMARY: The name and the attributes in the content of a tag.
import ReactiveMarkup.Markup.Entity
import ReactiveMarkup.Markup.Node

/-!
# Tags

The content of a tag is what stands between `<` and `>`: a name up to the first space, and
attributes. `Tag.attributes` reads and decodes them one by one, so the first faulty attribute
decides the error. Positions count bytes from the start of the name.
-/

namespace ReactiveMarkup.Markup

/-- Whether the character separates the parts of a tag. -/
def isSpace (c : Char) : Bool := c == ' ' || c == '\t' || c == '\r' || c == '\n'

/-- Why the attributes of a tag cannot be read. -/
inductive AttributeError where
  /-- Neither `=` nor a space follows the name. -/
  | missingEquals (position : Nat)
  /-- The name stands earlier in the tag. -/
  | duplicated (position previous : Nat)
  | missingValue (position : Nat)
  | unquotedValue (position : Nat)
  | missingQuote (position : Nat) (quote : Char)
deriving DecidableEq

/-- The message of the error. -/
def AttributeError.message : AttributeError → String
  | missingEquals position =>
    "position " ++ toString position ++ ": attribute key must be directly followed by `=` or space"
  | duplicated position previous =>
    "position " ++ toString position ++ ": duplicated attribute, previous declaration at position "
      ++ toString previous
  | missingValue position =>
    "position " ++ toString position ++ ": `=` must be followed by an attribute value"
  | unquotedValue position =>
    "position " ++ toString position ++ ": attribute value must be enclosed in `\"` or `'`"
  | missingQuote position quote =>
    "position " ++ toString position ++ ": missing closing quote `" ++ quote.toString
      ++ "` in attribute value"

/-- Why the content of a tag is refused. -/
inductive TagError where
  | badAttribute (tag : String) (error : AttributeError)
  | badValue (tag : String) (error : EntityError)
deriving DecidableEq

/-- The message of the error. -/
def TagError.message : TagError → String
  | badAttribute tag error => "invalid attribute on <" ++ tag ++ ">: " ++ error.message
  | badValue tag error => "invalid attribute value on <" ++ tag ++ ">: " ++ error.message

/-- An attribute as it stands in a tag. -/
structure RawAttribute where
  /-- Where its name begins. -/
  position : Nat
  name : List Char
  /-- What stands between the quotes. -/
  value : List Char
  /-- What follows the closing quote. -/
  rest : List Char

/-- The content of a tag. -/
structure Tag where
  content : List Char
deriving DecidableEq

namespace Tag

/-- The name: everything up to the first space. -/
def name (t : Tag) : List Char := t.content.takeWhile (!isSpace ·)

/-- What follows the name. -/
def afterName (t : Tag) : List Char := t.content.dropWhile (!isSpace ·)

/-- Whether the character belongs to the name of an attribute, its first character apart. -/
def isNameChar (c : Char) : Bool := c != '=' && !isSpace c

/-- The quoted value at the start of the text, with what follows it. -/
def readValue (total : Nat) (cs : List Char) : Except AttributeError (List Char × List Char) :=
  match cs with
  | [] => .error (.missingValue total)
  | quote :: rest =>
    if quote = '"' ∨ quote = '\'' then
      match rest.dropWhile (· != quote) with
      | [] => .error (.missingQuote total quote)
      | _ :: after => .ok (rest.takeWhile (· != quote), after)
    else .error (.unquotedValue (total - byteLength cs))

/-- The next attribute, if spaces alone are not all that is left. The content of the tag has `total`
bytes, and `seen` holds the earlier names with their positions. -/
def readAttribute (total : Nat) (seen : List (List Char × Nat)) (cs : List Char) :
    Except AttributeError (Option RawAttribute) :=
  match cs.dropWhile isSpace with
  | [] => .ok none
  | k :: more =>
    let position := total - byteLength (k :: more)
    let name := k :: more.takeWhile isNameChar
    match (more.dropWhile isNameChar).dropWhile isSpace with
    | [] => .error (.missingEquals total)
    | c :: value =>
      if c = '=' then
        match seen.find? (·.1 == name) with
        | some (_, previous) => .error (.duplicated position previous)
        | none => do
          let (value, rest) ← readValue total (value.dropWhile isSpace)
          return some ⟨position, name, value, rest⟩
      else .error (.missingEquals (total - byteLength (c :: value)))

theorem length_dropWhile_le (p : Char → Bool) (cs : List Char) :
    (cs.dropWhile p).length ≤ cs.length :=
  (List.dropWhile_suffix p).length_le

private theorem length_of_readValue {total : Nat} {cs : List Char} {p : List Char × List Char}
    (h : readValue total cs = .ok p) : p.2.length < cs.length := by
  cases cs with
  | nil => simp [readValue] at h
  | cons quote cs =>
    simp only [readValue] at h
    split at h
    · split at h
      · simp at h
      · next c after hd =>
        have hl := length_dropWhile_le (· != quote) cs
        simp only [Except.ok.injEq] at h
        rw [hd] at hl
        subst h
        simp only [List.length_cons] at hl ⊢
        omega
    · simp at h

/-- Reading an attribute takes characters away. -/
private theorem length_of_readAttribute {total : Nat} {seen : List (List Char × Nat)}
    {cs : List Char} {a : RawAttribute} (h : readAttribute total seen cs = .ok (some a)) :
    a.rest.length < cs.length := by
  simp only [readAttribute] at h
  split at h
  · simp at h
  · next k more hk =>
    have h₁ := length_dropWhile_le isSpace cs
    rw [hk] at h₁
    split at h
    · simp at h
    · next c value hc =>
      have h₂ := length_dropWhile_le isSpace (more.dropWhile isNameChar)
      have h₃ := length_dropWhile_le isNameChar more
      rw [hc] at h₂
      split at h
      · split at h
        · simp at h
        · simp only [bind, Except.bind] at h
          split at h
          · simp at h
          · next p hv =>
            have h₄ := length_of_readValue hv
            have h₅ := length_dropWhile_le isSpace value
            simp only [pure, Except.pure, Except.ok.injEq, Option.some.injEq] at h
            subst h
            simp only [List.length_cons] at h₁ h₂ ⊢
            omega
      · simp at h

/-- The attributes from some point of the tag on. -/
def attributesFrom (tag : String) (total : Nat) (seen : List (List Char × Nat)) (cs : List Char) :
    Except TagError (List Attribute) :=
  match _h : readAttribute total seen cs with
  | .error e => .error (.badAttribute tag e)
  | .ok none => .ok []
  | .ok (some a) =>
    match Entity.decode a.value with
    | .error e => .error (.badValue tag e)
    | .ok value => do
      let others ← attributesFrom tag total (seen ++ [(a.name, a.position)]) a.rest
      return ⟨String.ofList a.name, value⟩ :: others
termination_by cs.length
decreasing_by exact length_of_readAttribute _h

/-- The attributes of the tag. -/
def attributes (t : Tag) : Except TagError (List Attribute) :=
  attributesFrom (String.ofList t.name) (byteLength t.content) [] t.afterName

end Tag

end ReactiveMarkup.Markup
