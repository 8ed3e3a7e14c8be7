-- SUMMARY: Entities in texts and attribute values, and decoding them.
import ReactiveMarkup.Markup.Position

/-!
# Entities

In texts and attribute values `&` begins an entity that ends at the next `;`: one of five names, or
the number of a character. `Entity.decode` puts the characters in their places. Ranges in errors are
byte offsets in the text as written.
-/

namespace ReactiveMarkup.Markup

/-- Why the number of a character is refused. -/
inductive ReferenceError where
  | unexpectedSign
  | emptyNumber
  | invalidDigit
  /-- The number does not fit into 32 bits. -/
  | tooLarge
  | zero
  /-- No character has the number. -/
  | notCharacter (code : Nat)
deriving DecidableEq

/-- Why a text cannot be decoded. -/
inductive EntityError where
  /-- No `;` follows the `&` at `start` before the next `&` or the end. -/
  | unterminated (start stop : Nat)
  | unknownName (start stop : Nat) (name : String)
  | badReference (error : ReferenceError)
deriving DecidableEq

namespace ReferenceError

/-- The message of the error. -/
def message : ReferenceError → String
  | unexpectedSign => "unexpected number sign"
  | emptyNumber => "cannot parse integer from empty string"
  | invalidDigit => "invalid digit found in string"
  | tooLarge => "number too large to fit in target type"
  | zero => "0x0 character is not permitted in XML"
  | notCharacter code => "`" ++ toString code ++ "` is not a valid codepoint"

end ReferenceError

namespace EntityError

/-- The message of the error. -/
def message : EntityError → String
  | unterminated start stop =>
    "Error while escaping character at range " ++ toString start ++ ".." ++ toString stop
      ++ ": Cannot find ';' after '&'"
  | unknownName start stop name =>
    "at " ++ toString start ++ ".." ++ toString stop ++ ": unrecognized entity `" ++ name ++ "`"
  | badReference error => "invalid character reference: " ++ error.message

end EntityError

namespace Entity

/-! ## Numbers -/

/-- The value of a digit in base ten or sixteen. -/
def digit? (base : Nat) (c : Char) : Option Nat :=
  let n :=
    if '0' ≤ c ∧ c ≤ '9' then c.toNat - 48
    else if 'a' ≤ c ∧ c ≤ 'f' then c.toNat - 87
    else if 'A' ≤ c ∧ c ≤ 'F' then c.toNat - 55
    else base
  if n < base then some n else none

/-- The number that goes on from `n` with the digits. The first offending digit decides the
error. -/
def readDigits (base : Nat) : Nat → List Char → Except ReferenceError Nat
  | n, [] => .ok n
  | n, c :: cs =>
    match digit? base c with
    | none => .error .invalidDigit
    | some d => if n * base + d <
      UInt32.size then readDigits base (n * base + d) cs else .error .tooLarge

/-- The number that the digits spell. -/
def readNumber (base : Nat) : List Char → Except ReferenceError Nat
  | [] => .error .emptyNumber
  | c :: cs => if c = '+' ∨ c = '-' then .error .unexpectedSign else readDigits base 0 (c :: cs)

/-- The character with a number. -/
def ofCode (code : Nat) : Except ReferenceError Char :=
  if code = 0 then .error .zero
  else if code.isValidChar then .ok (Char.ofNat code)
  else .error (.notCharacter code)

/-- The character of a numeric reference, given what follows the `#`. -/
def ofReference (cs : List Char) : Except ReferenceError Char :=
  match cs with
  | 'x' :: hex => readNumber 16 hex >>= ofCode
  | _ => readNumber 10 cs >>= ofCode

/-- The character of a name. -/
def ofName? (name : String) : Option Char :=
  if name = "lt" then some '<'
  else if name = "gt" then some '>'
  else if name = "amp" then some '&'
  else if name = "apos" then some '\''
  else if name = "quot" then some '"'
  else none

/-! ## Decoding -/

/-- What stands before the next `;`, and what stands behind it, if no `&` comes first. -/
def cut? : List Char → Option (List Char × List Char)
  | [] => none
  | c :: cs =>
    if c = ';' then some ([], cs)
    else if c = '&' then none
    else (cut? cs).map fun (body, rest) => (c :: body, rest)

private theorem length_of_cut? {cs body rest : List Char} (h : cut? cs = some (body, rest)) :
    rest.length < cs.length := by
  induction cs generalizing body with
  | nil => simp [cut?] at h
  | cons c cs ih =>
    simp only [cut?] at h
    split at h
    · simp only [Option.some.injEq, Prod.mk.injEq] at h
      simp [← h.2]
    · split at h
      · contradiction
      · obtain ⟨⟨body', rest'⟩, h', he⟩ := Option.map_eq_some_iff.1 h
        simp only [Prod.mk.injEq] at he
        have := ih (he.2 ▸ h')
        simp only [List.length_cons]
        omega

/-- The character of the entity with the body that begins at the offset. -/
def ofBody (start : Nat) (body : List Char) : Except EntityError Char :=
  match body with
  | '#' :: reference =>
    match ofReference reference with
    | .ok c => .ok c
    | .error e => .error (.badReference e)
  | _ =>
    match ofName? (String.ofList body) with
    | some c => .ok c
    | none => .error (.unknownName start (start + byteLength body) (String.ofList body))

/-- The text with its entities replaced, where `total` is the length of the whole text in bytes. -/
def decodeWithin (total : Nat) (cs : List Char) : Except EntityError (List Char) :=
  match cs with
  | [] => .ok []
  | c :: rest =>
    if c = '&' then
      match _h : cut? rest with
      | none => .error (.unterminated (total - byteLength (c :: rest)) total)
      | some (body, rest') => do
        let d ← ofBody (total - byteLength rest) body
        let ds ← decodeWithin total rest'
        return d :: ds
    else do
      let ds ← decodeWithin total rest
      return c :: ds
termination_by cs.length
decreasing_by
  · have := length_of_cut? _h
    simp only [List.length_cons]
    omega
  · simp

/-- The text with its entities replaced. -/
def decode (cs : List Char) : Except EntityError String :=
  (decodeWithin (byteLength cs) cs).map String.ofList

end Entity

end ReactiveMarkup.Markup
