-- SUMMARY: The JSON text of a value, and its text as content.
import ReactiveMarkup.Number.Shortest
import ReactiveMarkup.Value.Basic

/-!
# The text of a value

`Value.json` is the compact JSON text of a value, without blanks and with the fields in the order of
their names. `Value.text` is what a value becomes as text content or as a text property: strings
stand for themselves, null is empty, and the rest is written as JSON.
-/

namespace ReactiveMarkup

/-! ## Quoted strings -/

namespace Quoted

/-- The hexadecimal digit of a number below sixteen, in lower case. -/
def hexDigit (n : Nat) : Char := if n < 10 then Char.ofNat (48 + n) else Char.ofNat (87 + n)

/-- How one character is written between quotes. Quotes, backslashes and control characters are
escaped, and all others stand for themselves. -/
def escape (c : Char) : List Char :=
  if c = '"' then ['\\', '"']
  else if c = '\\' then ['\\', '\\']
  else if c.toNat = 8 then ['\\', 'b']
  else if c.toNat = 9 then ['\\', 't']
  else if c.toNat = 10 then ['\\', 'n']
  else if c.toNat = 12 then ['\\', 'f']
  else if c.toNat = 13 then ['\\', 'r']
  else if c.toNat < 32 then
    ['\\', 'u', '0', '0', hexDigit (c.toNat / 16), hexDigit (c.toNat % 16)]
  else [c]

/-- The string between quotes. -/
def encode (s : String) : String := String.ofList ('"' :: s.toList.flatMap escape ++ ['"'])

end Quoted

namespace Value

/-! ## JSON -/

/-- The decimal digits of an integer, with a minus sign where it is negative. -/
def integerText (n : Int) : String :=
  let digits := String.ofList (Nat.toDigits 10 n.natAbs)
  if n < 0 then "-" ++ digits else digits

/-- The word for a truth value. -/
def boolText (b : Bool) : String := if b then "true" else "false"

mutual

/-- The compact JSON text of a value. -/
def json : Value → String
  | null => "null"
  | bool b => boolText b
  | integer n => integerText n
  | float x => x.text
  | string s => Quoted.encode s
  | array xs => "[" ++ jsonItems xs true ++ "]"
  | object fs => "\x7b" ++ jsonFields fs true ++ "\x7d"

/-- The items of an array, with a comma before each but the first. -/
def jsonItems : List Value → Bool → String
  | [], _ => ""
  | x :: xs, isFirst => (if isFirst then "" else ",") ++ json x ++ jsonItems xs false

/-- The fields of an object, with a comma before each but the first. -/
def jsonFields : List (String × Value) → Bool → String
  | [], _ => ""
  | (name, x) :: fs, isFirst =>
    (if isFirst then "" else ",") ++ Quoted.encode name ++ ":" ++ json x ++ jsonFields fs false

end

/-- What the value becomes as text. -/
def text : Value → String
  | null => ""
  | string s => s
  | v => json v

@[simp] theorem text_null : text null = "" := rfl

@[simp] theorem text_string (s : String) : text (string s) = s := rfl

end Value

end ReactiveMarkup
