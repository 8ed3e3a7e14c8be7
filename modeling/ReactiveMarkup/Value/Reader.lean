-- SUMMARY: Reading JSON texts as values.
import ReactiveMarkup.Number.Rounding
import ReactiveMarkup.Value.Basic

/-!
# Reading values

`Value.ofJson?` reads one JSON text. A number token is an integer when it has no point and no
exponent and fits into 64 bits, signed or unsigned; any other number, and the token `-0`, is a
floating-point number. Of two fields with one name the later wins.

A floating-point number is read in steps that each round: its digits, as far as they make a number
of 64 bits, and then the multiplication or division by a power of ten. Its last digit can so differ
from that of the nearest number.
-/

namespace ReactiveMarkup

namespace Value.Reader

/-- What is left of the text after a part of it has been read. -/
abbrev Rest := List Char

/-- The text without the blanks at its start. -/
def skipBlanks : Rest → Rest
  | c :: rest => if c = ' ' ∨ c = '\t' ∨ c = '\n' ∨ c = '\r' then skipBlanks rest else c :: rest
  | [] => []

/-- The text behind a word that stands at its start. -/
def expect? : List Char → Rest → Option Rest
  | [], rest => some rest
  | w :: word, c :: rest => if w = c then expect? word rest else none
  | _ :: _, [] => none

/-! ## Strings -/

/-- The value of a hexadecimal digit. -/
def hexValue? (c : Char) : Option Nat :=
  if '0' ≤ c ∧ c ≤ '9' then some (c.toNat - 48)
  else if 'a' ≤ c ∧ c ≤ 'f' then some (c.toNat - 87)
  else if 'A' ≤ c ∧ c ≤ 'F' then some (c.toNat - 55)
  else none

/-- Four hexadecimal digits. -/
def hex4? : Rest → Option (Nat × Rest)
  | a :: b :: c :: d :: rest => do
    let a ← hexValue? a
    let b ← hexValue? b
    let c ← hexValue? c
    let d ← hexValue? d
    return (((a * 16 + b) * 16 + c) * 16 + d, rest)
  | _ => none

/-- The character behind `\u`, which may take two escapes. -/
def unicodeEscape? (rest : Rest) : Option (Char × Rest) := do
  let (n, rest) ← hex4? rest
  if 0xD800 ≤ n ∧ n < 0xDC00 then
    let rest ← expect? ['\\', 'u'] rest
    let (low, rest) ← hex4? rest
    if 0xDC00 ≤ low ∧ low < 0xE000 then
      return (Char.ofNat (0x10000 + (n - 0xD800) * 0x400 + (low - 0xDC00)), rest)
    else none
  else if 0xDC00 ≤ n ∧ n < 0xE000 then none
  else return (Char.ofNat n, rest)

/-- The character that a single letter stands for behind a backslash. -/
def letterEscape? (c : Char) : Option Char :=
  if c = '"' ∨ c = '\\' ∨ c = '/' then some c
  else if c = 'b' then some (Char.ofNat 8)
  else if c = 'f' then some (Char.ofNat 12)
  else if c = 'n' then some '\n'
  else if c = 'r' then some '\r'
  else if c = 't' then some '\t'
  else none

/-- The rest of a string whose opening quote has been read. Every round reads a character, so the
length of the text is fuel enough. -/
def stringBody? : Nat → List Char → Rest → Option (String × Rest)
  | 0, _, _ => none
  | fuel + 1, done, rest =>
    match rest with
    | [] => none
    | '"' :: rest => some (String.ofList done.reverse, rest)
    | '\\' :: 'u' :: rest => do
      let (c, rest) ← unicodeEscape? rest
      stringBody? fuel (c :: done) rest
    | '\\' :: c :: rest => do
      let c ← letterEscape? c
      stringBody? fuel (c :: done) rest
    | c :: rest => if c.toNat < 32 then none else stringBody? fuel (c :: done) rest

/-! ## Numbers -/

/-- The digits at the start of the text. -/
def digits (rest : Rest) : List Char × Rest := rest.span Char.isDigit

/-- The natural number that the digits spell. -/
def natOfDigits (ds : List Char) : Nat := ds.foldl (fun n d => n * 10 + (d.toNat - 48)) 0

/-- The number that goes on from `n` with the digits for as long as it fits into 64 bits, and the
digits that are left over. -/
def takeDigits : Nat → List Char → Nat × List Char
  | n, [] => (n, [])
  | n, d :: ds =>
    let m := n * 10 + (d.toNat - 48)
    if m < UInt64.size then takeDigits m ds else (n, d :: ds)

/-- The floating-point number with these digits before and behind the point, and this exponent.
Digits left over before the point count as places, and those behind it do not count. -/
def float? (isNegative : Bool) (whole fraction : List Char) (exponent : Int) : Option Binary64 := do
  let (n, places) := takeDigits 0 whole
  let (n, unread) := takeDigits n fraction
  let x ← Binary64.ofRatio? isNegative n 1
  let exponent := exponent + places.length - (fraction.length - unread.length : Nat)
  if 0 ≤ exponent then x.timesPower? exponent.toNat else x.overPower? exponent.natAbs

/-- The number at the start of the text. -/
def number? (rest : Rest) : Option (Value × Rest) := do
  let (isNegative, rest) := match rest with
    | '-' :: rest => (true, rest)
    | rest => (false, rest)
  let (whole, rest) := digits rest
  if whole.isEmpty ∨ (whole.length > 1 ∧ whole.head? = some '0') then none
  let (fraction, hasPoint, rest) := match rest with
    | '.' :: rest => let (f, rest) := digits rest; (f, true, rest)
    | rest => ([], false, rest)
  if hasPoint ∧ fraction.isEmpty then none
  let (exponent, hasExponent, rest) ← (match rest with
    | c :: rest =>
      if c = 'e' ∨ c = 'E' then
        let (sign, rest) := match rest with
          | '+' :: rest => ((1 : Int), rest)
          | '-' :: rest => (-1, rest)
          | rest => (1, rest)
        let (e, rest) := digits rest
        if e.isEmpty then none else some (sign * natOfDigits e, true, rest)
      else some (0, false, c :: rest)
    | [] => some (0, false, []))
  let n := natOfDigits whole
  let fits := if isNegative then 0 < n ∧ n ≤ 0x8000000000000000 else n < UInt64.size
  if hasPoint = false ∧ hasExponent = false ∧ fits then
    return (.integer (if isNegative then -(n : Int) else n), rest)
  else
    let x ← float? isNegative whole fraction exponent
    return (.float x, rest)

/-! ## Values -/

mutual

/-- The value at the start of the text. Each nested call has a shorter text before it, so the length
of the text is fuel enough. -/
def value? : Nat → Rest → Option (Value × Rest)
  | 0, _ => none
  | fuel + 1, rest =>
    match skipBlanks rest with
    | '"' :: rest => do
      let (s, rest) ← stringBody? rest.length.succ [] rest
      return (.string s, rest)
    | '[' :: rest =>
      match skipBlanks rest with
      | ']' :: rest => some (.array [], rest)
      | rest => items? fuel [] rest
    | '{' :: rest =>
      match skipBlanks rest with
      | '}' :: rest => some (.object [], rest)
      | rest => fields? fuel [] rest
    | 'n' :: rest => (expect? ['u', 'l', 'l'] rest).map (.null, ·)
    | 't' :: rest => (expect? ['r', 'u', 'e'] rest).map (.bool true, ·)
    | 'f' :: rest => (expect? ['a', 'l', 's', 'e'] rest).map (.bool false, ·)
    | rest => number? rest

/-- The items of an array up to its closing bracket. -/
def items? : Nat → List Value → Rest → Option (Value × Rest)
  | 0, _, _ => none
  | fuel + 1, done, rest => do
    let (x, rest) ← value? fuel rest
    match skipBlanks rest with
    | ',' :: rest => items? fuel (x :: done) rest
    | ']' :: rest => return (.array (x :: done).reverse, rest)
    | _ => none

/-- The fields of an object up to its closing brace. -/
def fields? : Nat → Fields Value → Rest → Option (Value × Rest)
  | 0, _, _ => none
  | fuel + 1, done, rest =>
    match skipBlanks rest with
    | '"' :: rest => do
      let (name, rest) ← stringBody? rest.length.succ [] rest
      let rest ← expect? [':'] (skipBlanks rest)
      let (x, rest) ← value? fuel rest
      match skipBlanks rest with
      | ',' :: rest => fields? fuel (done.insert name x) rest
      | '}' :: rest => return (.object (done.insert name x), rest)
      | _ => none
    | _ => none

end

end Value.Reader

/-- The value that a JSON text denotes, if it is one. -/
def Value.ofJson? (s : String) : Option Value := do
  let chars := s.toList
  let (v, rest) ← Reader.value? (2 * chars.length + 2) chars
  if (Reader.skipBlanks rest).isEmpty then return v else none

end ReactiveMarkup
