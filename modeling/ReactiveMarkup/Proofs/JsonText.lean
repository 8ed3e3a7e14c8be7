-- SUMMARY: The compact JSON text of a value determines the value.
import ReactiveMarkup.Proofs.FloatText
import ReactiveMarkup.Proofs.Writing
import ReactiveMarkup.Value.Reader
import ReactiveMarkup.Value.Text

/-!
# The text of a value

The compact JSON text of a value determines the value (`Value.json_injective`): the first character
of a text says what kind of value it is, strings and lists end at the first mark of their own that
is not inside a part of them, and numbers end where a character follows that is not in them.
-/

namespace ReactiveMarkup

/-! ## Quoted strings -/

namespace Quoted

open Value.Reader

theorem hexValue?_hexDigit {n : ℕ} (hn : n < 16) : hexValue? (hexDigit n) = some n := by
  have hall : ∀ n < 16, hexValue? (hexDigit n) = some n := by decide +kernel
  exact hall n hn

/-- A character stands for itself, or its escape reads back to it. -/
theorem escape_cases (c : Char) :
    (c ≠ '"' ∧ c ≠ '\\' ∧ escape c = [c]) ∨
      (∃ letter, escape c = ['\\', letter] ∧ letter ≠ 'u' ∧ letterEscape? letter = some c) ∨
      (∃ high low, escape c = ['\\', 'u', '0', '0', high, low] ∧
        hexValue? high = some (c.toNat / 16) ∧ hexValue? low = some (c.toNat % 16)) := by
  have hcode {n : ℕ} (h : c.toNat = n) : c = Char.ofNat n := by rw [← h, Char.ofNat_toNat]
  generalize he : escape c = written
  unfold escape at he
  split at he
  case isTrue h => exact .inr (.inl ⟨'"', he.symm, by decide, by rw [h]; rfl⟩)
  case isFalse hquote =>
    split at he
    case isTrue h => exact .inr (.inl ⟨'\\', he.symm, by decide, by rw [h]; rfl⟩)
    case isFalse hslash =>
      split at he
      case isTrue h => exact .inr (.inl ⟨'b', he.symm, by decide, hcode h ▸ rfl⟩)
      split at he
      case isTrue h => exact .inr (.inl ⟨'t', he.symm, by decide, hcode h ▸ rfl⟩)
      split at he
      case isTrue h => exact .inr (.inl ⟨'n', he.symm, by decide, hcode h ▸ rfl⟩)
      split at he
      case isTrue h => exact .inr (.inl ⟨'f', he.symm, by decide, hcode h ▸ rfl⟩)
      split at he
      case isTrue h => exact .inr (.inl ⟨'r', he.symm, by decide, hcode h ▸ rfl⟩)
      split at he
      case isTrue h =>
        exact .inr (.inr ⟨_, _, he.symm, hexValue?_hexDigit (by omega),
          hexValue?_hexDigit (by omega)⟩)
      case isFalse => exact .inl ⟨hquote, hslash, he.symm⟩

theorem head_escape (c : Char) : ∃ d rest, escape c = d :: rest ∧ d ≠ '"' := by
  obtain ⟨hne, -, he⟩ | ⟨letter, he, -, -⟩ | ⟨high, low, he, -⟩ := escape_cases c
  · exact ⟨c, [], he, hne⟩
  · exact ⟨'\\', _, he, by decide⟩
  · exact ⟨'\\', _, he, by decide⟩

/-- What one character is written as tells where the next one begins. -/
private theorem escape_append_inj {c d : Char} {cs ds : List Char}
    (h : escape c ++ cs = escape d ++ ds) : c = d ∧ cs = ds := by
  obtain ⟨-, hc, he⟩ | ⟨x, he, hx, hread⟩ | ⟨high, low, he, hhigh, hlow⟩ := escape_cases c <;>
    obtain ⟨-, hd, he'⟩ | ⟨y, he', hy, hread'⟩ | ⟨high', low', he', hhigh', hlow'⟩ :=
      escape_cases d <;>
      rw [he, he'] at h <;> simp only [List.cons_append, List.nil_append, List.cons.injEq] at h
  · exact h
  · exact absurd h.1 hc
  · exact absurd h.1 hc
  · exact absurd h.1.symm hd
  · obtain ⟨-, rfl, hrest⟩ := h
    exact ⟨Option.some.inj (hread.symm.trans hread'), hrest⟩
  · exact absurd h.2.1 hx
  · exact absurd h.1.symm hd
  · exact absurd h.2.1.symm hy
  · obtain ⟨-, -, -, -, rfl, rfl, hrest⟩ := h
    have h1 := Option.some.inj (hhigh.symm.trans hhigh')
    have h2 := Option.some.inj (hlow.symm.trans hlow')
    exact ⟨Char.toNat_inj.1 (by omega), hrest⟩

/-- The characters between quotes tell where the closing quote stands. -/
private theorem escaped_append_inj {cs ds r r' : List Char}
    (h : cs.flatMap escape ++ '"' :: r = ds.flatMap escape ++ '"' :: r') : cs = ds ∧ r = r' := by
  induction cs generalizing ds with
  | nil =>
    cases ds with
    | nil => exact ⟨rfl, (List.cons.inj h).2⟩
    | cons d ds =>
      obtain ⟨e, rest, he, hne⟩ := head_escape d
      rw [List.flatMap_cons, he] at h
      exact absurd (List.cons.inj h).1.symm hne
  | cons c cs ih =>
    cases ds with
    | nil =>
      obtain ⟨e, rest, he, hne⟩ := head_escape c
      rw [List.flatMap_cons, he] at h
      exact absurd (List.cons.inj h).1 hne
    | cons d ds =>
      rw [List.flatMap_cons, List.flatMap_cons, List.append_assoc, List.append_assoc] at h
      obtain ⟨rfl, hrest⟩ := escape_append_inj h
      obtain ⟨rfl, rfl⟩ := ih hrest
      exact ⟨rfl, rfl⟩

private theorem toList_encode_append (s : String) (r : List Char) :
    (encode s).toList ++ r = '"' :: (s.toList.flatMap escape ++ '"' :: r) := by
  simp [encode]

theorem encode_append_inj {s t : String} {r r' : List Char}
    (h : (encode s).toList ++ r = (encode t).toList ++ r') : s = t ∧ r = r' := by
  rw [toList_encode_append, toList_encode_append] at h
  obtain ⟨hs, hr⟩ := escaped_append_inj (List.cons.inj h).2
  exact ⟨String.toList_inj.1 hs, hr⟩

end Quoted

namespace Value

/-! ## Numbers -/

private theorem toList_integerText (n : ℤ) : (integerText n).toList =
    if n < 0 then '-' :: Nat.toDigits 10 n.natAbs else Nat.toDigits 10 n.natAbs := by
  unfold integerText
  split <;> simp

/-- Integers are written with digits, behind a minus sign where they are negative. -/
theorem mem_integerText (n : ℤ) : ∀ c ∈ (integerText n).toList, c = '-' ∨ c.isDigit = true := by
  have hdigits : ∀ c ∈ Nat.toDigits 10 n.natAbs, c = '-' ∨ c.isDigit = true :=
    fun c hc => .inr (areDigits_toDigits _ c hc)
  rw [toList_integerText]
  split
  · exact List.forall_mem_cons.2 ⟨.inl rfl, hdigits⟩
  · exact hdigits

theorem isNumeric_integerText (n : ℤ) : ∀ c ∈ (integerText n).toList,
    Binary64.isNumeric c = true := by
  intro c hc
  rcases mem_integerText n c hc with rfl | hdigit
  · rfl
  · rw [Binary64.isNumeric, hdigit, Bool.true_or]

/-- An integer and a floating-point number have different texts. -/
theorem integerText_ne_text (n : ℤ) (x : Binary64) : (integerText n).toList ≠ x.text.toList := by
  intro h
  have hinteger {c : Char} (hc : c ∈ x.text.toList) : c = '-' ∨ c.isDigit = true :=
    mem_integerText n c (h ▸ hc)
  rcases (Binary64.mem_text x).2 with hpoint | hmark
  · exact absurd (hinteger hpoint) (by decide)
  · exact absurd (hinteger hmark) (by decide)

private theorem integerText_injective : Function.Injective integerText := by
  have hsign (n : ℕ) (ds : List Char) : '-' :: ds ≠ Nat.toDigits 10 n := by
    intro h
    have hc : '-' ∈ Nat.toDigits 10 n := h ▸ List.mem_cons_self
    exact absurd (areDigits_toDigits _ _ hc) (by decide)
  have hdigits {n m : ℕ} (h : Nat.toDigits 10 n = Nat.toDigits 10 m) : n = m := by
    rw [← Nat.ofDigitChars_ten_toDigits (n := n), h, Nat.ofDigitChars_ten_toDigits]
  intro n m h
  have hlist : (integerText n).toList = (integerText m).toList := by rw [h]
  rw [toList_integerText, toList_integerText] at hlist
  split at hlist <;> split at hlist
  · have habs := hdigits (List.cons.inj hlist).2
    omega
  · exact absurd hlist (hsign _ _)
  · exact absurd hlist.symm (hsign _ _)
  · have habs := hdigits hlist
    omega

private theorem integerText_ne_nil (n : ℤ) : (integerText n).toList ≠ [] := by
  rw [toList_integerText]
  split
  · exact List.cons_ne_nil _ _
  · exact Nat.toDigits_ne_nil

private theorem text_ne_nil (x : Binary64) : x.text.toList ≠ [] := by
  rcases (Binary64.mem_text x).2 with h | h <;> exact List.ne_nil_of_mem h

/-- What follows a value in a text: nothing, or a character that does not belong to numbers. -/
def EndsValue (rest : List Char) : Prop := ∀ c ∈ rest.head?, Binary64.isNumeric c = false

/-- A number ends where a character follows that is not in numbers. -/
theorem numeric_append_inj {cs ds r r' : List Char} (hcs : ∀ c ∈ cs, Binary64.isNumeric c = true)
    (hds : ∀ c ∈ ds, Binary64.isNumeric c = true) (hr : EndsValue r) (hr' : EndsValue r')
    (h : cs ++ r = ds ++ r') : cs = ds ∧ r = r' := by
  obtain ⟨htake, hdrop⟩ := Markup.span_written hcs hr
  obtain ⟨htake', hdrop'⟩ := Markup.span_written hds hr'
  exact ⟨htake.symm.trans (h ▸ htake'), hdrop.symm.trans (h ▸ hdrop')⟩

/-! ## Kinds of values -/

/-- The kinds of values that a text tells apart by its first character. -/
inductive Kind where
  | null
  | bool
  | number
  | string
  | array
  | object

/-- The kind of a value. -/
def kind : Value → Kind
  | null => .null
  | bool _ => .bool
  | integer _ | float _ => .number
  | string _ => .string
  | array _ => .array
  | object _ => .object

/-- The kind of the values whose texts begin with the character. -/
def Kind.ofChar (c : Char) : Kind :=
  if c = 'n' then .null
  else if c = 't' ∨ c = 'f' then .bool
  else if c = '"' then .string
  else if c = '[' then .array
  else if c = '{' then .object
  else .number

private theorem Kind.ofChar_of_isNumeric {c : Char} (h : Binary64.isNumeric c = true) :
    ofChar c = .number := by
  have hne {d : Char} (hd : Binary64.isNumeric d = false) : c ≠ d := by
    rintro rfl
    exact absurd h (by rw [hd]; decide)
  rw [ofChar, if_neg (hne rfl), if_neg (by simp [hne (d := 't') rfl, hne (d := 'f') rfl]),
    if_neg (hne rfl), if_neg (hne rfl), if_neg (hne rfl)]

/-! ## Texts of nested values -/

private theorem toList_array_append (xs : List Value) (r : List Char) :
    (json (array xs)).toList ++ r = '[' :: ((jsonItems xs true).toList ++ ']' :: r) := by
  simp [json]

private theorem toList_object_append (fs : List (String × Value)) (r : List Char) :
    (json (object fs)).toList ++ r = '{' :: ((jsonFields fs true).toList ++ '}' :: r) := by
  simp [json]

/-- What stands before an item or a field. -/
def separator (isFirst : Bool) : List Char := if isFirst then [] else [',']

private theorem toList_items_append (x : Value) (xs : List Value) (isFirst : Bool) (r : List Char) :
    (jsonItems (x :: xs) isFirst).toList ++ r =
      separator isFirst ++ ((json x).toList ++ ((jsonItems xs false).toList ++ r)) := by
  cases isFirst <;> simp [jsonItems, separator]

private theorem toList_fields_append (name : String) (x : Value) (fs : List (String × Value))
    (isFirst : Bool) (r : List Char) :
    (jsonFields ((name, x) :: fs) isFirst).toList ++ r =
      separator isFirst ++ ((Quoted.encode name).toList ++ ':' :: ((json x).toList ++
        ((jsonFields fs false).toList ++ r))) := by
  cases isFirst <;> simp [jsonFields, separator]

theorem endsValue_items (xs : List Value) (r : List Char) :
    EndsValue ((jsonItems xs false).toList ++ ']' :: r) := by
  cases xs with
  | nil =>
    rintro c ⟨⟩
    rfl
  | cons x xs =>
    rw [toList_items_append]
    rintro c ⟨⟩
    rfl

theorem endsValue_fields (fs : List (String × Value)) (r : List Char) :
    EndsValue ((jsonFields fs false).toList ++ '}' :: r) := by
  cases fs with
  | nil =>
    rintro c ⟨⟩
    rfl
  | cons f fs =>
    rw [toList_fields_append]
    rintro c ⟨⟩
    rfl

/-- A text begins with a character for the kind of the value, which closes nothing. -/
theorem head_json (v : Value) (r : List Char) :
    ∃ c cs, (json v).toList ++ r = c :: cs ∧ Kind.ofChar c = v.kind ∧ c ∉ [',', ']', '}'] := by
  have hnumber {cs : List Char} (hne : cs ≠ []) (hcs : ∀ c ∈ cs, Binary64.isNumeric c = true) :
      ∃ c ds, cs ++ r = c :: ds ∧ Kind.ofChar c = .number ∧ c ∉ [',', ']', '}'] := by
    obtain ⟨c, ds, rfl⟩ := List.exists_cons_of_ne_nil hne
    have hc := hcs c List.mem_cons_self
    refine ⟨c, ds ++ r, rfl, Kind.ofChar_of_isNumeric hc, fun hmem => ?_⟩
    have hall : [',', ']', '}'].all (fun d => !Binary64.isNumeric d) = true := by decide
    simpa [hc] using List.all_eq_true.1 hall c hmem
  cases v with
  | null => exact ⟨'n', _, rfl, rfl, by decide⟩
  | bool b => cases b <;> exact ⟨_, _, rfl, rfl, by decide⟩
  | integer n => exact hnumber (integerText_ne_nil n) (isNumeric_integerText n)
  | float x => exact hnumber (text_ne_nil x) (Binary64.mem_text x).1
  | string s => exact ⟨'"', _, Quoted.toList_encode_append s r, rfl, by decide⟩
  | array xs => exact ⟨'[', _, toList_array_append xs r, rfl, by decide⟩
  | object fs => exact ⟨'{', _, toList_object_append fs r, rfl, by decide⟩

/-- Where an item begins the array is not closed. -/
theorem close_ne_items (x : Value) (xs : List Value) (isFirst : Bool) (r rest : List Char) :
    ']' :: r ≠ (jsonItems (x :: xs) isFirst).toList ++ rest := by
  rw [toList_items_append]
  cases isFirst with
  | true =>
    obtain ⟨c, cs, hx, -, hc⟩ := head_json x ((jsonItems xs false).toList ++ rest)
    rw [hx]
    rintro ⟨⟩
    exact hc (by decide)
  | false => exact fun h => absurd (List.cons.inj h).1 (by decide)

/-- Where a field begins the object is not closed. -/
theorem close_ne_fields (f : String × Value) (fs : List (String × Value)) (isFirst : Bool)
    (r rest : List Char) : '}' :: r ≠ (jsonFields (f :: fs) isFirst).toList ++ rest := by
  rw [toList_fields_append, Quoted.toList_encode_append]
  cases isFirst <;> exact fun h => absurd (List.cons.inj h).1 (by decide)

private theorem boolText_append_inj {b b' : Bool} {r r' : List Char}
    (h : (json (bool b)).toList ++ r = (json (bool b')).toList ++ r') :
    bool b = bool b' ∧ r = r' := by
  cases b <;> cases b'
  · exact ⟨rfl, List.append_cancel_left h⟩
  · exact absurd (List.cons.inj h).1 (by decide)
  · exact absurd (List.cons.inj h).1 (by decide)
  · exact ⟨rfl, List.append_cancel_left h⟩

/-! ## The text determines the value -/

mutual

/-- The text of a value tells where it ends. -/
theorem json_append_inj (v w : Value) {r r' : List Char} (hr : EndsValue r) (hr' : EndsValue r')
    (h : (json v).toList ++ r = (json w).toList ++ r') : v = w ∧ r = r' := by
  have hkind : v.kind = w.kind := by
    obtain ⟨c, cs, hv, hc, -⟩ := head_json v r
    obtain ⟨d, ds, hw, hd, -⟩ := head_json w r'
    rw [hv, hw] at h
    rw [← hc, ← hd, (List.cons.inj h).1]
  cases v with
  | null =>
    cases w with
    | null => exact ⟨rfl, List.append_cancel_left h⟩
    | bool _ | integer _ | float _ | string _ | array _ | object _ => cases hkind
  | bool b =>
    cases w with
    | bool b' => exact boolText_append_inj h
    | null | integer _ | float _ | string _ | array _ | object _ => cases hkind
  | integer n =>
    cases w with
    | integer m =>
      obtain ⟨htext, hrest⟩ :=
        numeric_append_inj (isNumeric_integerText n) (isNumeric_integerText m) hr hr' h
      exact ⟨congrArg integer (integerText_injective (String.toList_inj.1 htext)), hrest⟩
    | float y =>
      obtain ⟨htext, -⟩ :=
        numeric_append_inj (isNumeric_integerText n) (Binary64.mem_text y).1 hr hr' h
      exact absurd htext (integerText_ne_text n y)
    | null | bool _ | string _ | array _ | object _ => cases hkind
  | float x =>
    cases w with
    | integer m =>
      obtain ⟨htext, -⟩ :=
        numeric_append_inj (Binary64.mem_text x).1 (isNumeric_integerText m) hr hr' h
      exact absurd htext.symm (integerText_ne_text m x)
    | float y =>
      obtain ⟨htext, hrest⟩ :=
        numeric_append_inj (Binary64.mem_text x).1 (Binary64.mem_text y).1 hr hr' h
      exact ⟨congrArg float (Binary64.text_injective (String.toList_inj.1 htext)), hrest⟩
    | null | bool _ | string _ | array _ | object _ => cases hkind
  | string s =>
    cases w with
    | string t =>
      obtain ⟨rfl, hrest⟩ := Quoted.encode_append_inj h
      exact ⟨rfl, hrest⟩
    | null | bool _ | integer _ | float _ | array _ | object _ => cases hkind
  | array xs =>
    cases w with
    | array ys =>
      rw [toList_array_append, toList_array_append] at h
      obtain ⟨rfl, hrest⟩ := jsonItems_append_inj xs ys (List.cons.inj h).2
      exact ⟨rfl, hrest⟩
    | null | bool _ | integer _ | float _ | string _ | object _ => cases hkind
  | object fs =>
    cases w with
    | object gs =>
      rw [toList_object_append, toList_object_append] at h
      obtain ⟨rfl, hrest⟩ := jsonFields_append_inj fs gs (List.cons.inj h).2
      exact ⟨rfl, hrest⟩
    | null | bool _ | integer _ | float _ | string _ | array _ => cases hkind

theorem jsonItems_append_inj (xs ys : List Value) {isFirst : Bool} {r r' : List Char}
    (h : (jsonItems xs isFirst).toList ++ ']' :: r = (jsonItems ys isFirst).toList ++ ']' :: r') :
    xs = ys ∧ r = r' := by
  match xs, ys with
  | [], [] => exact ⟨rfl, (List.cons.inj h).2⟩
  | [], y :: ys => exact absurd h (close_ne_items y ys isFirst r _)
  | x :: xs, [] => exact absurd h.symm (close_ne_items x xs isFirst r' _)
  | x :: xs, y :: ys =>
    rw [toList_items_append, toList_items_append] at h
    obtain ⟨rfl, hrest⟩ := json_append_inj x y (endsValue_items xs r) (endsValue_items ys r')
      (List.append_cancel_left h)
    obtain ⟨rfl, rfl⟩ := jsonItems_append_inj xs ys hrest
    exact ⟨rfl, rfl⟩

theorem jsonFields_append_inj (fs gs : List (String × Value)) {isFirst : Bool} {r r' : List Char}
    (h : (jsonFields fs isFirst).toList ++ '}' :: r = (jsonFields gs isFirst).toList ++ '}' :: r') :
    fs = gs ∧ r = r' := by
  match fs, gs with
  | [], [] => exact ⟨rfl, (List.cons.inj h).2⟩
  | [], g :: gs => exact absurd h (close_ne_fields g gs isFirst r _)
  | f :: fs, [] => exact absurd h.symm (close_ne_fields f fs isFirst r' _)
  | (a, x) :: fs, (b, y) :: gs =>
    rw [toList_fields_append, toList_fields_append] at h
    obtain ⟨rfl, hvalue⟩ := Quoted.encode_append_inj (List.append_cancel_left h)
    obtain ⟨rfl, hrest⟩ := json_append_inj x y (endsValue_fields fs r) (endsValue_fields gs r')
      (List.cons.inj hvalue).2
    obtain ⟨rfl, rfl⟩ := jsonFields_append_inj fs gs hrest
    exact ⟨rfl, rfl⟩

end

/-- A value is determined by its text. -/
theorem json_injective : Function.Injective json := by
  intro v w h
  have hends : EndsValue [] := nofun
  exact (json_append_inj v w hends hends (by rw [h])).1

end Value

end ReactiveMarkup
