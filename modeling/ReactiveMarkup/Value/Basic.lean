-- SUMMARY: Values of a state tree, and the equality by which a write counts as a change.
import ReactiveMarkup.Fields
import ReactiveMarkup.Number.Binary64

/-!
# Values

The values that a state tree is made of. Integers and floating-point numbers are different values:
`1` is not `1.0`. The fields of an object are kept in the order of their names.

`Value.same` is the equality by which a write counts as a change. It compares floating-point numbers
as numbers, so that the two zeros are the same value although their texts differ.
-/

namespace ReactiveMarkup

/-- A node of a state tree. -/
inductive Value where
  | null
  | bool (b : Bool)
  | integer (n : Int)
  | float (x : Binary64)
  | string (s : String)
  | array (items : List Value)
  | object (fields : List (String × Value))

namespace Value

instance : Inhabited Value := ⟨null⟩

/-- The object without fields. -/
def empty : Value := object []

/-! ## Equality -/

mutual

/-- Whether two values are equal as values. -/
def same : Value → Value → Bool
  | null, null => true
  | bool a, bool b => a == b
  | integer m, integer n => m == n
  | float x, float y => x.same y
  | string s, string t => s == t
  | array xs, array ys => sameItems xs ys
  | object fs, object gs => sameFields fs gs
  | _, _ => false

/-- Whether two lists of values are equal item by item. -/
def sameItems : List Value → List Value → Bool
  | [], [] => true
  | x :: xs, y :: ys => same x y && sameItems xs ys
  | _, _ => false

/-- Whether two lists of fields have the same names and equal values. -/
def sameFields : List (String × Value) → List (String × Value) → Bool
  | [], [] => true
  | (a, x) :: fs, (b, y) :: gs => a == b && same x y && sameFields fs gs
  | _, _ => false

end

instance : BEq Value := ⟨same⟩

theorem beq_eq_same (v w : Value) : (v == w) = same v w := rfl

mutual

/-- A value equals itself. -/
theorem same_self : ∀ v : Value, same v v = true
  | null => rfl
  | bool b => by simp [same]
  | integer n => by simp [same]
  | float x => by simp [same, Binary64.same_self]
  | string s => by simp [same]
  | array xs => by simp [same, sameItems_self xs]
  | object fs => by simp [same, sameFields_self fs]

theorem sameItems_self : ∀ xs : List Value, sameItems xs xs = true
  | [] => rfl
  | x :: xs => by simp [sameItems, same_self x, sameItems_self xs]

theorem sameFields_self : ∀ fs : List (String × Value), sameFields fs fs = true
  | [] => rfl
  | (a, x) :: fs => by simp [sameFields, same_self x, sameFields_self fs]

end

/-! ## Reading values as text and as truth -/

/-- Whether the value can hold named or indexed children. -/
def isNested : Value → Bool
  | array _ | object _ => true
  | _ => false

/-- Whether the value counts as true where a property is a switch: null, false, zero and the empty
string do not. -/
def isTruthy : Value → Bool
  | null => false
  | bool b => b
  | integer n => n != 0
  | float x => !x.isZero
  | string s => s != ""
  | array _ | object _ => true

end Value

end ReactiveMarkup
