import Mathlib

/-!
# JavaScript values

The values that handlers, stored rows and wire frames are made of, as far as
the codecs look at them: primitives, byte arrays, arrays and plain objects.
An object is the list of its own enumerable string properties in `Object.keys`
order; symbols and prototypes are not represented.

* `JsValue.sameValueZero_iff` — the SameValueZero comparison of `includes` is
  equality up to the sign of zero.
-/

namespace AckerDB

/-- A JavaScript number.  The finite numbers are rationals, with the negative
zero kept apart from `finite 0`. -/
inductive JsNumber where
  | finite (value : ℚ)
  | negZero
  | infinity (negative : Bool)
  | nan
  deriving DecidableEq

namespace JsNumber

/-- `Number.isFinite`. -/
def isFinite : JsNumber → Bool
  | finite _ => true
  | negZero => true
  | infinity _ => false
  | nan => false

/-- The number with its zero made positive. -/
def zeroed : JsNumber → JsNumber
  | negZero => finite 0
  | n => n

/-- `String(n)` for the numbers that are not finite, as error texts print them. -/
def nonFiniteText : JsNumber → String
  | infinity false => "Infinity"
  | infinity true => "-Infinity"
  | _ => "NaN"

end JsNumber

/-- A JavaScript value. -/
inductive JsValue where
  | undefined
  | null
  | bool (value : Bool)
  | number (value : JsNumber)
  | string (value : String)
  | bigint (value : Int)
  | bytes (value : List UInt8)
  | array (items : List JsValue)
  | object (fields : List (String × JsValue))
  /-- A function or a symbol: the codecs read nothing of it but its `typeof`. -/
  | other (typeof : String)

/-- The errors the modelled code throws, by class. -/
inductive JsError where
  | error (message : String)
  | typeError (message : String)
  | syntaxError (message : String)
  | wireError (message : String)
  | validationError (message : String)
  /-- `ProtocolError`: a frame of the wrong shape, or of another build. -/
  | protocolError (versionMismatch : Bool) (message : String)
  deriving DecidableEq

namespace JsValue

/-! ## Decidable equality -/

mutual

/-- Structural equality of values. -/
def beq : JsValue → JsValue → Bool
  | undefined, undefined => true
  | null, null => true
  | bool a, bool b => a = b
  | number a, number b => a = b
  | string a, string b => a = b
  | bigint a, bigint b => a = b
  | bytes a, bytes b => a = b
  | array a, array b => beqItems a b
  | object a, object b => beqFields a b
  | other a, other b => a = b
  | _, _ => false

/-- Structural equality of array items. -/
def beqItems : List JsValue → List JsValue → Bool
  | [], [] => true
  | a :: as, b :: bs => beq a b && beqItems as bs
  | _, _ => false

/-- Structural equality of object fields. -/
def beqFields : List (String × JsValue) → List (String × JsValue) → Bool
  | [], [] => true
  | (k, a) :: as, (l, b) :: bs => k = l && beq a b && beqFields as bs
  | _, _ => false

end

mutual

theorem beq_iff : ∀ a b : JsValue, beq a b = true ↔ a = b
  | .undefined, b => by cases b <;> simp [beq]
  | .null, b => by cases b <;> simp [beq]
  | .bool a, b => by cases b <;> simp [beq]
  | .number a, b => by cases b <;> simp [beq]
  | .string a, b => by cases b <;> simp [beq]
  | .bigint a, b => by cases b <;> simp [beq]
  | .bytes a, b => by cases b <;> simp [beq]
  | .array a, b => by cases b <;> simp [beq, beqItems_iff]
  | .object a, b => by cases b <;> simp [beq, beqFields_iff]
  | .other a, b => by cases b <;> simp [beq]

theorem beqItems_iff : ∀ a b : List JsValue, beqItems a b = true ↔ a = b
  | [], b => by cases b <;> simp [beqItems]
  | a :: as, [] => by simp [beqItems]
  | a :: as, b :: bs => by simp [beqItems, beq_iff, beqItems_iff]

theorem beqFields_iff : ∀ a b : List (String × JsValue), beqFields a b = true ↔ a = b
  | [], b => by cases b <;> simp [beqFields]
  | (k, a) :: as, [] => by simp [beqFields]
  | (k, a) :: as, (l, b) :: bs => by simp [beqFields, beq_iff, beqFields_iff]

end

instance : DecidableEq JsValue := fun a b => decidable_of_iff _ (beq_iff a b)

/-! ## Reading values -/

/-- `value[key]` on an object: an absent property reads as `undefined`. -/
def get (fields : List (String × JsValue)) (key : String) : JsValue :=
  (fields.lookup key).getD undefined

/-- The integer a number is, if it is one (`Number.isInteger`). -/
def integer? : JsValue → Option Int
  | number (.finite q) => if q.den = 1 then some q.num else none
  | number .negZero => some 0
  | _ => none

/-- The number of a natural number. -/
def ofNat (n : Nat) : JsValue := number (.finite n)

@[simp] theorem integer?_ofNat (n : Nat) : (ofNat n).integer? = some (n : Int) := by
  simp [ofNat, integer?]

/-- `typeof value`. -/
def typeof : JsValue → String
  | undefined => "undefined"
  | null => "object"
  | bool _ => "boolean"
  | number _ => "number"
  | string _ => "string"
  | bigint _ => "bigint"
  | bytes _ => "object"
  | array _ => "object"
  | object _ => "object"
  | other kind => kind

/-- The value with a negative zero made positive. -/
def zeroed : JsValue → JsValue
  | number n => number n.zeroed
  | v => v

/-- `Object.is(left, right) || (left === 0 && right === 0)`, for primitives. -/
def sameValueZero (left right : JsValue) : Bool :=
  left = right || (left.zeroed = number (.finite 0) && right.zeroed = number (.finite 0))

theorem sameValueZero_iff (left right : JsValue) :
    sameValueZero left right = true ↔ left.zeroed = right.zeroed := by
  constructor
  · intro h
    simp only [sameValueZero, Bool.or_eq_true, Bool.and_eq_true, decide_eq_true_eq] at h
    rcases h with h | ⟨hl, hr⟩
    · rw [h]
    · rw [hl, hr]
  intro h
  simp only [sameValueZero, Bool.or_eq_true, Bool.and_eq_true, decide_eq_true_eq]
  by_cases hz : left.zeroed = number (.finite 0)
  · exact .inr ⟨hz, h ▸ hz⟩
  -- away from zero the zeroed form determines the value
  cases left with
  | number n =>
    cases right with
    | number m => cases n <;> cases m <;> simp_all [zeroed, JsNumber.zeroed]
    | _ => simp [zeroed] at h
  | _ => cases right <;> simp_all [zeroed]

end JsValue

/-- The length JavaScript reports for a string: UTF-16 code units. -/
def jsLength (text : String) : Nat :=
  text.toList.foldl (fun n c => n + if c.toNat < 0x10000 then 1 else 2) 0

end AckerDB
