import AckerDB.Lib.Base64
import AckerDB.Lib.Except
import AckerDB.Core.Value

/-!
# The wire format

JSON plus escape objects for the values JSON cannot carry: a bigint travels as
`{"$":"b","v":"<decimal>"}`, a byte array as `{"$":"x","v":"<base64>"}`, and an
object with an own `"$"` key is wrapped as `{"$":"o","v":{…}}`.  A JSON text is
identified with the tree it spells.

* `decode_encode` — every encodable value without a `__proto__` key is read back as
  its documented normal form;
* `encode_eq_ok_iff` — a value is encodable exactly when it holds no non-finite
  number, function or symbol;
* `toStandardJson` — the plain JSON of the HTTP surface.
-/

namespace AckerDB

/-- A JSON document. -/
inductive Json where
  | null
  | bool (value : Bool)
  | number (value : ℚ)
  | string (value : String)
  | array (items : List Json)
  | object (fields : List (String × Json))

namespace Json

mutual

/-- Structural equality of texts. -/
def beq : Json → Json → Bool
  | null, null => true
  | bool a, bool b => a = b
  | number a, number b => a = b
  | string a, string b => a = b
  | array a, array b => beqItems a b
  | object a, object b => beqFields a b
  | _, _ => false

/-- Structural equality of items. -/
def beqItems : List Json → List Json → Bool
  | [], [] => true
  | a :: as, b :: bs => beq a b && beqItems as bs
  | _, _ => false

/-- Structural equality of fields. -/
def beqFields : List (String × Json) → List (String × Json) → Bool
  | [], [] => true
  | (k, a) :: as, (l, b) :: bs => k = l && beq a b && beqFields as bs
  | _, _ => false

end

mutual

theorem beq_iff : ∀ a b : Json, beq a b = true ↔ a = b
  | .null, b => by cases b <;> simp [beq]
  | .bool a, b => by cases b <;> simp [beq]
  | .number a, b => by cases b <;> simp [beq]
  | .string a, b => by cases b <;> simp [beq]
  | .array a, b => by cases b <;> simp [beq, beqItems_iff a]
  | .object a, b => by cases b <;> simp [beq, beqFields_iff a]

theorem beqItems_iff : ∀ a b : List Json, beqItems a b = true ↔ a = b
  | [], b => by cases b <;> simp [beqItems]
  | a :: as, [] => by simp [beqItems]
  | a :: as, b :: bs => by simp [beqItems, beq_iff a b, beqItems_iff as bs]

theorem beqFields_iff : ∀ a b : List (String × Json), beqFields a b = true ↔ a = b
  | [], b => by cases b <;> simp [beqFields]
  | (k, a) :: as, [] => by simp [beqFields]
  | (k, a) :: as, (l, b) :: bs => by
      simp [beqFields, beq_iff a b, beqFields_iff as bs]

end

instance : DecidableEq Json := fun a b => decidable_of_iff _ (beq_iff a b)

end Json

namespace Wire

/-! ## Decimal texts of bigints -/

/-- Decimal digits, at least one. -/
def parseDigits (digits : List Char) : Option Nat :=
  if digits ≠ [] ∧ digits.all Char.isDigit then some (Nat.ofDigitChars 10 digits 0) else none

/-- `BigInt(text)` for a text in decimal notation; the empty text is zero. -/
def parseBigInt (text : String) : Option Int :=
  match text.toList with
  | [] => some 0
  | '-' :: digits => (parseDigits digits).map fun n => -(n : Int)
  | '+' :: digits => (parseDigits digits).map Int.ofNat
  | digits => (parseDigits digits).map Int.ofNat

theorem parseDigits_toDigits (n : Nat) : parseDigits (Nat.toDigits 10 n) = some n := by
  have hall : (Nat.toDigits 10 n).all Char.isDigit = true := by
    rw [List.all_eq_true]
    intro c hc
    exact Nat.isDigit_of_mem_toDigits (by decide) (by decide) hc
  rw [parseDigits, if_pos ⟨Nat.toDigits_ne_nil, hall⟩,
    Nat.ofDigitChars_toDigits (by decide) (by decide)]

theorem parseBigInt_digits {digits : List Char} {n : Nat} (h : parseDigits digits = some n) :
    parseBigInt (String.ofList digits) = some (n : Int) := by
  have hdigits : digits ≠ [] ∧ digits.all Char.isDigit = true := by
    by_contra hne
    rw [parseDigits, if_neg hne] at h
    cases h
  rw [parseBigInt, String.toList_ofList]
  -- a digit is neither sign, so only the last alternative applies
  split
  · exact absurd rfl hdigits.1
  · exact absurd hdigits.2 (by simp [Char.isDigit])
  · exact absurd hdigits.2 (by simp [Char.isDigit])
  · rw [h]
    rfl

theorem parseBigInt_repr (n : Int) : parseBigInt n.repr = some n := by
  cases n with
  | ofNat m => exact parseBigInt_digits (parseDigits_toDigits m)
  | negSucc m =>
    have htext : (Int.negSucc m).repr.toList = '-' :: Nat.toDigits 10 (m + 1) := by
      simp [Int.repr, Nat.repr]
    rw [parseBigInt, htext]
    simp only [parseDigits_toDigits]
    rfl

/-! ## Encoding -/

/-- `out[key] = value` on a plain object.  Assigning `__proto__` reaches the
accessor inherited from `Object.prototype` and creates no own property. -/
def assign {α : Type} (key : String) (value : α) (out : List (String × α)) :
    List (String × α) :=
  if key = "__proto__" then out else (key, value) :: out

mutual

/-- `toWire`; `none` is the JavaScript `undefined`. -/
def toWire : JsValue → Except JsError (Option Json)
  | .bigint n => .ok (some (.object [("$", .string "b"), ("v", .string n.repr)]))
  | .number (.finite q) => .ok (some (.number q))
  -- `JSON.stringify(-0)` is `0`
  | .number .negZero => .ok (some (.number 0))
  | .number n => .error (.wireError ("cannot encode non-finite number " ++ n.nonFiniteText))
  | .string s => .ok (some (.string s))
  | .bool b => .ok (some (.bool b))
  | .undefined => .ok none
  | .other kind => .error (.wireError ("cannot encode value of type " ++ kind))
  | .null => .ok (some .null)
  | .bytes b =>
    .ok (some (.object [("$", .string "x"), ("v", .string (String.ofList (Base64.encode b)))]))
  | .array items => do
      let out ← toWireItems items
      return some (.array out)
  | .object source => do
      let out ← toWireFields source
      return some (if (source.lookup "$").isSome then
        .object [("$", .string "o"), ("v", .object out)]
      else .object out)

/-- The items of an array; an `undefined` item becomes `null`. -/
def toWireItems : List JsValue → Except JsError (List Json)
  | [] => .ok []
  | item :: rest => do
      let encoded ← toWire item
      let out ← toWireItems rest
      return encoded.getD .null :: out

/-- The own fields of an object; a field without an encoding is dropped. -/
def toWireFields : List (String × JsValue) → Except JsError (List (String × Json))
  | [] => .ok []
  | (key, value) :: rest => do
      let encoded ← toWire value
      let out ← toWireFields rest
      return match encoded with
        | none => out
        | some json => assign key json out

end

/-- `encode`. -/
def encode (value : JsValue) : Except JsError Json := do
  let wire ← toWire value
  return wire.getD .null

mutual

/-- `sortDeep`: every object with its keys in order. -/
def sortDeep : Json → Json
  | .array items => .array (sortDeepItems items)
  | .object fields => .object ((sortDeepFields fields).insertionSort fun a b => a.1 ≤ b.1)
  | v => v

/-- `sortDeep` on array items. -/
def sortDeepItems : List Json → List Json
  | [] => []
  | item :: rest => sortDeep item :: sortDeepItems rest

/-- `sortDeep` on the values of object fields. -/
def sortDeepFields : List (String × Json) → List (String × Json)
  | [] => []
  | (key, value) :: rest => (key, sortDeep value) :: sortDeepFields rest

end

/-- `stableEncode`. -/
def stableEncode (value : JsValue) : Except JsError Json := do
  let wire ← toWire value
  return match wire with
    | none => .null
    | some json => sortDeep json

/-! ## Decoding -/

/-- `BigInt(obj["v"])`, for the JSON values a field can hold. -/
def toBigInt : Option Json → Except JsError Int
  | some (.string text) =>
    match parseBigInt text with
    | some n => .ok n
    | none => .error (.syntaxError "Failed to parse String to BigInt")
  | some (.bool b) => .ok (if b then 1 else 0)
  | some (.number q) => if q.den = 1 then .ok q.num else .error (.error "Not an integer")
  | _ => .error (.typeError "Invalid argument type in ToBigInt operation")

/-- The bytes of an `"x"` escape. -/
def toBytes : Option Json → Except JsError (List UInt8)
  | some (.string raw) =>
    match Base64.decode raw.toList with
    | some bytes => .ok bytes
    | none => .error (.wireError "invalid base64 in wire bytes value")
  | _ => .error (.wireError "wire bytes value must be a string")

mutual

/-- `fromWire`. -/
def fromWire : Json → Except JsError JsValue
  | .null => .ok .null
  | .bool b => .ok (.bool b)
  | .number q => .ok (.number (.finite q))
  | .string s => .ok (.string s)
  | .array items => do
      let out ← fromWireItems items
      return .array out
  | .object fields =>
    match fields.lookup "$" with
    | some (.string "b") => do
        let n ← toBigInt (fields.lookup "v")
        return .bigint n
    | some (.string "x") => do
        let bytes ← toBytes (fields.lookup "v")
        return .bytes bytes
    | some (.string "o") => do
        let out ← fromWrapped fields
        return .object out
    | some (.string escape) => .error (.wireError ("unknown wire escape \"" ++ escape ++ "\""))
    | _ => do
        let out ← fromWireFields fields
        return .object out

/-- Array items, in order. -/
def fromWireItems : List Json → Except JsError (List JsValue)
  | [] => .ok []
  | item :: rest => do
      let value ← fromWire item
      let out ← fromWireItems rest
      return value :: out

/-- Object fields, in order. -/
def fromWireFields : List (String × Json) → Except JsError (List (String × JsValue))
  | [] => .ok []
  | (key, item) :: rest => do
      let value ← fromWire item
      let out ← fromWireFields rest
      return assign key value out

/-- The field `"v"` of an `"o"` escape, read field by field without taking the
wrapped object itself for an escape. -/
def fromWrapped : List (String × Json) → Except JsError (List (String × JsValue))
  | [] => .error (.typeError "undefined is not an object")
  | (key, item) :: rest =>
    if key = "v" then
      match item with
      | .object inner => fromWireFields inner
      | .array items => do
          let out ← fromWireItems items
          return (List.range out.length).map toString |>.zip out
      | .null => .error (.typeError "null is not an object")
      -- `Object.keys` of a string lists its positions; of other primitives, nothing
      | .string s => .ok (s.toList.zipIdx.map fun (c, i) => (toString i, .string c.toString))
      | _ => .ok []
    else fromWrapped rest

end

/-- `decode`. -/
def decode (text : Json) : Except JsError JsValue := fromWire text

/-! ## What can be encoded, and what is read back -/

mutual

/-- The value holds no non-finite number, function or symbol. -/
def Encodable : JsValue → Prop
  | .number n => n.isFinite = true
  | .other _ => False
  | .array items => EncodableItems items
  | .object fields => EncodableFields fields
  | _ => True

/-- Every item is encodable. -/
def EncodableItems : List JsValue → Prop
  | [] => True
  | item :: rest => Encodable item ∧ EncodableItems rest

/-- Every field is encodable. -/
def EncodableFields : List (String × JsValue) → Prop
  | [] => True
  | (_, value) :: rest => Encodable value ∧ EncodableFields rest

end

mutual

/-- No object inside the value has an own, defined `__proto__` field. -/
def ProtoFree : JsValue → Prop
  | .array items => ProtoFreeItems items
  | .object fields => ProtoFreeFields fields
  | _ => True

/-- No item holds a `__proto__` field. -/
def ProtoFreeItems : List JsValue → Prop
  | [] => True
  | item :: rest => ProtoFree item ∧ ProtoFreeItems rest

/-- No field is, or holds, a defined `__proto__` field. -/
def ProtoFreeFields : List (String × JsValue) → Prop
  | [] => True
  | (key, value) :: rest =>
    (key = "__proto__" → value = .undefined) ∧ ProtoFree value ∧ ProtoFreeFields rest

end

mutual

/-- The documented normal form: `undefined` fields are absent, `undefined` items are
`null`, and the negative zero is zero. -/
def normalizeDefined : JsValue → JsValue
  | .number n => .number n.zeroed
  | .array items => .array (normalizeItems items)
  | .object fields => .object (normalizeFields fields)
  | v => v

/-- Normal form of array items. -/
def normalizeItems : List JsValue → List JsValue
  | [] => []
  | .undefined :: rest => .null :: normalizeItems rest
  | item :: rest => normalizeDefined item :: normalizeItems rest

/-- Normal form of object fields. -/
def normalizeFields : List (String × JsValue) → List (String × JsValue)
  | [] => []
  | (_, .undefined) :: rest => normalizeFields rest
  | (key, value) :: rest => (key, normalizeDefined value) :: normalizeFields rest

end

/-- The normal form of a whole message: a top-level `undefined` is `null`. -/
def normalize : JsValue → JsValue
  | .undefined => .null
  | v => normalizeDefined v

mutual

/-- What `decode` makes of an encoded value: the normal form without the
`__proto__` fields, which no assignment can create. -/
def readBackDefined : JsValue → JsValue
  | .number n => .number n.zeroed
  | .array items => .array (readBackItems items)
  | .object fields => .object (readBackFields fields)
  | v => v

/-- What is read back of array items. -/
def readBackItems : List JsValue → List JsValue
  | [] => []
  | .undefined :: rest => .null :: readBackItems rest
  | item :: rest => readBackDefined item :: readBackItems rest

/-- What is read back of object fields. -/
def readBackFields : List (String × JsValue) → List (String × JsValue)
  | [] => []
  | (_, .undefined) :: rest => readBackFields rest
  | (key, value) :: rest => assign key (readBackDefined value) (readBackFields rest)

end

variable {key : String} {value : JsValue} {out : List (String × Json)}
  {fields : List (String × JsValue)}

/-- What is read back of a whole message. -/
def readBack : JsValue → JsValue
  | .undefined => .null
  | v => readBackDefined v

theorem readBackItems_cons {item : JsValue} (h : item ≠ .undefined) (rest : List JsValue) :
    readBackItems (item :: rest) = readBackDefined item :: readBackItems rest := by
  cases item <;> simp_all [readBackItems]

theorem readBackFields_cons (h : value ≠ .undefined) (rest : List (String × JsValue)) :
    readBackFields ((key, value) :: rest) =
      assign key (readBackDefined value) (readBackFields rest) := by
  cases value <;> simp_all [readBackFields]

theorem normalizeItems_cons {item : JsValue} (h : item ≠ .undefined) (rest : List JsValue) :
    normalizeItems (item :: rest) = normalizeDefined item :: normalizeItems rest := by
  cases item <;> simp_all [normalizeItems]

theorem normalizeFields_cons (h : value ≠ .undefined) (rest : List (String × JsValue)) :
    normalizeFields ((key, value) :: rest) =
      (key, normalizeDefined value) :: normalizeFields rest := by
  cases value <;> simp_all [normalizeFields]

/-! ## The round trip -/

theorem lookup_assign_of_ne {α : Type} {other : String} (h : other ≠ key) (value : α)
    (out : List (String × α)) : (assign key value out).lookup other = out.lookup other := by
  unfold assign
  split
  · rfl
  · have hkey : (other == key) = false := by simpa using h
    rw [List.lookup_cons, hkey]

theorem fromWireFields_assign {json : Json} (hvalue : fromWire json = .ok value)
    (hout : fromWireFields out = .ok fields) :
    fromWireFields (assign key json out) = .ok (assign key value fields) := by
  unfold assign
  split
  · exact hout
  · rename_i hne
    simp [fromWireFields, hvalue, hout, assign, hne]

theorem fromWire_plain (hplain : out.lookup "$" = none) (hout : fromWireFields out = .ok fields) :
    fromWire (.object out) = .ok (.object fields) := by
  simp [fromWire, hplain, hout]

theorem fromWire_wrapped (hout : fromWireFields out = .ok fields) :
    fromWire (.object [("$", .string "o"), ("v", .object out)]) = .ok (.object fields) := by
  simp [fromWire, fromWrapped, List.lookup, hout]

mutual

theorem fromWire_toWire : ∀ v : JsValue, Encodable v → v ≠ .undefined →
    ∃ json, toWire v = .ok (some json) ∧ fromWire json = .ok (readBackDefined v)
  | .undefined, _, hne => absurd rfl hne
  | .null, _, _ => ⟨.null, rfl, rfl⟩
  | .bool b, _, _ => ⟨.bool b, rfl, rfl⟩
  | .string s, _, _ => ⟨.string s, rfl, rfl⟩
  | .number (.finite q), _, _ => ⟨.number q, rfl, rfl⟩
  | .number .negZero, _, _ => ⟨.number 0, rfl, rfl⟩
  | .number (.infinity _), he, _ => by simp [Encodable, JsNumber.isFinite] at he
  | .number .nan, he, _ => by simp [Encodable, JsNumber.isFinite] at he
  | .other _, he, _ => by simp [Encodable] at he
  | .bigint n, _, _ => by
      refine ⟨_, rfl, ?_⟩
      simp [fromWire, List.lookup, toBigInt, parseBigInt_repr, readBackDefined]
  | .bytes b, _, _ => by
      refine ⟨_, rfl, ?_⟩
      simp [fromWire, List.lookup, toBytes, Base64.decode_encode, readBackDefined]
  | .array items, he, _ => by
      obtain ⟨out, hto, hfrom⟩ := fromWireItems_toWireItems items (by simpa [Encodable] using he)
      exact ⟨.array out, by simp [toWire, hto],
        by simp [fromWire, hfrom, readBackDefined]⟩
  | .object fields, he, _ => by
      obtain ⟨out, hto, hfrom, hplain⟩ :=
        fromWireFields_toWireFields fields (by simpa [Encodable] using he)
      cases hdollar : fields.lookup "$" with
      | none =>
        exact ⟨.object out, by simp [toWire, hto, hdollar],
          fromWire_plain (hplain hdollar) hfrom⟩
      | some =>
        exact ⟨.object [("$", .string "o"), ("v", .object out)],
          by simp [toWire, hto, hdollar],
          fromWire_wrapped hfrom⟩

theorem fromWireItems_toWireItems : ∀ items : List JsValue, EncodableItems items →
    ∃ out, toWireItems items = .ok out ∧ fromWireItems out = .ok (readBackItems items)
  | [], _ => ⟨[], rfl, rfl⟩
  | item :: rest, he => by
      obtain ⟨hitem, hrest⟩ : Encodable item ∧ EncodableItems rest := by
        simpa [EncodableItems] using he
      obtain ⟨out, hto, hfrom⟩ := fromWireItems_toWireItems rest hrest
      by_cases hundef : item = .undefined
      · subst hundef
        exact ⟨.null :: out, by simp [toWireItems, toWire, hto],
          by simp [fromWireItems, fromWire, hfrom, readBackItems]⟩
      obtain ⟨json, hitemTo, hitemFrom⟩ := fromWire_toWire item hitem hundef
      refine ⟨json :: out, by simp [toWireItems, hitemTo, hto], ?_⟩
      rw [readBackItems_cons hundef]
      simp [fromWireItems, hitemFrom, hfrom]

theorem fromWireFields_toWireFields : ∀ fields : List (String × JsValue), EncodableFields fields →
    ∃ out, toWireFields fields = .ok out ∧ fromWireFields out = .ok (readBackFields fields) ∧
      (fields.lookup "$" = none → out.lookup "$" = none)
  | [], _ => ⟨[], rfl, rfl, fun _ => rfl⟩
  | (key, value) :: rest, he => by
      obtain ⟨hvalue, hrest⟩ : Encodable value ∧ EncodableFields rest := by
        simpa [EncodableFields] using he
      obtain ⟨out, hto, hfrom, hplain⟩ := fromWireFields_toWireFields rest hrest
      have hlookup : ((key, value) :: rest).lookup "$" = none →
          "$" ≠ key ∧ rest.lookup "$" = none := by
        intro h
        by_cases hkey : "$" = key
        · subst hkey
          simp [List.lookup] at h
        · have hbeq : ("$" == key) = false := by simpa using hkey
          rw [List.lookup_cons, hbeq] at h
          exact ⟨hkey, h⟩
      by_cases hundef : value = .undefined
      · subst hundef
        exact ⟨out, by simp [toWireFields, toWire, hto],
          by simpa [readBackFields] using hfrom, fun h => hplain (hlookup h).2⟩
      obtain ⟨json, hvalueTo, hvalueFrom⟩ := fromWire_toWire value hvalue hundef
      refine ⟨assign key json out, by simp [toWireFields, hvalueTo, hto], ?_, ?_⟩
      · rw [readBackFields_cons hundef]
        exact fromWireFields_assign hvalueFrom hfrom
      · intro h
        rw [lookup_assign_of_ne (hlookup h).1]
        exact hplain (hlookup h).2

end

variable {v : JsValue}

/-- **The wire round trip.**  An encodable value is read back as its normal form, up
to `__proto__` fields. -/
theorem decode_encode (h : Encodable v) :
    ∃ text, encode v = .ok text ∧ decode text = .ok (readBack v) := by
  by_cases hundef : v = .undefined
  · subst hundef
    exact ⟨.null, rfl, rfl⟩
  obtain ⟨json, hto, hfrom⟩ := fromWire_toWire v h hundef
  refine ⟨json, by simp [encode, hto], ?_⟩
  rw [decode, hfrom]
  cases v <;> first | rfl | exact absurd rfl hundef

/-! ## Exactly which values survive -/

theorem length_readBackFields_le (fields : List (String × JsValue)) :
    (readBackFields fields).length ≤ (normalizeFields fields).length := by
  induction fields with
  | nil => exact le_refl _
  | cons field rest ih =>
    obtain ⟨key, value⟩ := field
    by_cases hundef : value = .undefined
    · subst hundef
      simpa [readBackFields, normalizeFields] using ih
    rw [readBackFields_cons hundef, normalizeFields_cons hundef, List.length_cons]
    unfold assign
    split
    · omega
    · rw [List.length_cons]
      omega

mutual

theorem readBackDefined_eq_iff : ∀ v : JsValue,
    readBackDefined v = normalizeDefined v ↔ ProtoFree v
  | .undefined => by simp [readBackDefined, normalizeDefined, ProtoFree]
  | .null => by simp [readBackDefined, normalizeDefined, ProtoFree]
  | .bool _ => by simp [readBackDefined, normalizeDefined, ProtoFree]
  | .number _ => by simp [readBackDefined, normalizeDefined, ProtoFree]
  | .string _ => by simp [readBackDefined, normalizeDefined, ProtoFree]
  | .bigint _ => by simp [readBackDefined, normalizeDefined, ProtoFree]
  | .bytes _ => by simp [readBackDefined, normalizeDefined, ProtoFree]
  | .other _ => by simp [readBackDefined, normalizeDefined, ProtoFree]
  | .array items => by simp [readBackDefined, normalizeDefined, ProtoFree, readBackItems_eq_iff]
  | .object fields => by
      simp [readBackDefined, normalizeDefined, ProtoFree, readBackFields_eq_iff]

theorem readBackItems_eq_iff : ∀ items : List JsValue,
    readBackItems items = normalizeItems items ↔ ProtoFreeItems items
  | [] => by simp [readBackItems, normalizeItems, ProtoFreeItems]
  | item :: rest => by
      by_cases hundef : item = .undefined
      · subst hundef
        simp [readBackItems, normalizeItems, ProtoFreeItems, ProtoFree, readBackItems_eq_iff]
      · simp [readBackItems_cons hundef, normalizeItems_cons hundef, ProtoFreeItems,
          readBackDefined_eq_iff, readBackItems_eq_iff]

theorem readBackFields_eq_iff : ∀ fields : List (String × JsValue),
    readBackFields fields = normalizeFields fields ↔ ProtoFreeFields fields
  | [] => by simp [readBackFields, normalizeFields, ProtoFreeFields]
  | (key, value) :: rest => by
      by_cases hundef : value = .undefined
      · subst hundef
        simp [readBackFields, normalizeFields, ProtoFreeFields, ProtoFree, readBackFields_eq_iff]
      rw [readBackFields_cons hundef, normalizeFields_cons hundef]
      by_cases hkey : key = "__proto__"
      · -- the assignment loses the field, so the read-back list is too short
        have hlt := length_readBackFields_le rest
        simp only [assign, ↓reduceIte, ProtoFreeFields, hkey, hundef, forall_const, false_and,
          iff_false]
        intro heq
        rw [heq, List.length_cons] at hlt
        omega
      · simp [assign, hkey, ProtoFreeFields, readBackDefined_eq_iff, readBackFields_eq_iff]

end

/-- The read-back value is the documented normal form exactly when no object has a
`__proto__` field. -/
theorem readBack_eq_normalize_iff (v : JsValue) : readBack v = normalize v ↔ ProtoFree v := by
  cases v with
  | undefined => simp [readBack, normalize, ProtoFree]
  | _ => exact readBackDefined_eq_iff _

/-- **The round trip**: an encodable value is read back as its normal form exactly when no
object inside it has a `__proto__` field. -/
theorem encode_decode_eq_normalize_iff (v : JsValue) (h : Encodable v) :
    (encode v >>= decode) = .ok (normalize v) ↔ ProtoFree v := by
  obtain ⟨text, hencode, hdecode⟩ := decode_encode h
  rw [hencode, Except.ok_bind, hdecode, Except.ok.injEq, readBack_eq_normalize_iff]

/-- An object that looks like the escape of a bigint survives. -/
theorem encode_decode_dollar :
    (encode (.object [("$", .string "b"), ("v", .bigint 7)]) >>= decode) =
      .ok (.object [("$", .string "b"), ("v", .bigint 7)]) := by
  refine (encode_decode_eq_normalize_iff (.object [("$", .string "b"), ("v", .bigint 7)]) ?_).2 ?_
  · simp [Encodable, EncodableFields]
  · simp [ProtoFree, ProtoFreeFields]

/-- **A lost field**: `{"__proto__": 1}` is read back as `{}`. -/
theorem encode_decode_proto :
    Encodable (.object [("__proto__", .number (.finite 1))]) ∧
      (encode (.object [("__proto__", .number (.finite 1))]) >>= decode) = .ok (.object []) ∧
      normalize (.object [("__proto__", .number (.finite 1))]) ≠ .object [] := by
  refine ⟨?_, rfl, ?_⟩
  · simp [Encodable, EncodableFields, JsNumber.isFinite]
  · simp [normalize, normalizeDefined, normalizeFields]

mutual

theorem encodable_of_toWire : ∀ {v : JsValue} {out : Option Json},
    toWire v = .ok out → Encodable v
  | .undefined, _, _ => trivial
  | .null, _, _ => trivial
  | .bool _, _, _ => trivial
  | .string _, _, _ => trivial
  | .bigint _, _, _ => trivial
  | .bytes _, _, _ => trivial
  | .number (.finite _), _, _ => rfl
  | .number .negZero, _, _ => rfl
  | .number (.infinity _), _, h => by cases h
  | .number .nan, _, h => by cases h
  | .other _, _, h => by cases h
  | .array items, _, h => by
      rw [toWire, Except.bind_eq_ok] at h
      obtain ⟨out, hout, -⟩ := h
      exact encodableItems_of_toWireItems hout
  | .object fields, _, h => by
      rw [toWire, Except.bind_eq_ok] at h
      obtain ⟨out, hout, -⟩ := h
      exact encodableFields_of_toWireFields hout

theorem encodableItems_of_toWireItems : ∀ {items : List JsValue} {out : List Json},
    toWireItems items = .ok out → EncodableItems items
  | [], _, _ => trivial
  | item :: rest, _, h => by
      simp only [toWireItems, Except.bind_eq_ok] at h
      obtain ⟨encoded, hitem, out, hrest, -⟩ := h
      exact ⟨encodable_of_toWire hitem, encodableItems_of_toWireItems hrest⟩

theorem encodableFields_of_toWireFields : ∀ {fields : List (String × JsValue)}
    {out : List (String × Json)}, toWireFields fields = .ok out → EncodableFields fields
  | [], _, _ => trivial
  | (key, value) :: rest, _, h => by
      simp only [toWireFields, Except.bind_eq_ok] at h
      obtain ⟨encoded, hvalue, out, hrest, -⟩ := h
      exact ⟨encodable_of_toWire hvalue, encodableFields_of_toWireFields hrest⟩

end

/-- A value has an encoding exactly when it holds no non-finite number, function or
symbol. -/
theorem encode_eq_ok_iff (v : JsValue) : (∃ text, encode v = .ok text) ↔ Encodable v := by
  constructor
  · rintro ⟨text, h⟩
    rw [encode, Except.bind_eq_ok] at h
    obtain ⟨out, hout, -⟩ := h
    exact encodable_of_toWire hout
  · intro h
    obtain ⟨text, htext, -⟩ := decode_encode h
    exact ⟨text, htext⟩

/-! ## Reading back twice -/

variable {value : JsValue}

theorem readBackDefined_ne_undefined (h : value ≠ .undefined) :
    readBackDefined value ≠ .undefined := by
  cases value <;> simp_all [readBackDefined]

theorem readBackFields_assign {key : String} (h : value ≠ .undefined)
    (out : List (String × JsValue)) :
    readBackFields (assign key value out) =
      assign key (readBackDefined value) (readBackFields out) := by
  unfold assign
  split
  · rfl
  · rename_i hkey
    rw [readBackFields_cons h, assign, if_neg hkey]

mutual

theorem readBackDefined_idem : ∀ v : JsValue,
    readBackDefined (readBackDefined v) = readBackDefined v
  | .undefined | .null | .bool _ | .string _ | .bigint _ | .bytes _ | .other _ => rfl
  | .number n => by cases n <;> rfl
  | .array items => congrArg JsValue.array (readBackItems_idem items)
  | .object fields => congrArg JsValue.object (readBackFields_idem fields)

theorem readBackItems_idem : ∀ items : List JsValue,
    readBackItems (readBackItems items) = readBackItems items
  | [] => rfl
  | item :: rest => by
      by_cases hundef : item = .undefined
      · subst hundef
        rw [readBackItems, readBackItems_cons (by simp), readBackItems_idem rest]
        rfl
      · rw [readBackItems_cons hundef, readBackItems_cons (readBackDefined_ne_undefined hundef),
          readBackDefined_idem item, readBackItems_idem rest]

theorem readBackFields_idem : ∀ fields : List (String × JsValue),
    readBackFields (readBackFields fields) = readBackFields fields
  | [] => rfl
  | (key, value) :: rest => by
      by_cases hundef : value = .undefined
      · subst hundef
        exact readBackFields_idem rest
      · rw [readBackFields_cons hundef, readBackFields_assign (readBackDefined_ne_undefined hundef),
          readBackDefined_idem value, readBackFields_idem rest]

end

theorem readBack_of_defined (h : value ≠ .undefined) :
    readBack value = readBackDefined value := by
  cases value <;> first | rfl | exact absurd rfl h

/-- **What was read back is read back unchanged.** -/
theorem readBack_idem (v : JsValue) : readBack (readBack v) = readBack v := by
  by_cases hundef : v = .undefined
  · subst hundef
    rfl
  · rw [readBack_of_defined hundef, readBack_of_defined (readBackDefined_ne_undefined hundef),
      readBackDefined_idem]

mutual

theorem encodable_readBackDefined : ∀ v : JsValue, Encodable v → Encodable (readBackDefined v)
  | .undefined, h | .null, h | .bool _, h | .string _, h | .bigint _, h | .bytes _, h
  | .other _, h => h
  | .number n, h => by cases n <;> exact h
  | .array items, h => encodableItems_readBackItems items h
  | .object fields, h => encodableFields_readBackFields fields h

theorem encodableItems_readBackItems : ∀ items : List JsValue, EncodableItems items →
    EncodableItems (readBackItems items)
  | [], _ => trivial
  | item :: rest, h => by
      have hrest := encodableItems_readBackItems rest h.2
      by_cases hundef : item = .undefined
      · subst hundef
        exact ⟨trivial, hrest⟩
      · rw [readBackItems_cons hundef]
        exact ⟨encodable_readBackDefined item h.1, hrest⟩

theorem encodableFields_readBackFields : ∀ fields : List (String × JsValue),
    EncodableFields fields → EncodableFields (readBackFields fields)
  | [], _ => trivial
  | (key, value) :: rest, h => by
      have hrest := encodableFields_readBackFields rest h.2
      by_cases hundef : value = .undefined
      · subst hundef
        exact hrest
      rw [readBackFields_cons hundef, assign]
      split
      · exact hrest
      · exact ⟨encodable_readBackDefined value h.1, hrest⟩

end

theorem encodable_readBack (h : Encodable v) : Encodable (readBack v) := by
  cases v with
  | undefined => trivial
  | _ => exact encodable_readBackDefined _ h

/-! ## The plain form -/

mutual

/-- `toStandardJson`; `none` is the JavaScript `undefined`. -/
def toStandardJson : JsValue → Except JsError (Option Json)
  | .bigint n => .ok (some (.string n.repr))
  | .number (.finite q) => .ok (some (.number q))
  | .number .negZero => .ok (some (.number 0))
  | .number n => .error (.wireError ("cannot encode non-finite number " ++ n.nonFiniteText))
  | .string s => .ok (some (.string s))
  | .bool b => .ok (some (.bool b))
  | .undefined => .ok none
  | .other kind => .error (.wireError ("cannot encode value of type " ++ kind))
  | .null => .ok (some .null)
  | .bytes b => .ok (some (.string (String.ofList (Base64.encode b))))
  | .array items => do
      let out ← toStandardJsonItems items
      return some (.array out)
  | .object source => do
      let out ← toStandardJsonFields source
      return some (.object out)

/-- The items of an array; an `undefined` item becomes `null`. -/
def toStandardJsonItems : List JsValue → Except JsError (List Json)
  | [] => .ok []
  | item :: rest => do
      let encoded ← toStandardJson item
      let out ← toStandardJsonItems rest
      return encoded.getD .null :: out

/-- The own fields of an object; a field without an encoding is dropped. -/
def toStandardJsonFields : List (String × JsValue) → Except JsError (List (String × Json))
  | [] => .ok []
  | (key, value) :: rest => do
      let encoded ← toStandardJson value
      let out ← toStandardJsonFields rest
      return match encoded with
        | none => out
        | some json => assign key json out

end

mutual

theorem toStandardJson_normalizeDefined : ∀ v : JsValue,
    toStandardJson (normalizeDefined v) = toStandardJson v
  | .undefined | .null | .bool _ | .string _ | .bigint _ | .bytes _ | .other _ => rfl
  | .number n => by cases n <;> rfl
  | .array items => by
      simp only [normalizeDefined, toStandardJson, toStandardJsonItems_normalizeItems items]
  | .object fields => by
      simp only [normalizeDefined, toStandardJson, toStandardJsonFields_normalizeFields fields]

theorem toStandardJsonItems_normalizeItems : ∀ items : List JsValue,
    toStandardJsonItems (normalizeItems items) = toStandardJsonItems items
  | [] => rfl
  | item :: rest => by
      have hrest := toStandardJsonItems_normalizeItems rest
      by_cases hundef : item = .undefined
      · subst hundef
        simp only [normalizeItems, toStandardJsonItems, toStandardJson, hrest]
        rfl
      · rw [normalizeItems_cons hundef]
        simp only [toStandardJsonItems, toStandardJson_normalizeDefined item, hrest]

theorem toStandardJsonFields_normalizeFields : ∀ fields : List (String × JsValue),
    toStandardJsonFields (normalizeFields fields) = toStandardJsonFields fields
  | [] => rfl
  | (key, value) :: rest => by
      have hrest := toStandardJsonFields_normalizeFields rest
      by_cases hundef : value = .undefined
      · subst hundef
        simp only [normalizeFields, toStandardJsonFields, toStandardJson, hrest, Except.ok_bind]
        cases toStandardJsonFields rest <;> rfl
      · rw [normalizeFields_cons hundef]
        simp only [toStandardJsonFields, toStandardJson_normalizeDefined value, hrest]

end

/-- **The plain form is that of the normal form.** -/
theorem toStandardJson_normalize (h : v ≠ .undefined) :
    toStandardJson (normalize v) = toStandardJson v := by
  cases v with
  | undefined => exact absurd rfl h
  | _ => exact toStandardJson_normalizeDefined _

end Wire

end AckerDB
