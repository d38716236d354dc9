import AckerDB.Core.Frames
import AckerDB.Runtime.Coordinator

/-!
# The answer to a call

The outcome of a handler becomes a frame on a session, a response over HTTP and, for
an idempotent mutation, a record from which a later call is answered.

A record and a frame lose what the wire cannot carry: a `value` or a `body` that is
`undefined` is not there at all, and then the record is no result and the frame does
not parse.

* `restoreMutationResult` — the result inside of a record;
* `mutationFrame`, `answerFrame` — the frames of an answer;
* `respond` — the answer over HTTP;
* `answers_reach_iff` — the outcomes that reach the caller, executed and replayed.
-/

namespace AckerDB

open Protocol Wire JsValue List

/-- The own fields of the object a `Result` is. -/
def Result.toJs : Result → JsValue
  | .ok data => .object [("ok", .bool true), ("data", data)]
  | .err error => .object [("ok", .bool false), ("error", error.toJs)]

/-- An outcome up to the normalisation of the wire. -/
def Result.normalized : Result → Result
  | .ok data => .ok (normalize data)
  | .err error => .err { error with body := normalize error.body }

namespace Answers

/-- `restoreMutationResult`, of a value that was decoded. -/
def restoreMutationResult (value : JsValue) : Except Thrown Result :=
  match value with
  | .object fields =>
    match fields.lookup "ok" with
    | none => .error noShapeError
    | some (.bool true) =>
      match fields.lookup "data" with
      | some data => .ok (.ok data)
      | none => .error invalidError
    | some (.bool false) =>
      match (fields.lookup "error").bind isApplicationError with
      | some error => .ok (.err error)
      | none => .error invalidError
    | some _ => .error invalidError
  | _ => .error noShapeError

/-! ## Frames -/

/-- The id of a request, as `protocolId` lets it through. -/
abbrev RequestId := { id : Nat // 1 ≤ id ∧ id ≤ maxProtocolId }

/-- `MutationReceipt`. -/
structure MutationReceipt where
  mutationRequestId : String
  commitVersion : Nat
  durability : DurabilityPolicy
  replayed : Bool
  obligations : List RequestId
  isUuidV7 : Protocol.isUuidV7 mutationRequestId = true
  unique : obligations.Nodup
  bounded : obligations.length ≤ maxReceiptObligations

/-- The policy as it is spelled on the wire. -/
def durabilityText : DurabilityPolicy → String
  | .production => "production"
  | .balanced => "balanced"

/-- The object a receipt is. -/
def MutationReceipt.toJs (receipt : MutationReceipt) : JsValue :=
  .object [("mutationRequestId", .string receipt.mutationRequestId),
    ("commitVersion", .bigint receipt.commitVersion),
    ("durability", .string (durabilityText receipt.durability)),
    ("replay", .string (if receipt.replayed then "replayed" else "executed")),
    ("obligations", .array (receipt.obligations.map fun id => .ofNat id.1))]

/-- The kinds of calls that are answered without a receipt. -/
inductive AnswerKind where
  | query | procedure
  deriving DecidableEq

/-- The kind as it is spelled on the wire. -/
def AnswerKind.text : AnswerKind → String
  | query => "query"
  | procedure => "procedure"

/-- The frames of `query` and `procedure`. -/
def answerFrame (kind : AnswerKind) (id : RequestId) : Result → JsValue
  | .ok data => .object [("t", .string "ok"), ("id", .ofNat id.1), ("kind", .string kind.text),
      ("value", data)]
  | .err error => .object [("t", .string "app_err"), ("id", .ofNat id.1),
      ("kind", .string kind.text), ("error", error.toJs)]

/-- `mutationFrame`. -/
def mutationFrame (id : RequestId) (receipt : MutationReceipt) : Result → JsValue
  | .ok data => .object [("t", .string "ok"), ("id", .ofNat id.1), ("kind", .string "mutation"),
      ("value", data), ("receipt", receipt.toJs)]
  | .err error => .object [("t", .string "app_err"), ("id", .ofNat id.1),
      ("kind", .string "mutation"), ("error", error.toJs), ("receipt", receipt.toJs)]

/-- What a client reads in an answer. -/
def carried (message : JsValue) : Option Result :=
  match message with
  | .object fields =>
    if get fields "t" = .string "ok" then some (.ok (get fields "value"))
    else (isApplicationError (get fields "error")).map .err
  | _ => none

/-- The frame is encoded, its text is decoded and parsed, and it carries the outcome. -/
def Reaches (frame : JsValue) (result : Result) : Prop :=
  ∃ text message, encode frame = .ok text ∧ decode text = .ok message ∧
    parseServerMessage message = .ok () ∧ carried message = some result.normalized

/-! ## What a frame carries -/

/-- What is read back of an outcome. -/
def readBackResult : Result → Result
  | .ok data => .ok (readBack data)
  | .err error => .err { error with body := readBack error.body }

/-- The outcomes whose frames parse. -/
def Answerable : Result → Prop
  | .ok data => data ≠ .undefined
  | .err error => LegalError error

theorem isApplicationError_readBack {error : ApplicationError} (hbody : error.body ≠ .undefined) :
    isApplicationError (readBackDefined error.toJs) =
      some { error with body := readBack error.body } := by
  have hstatus := error.status.2
  rw [readBackDefined_error hbody, readBack_of_defined hbody]
  simp [isApplicationError, lookup, hstatus]

theorem readBackItems_ids (ids : List RequestId) :
    readBackItems (ids.map fun id => ofNat id.1) = ids.map fun id => .ofNat id.1 := by
  induction ids with
  | nil => rfl
  | cons id rest ih =>
    rw [map_cons, readBackItems_cons (by simp [ofNat]), ih]
    rfl

theorem encodableItems_ids (ids : List RequestId) :
    EncodableItems (ids.map fun id => ofNat id.1) := by
  induction ids with
  | nil => trivial
  | cons id rest ih => exact ⟨rfl, ih⟩

theorem encodable_receipt (receipt : MutationReceipt) : Wire.Encodable receipt.toJs := by
  have hids := encodableItems_ids receipt.obligations
  exact ⟨trivial, trivial, trivial, trivial, hids, trivial⟩

@[simp] theorem readBackDefined_receipt (receipt : MutationReceipt) :
    readBackDefined receipt.toJs = receipt.toJs := by
  have hids := readBackItems_ids receipt.obligations
  simp only [MutationReceipt.toJs, readBackDefined, readBackFields, hids]
  rfl

@[simp] theorem receipt_ne_undefined (receipt : MutationReceipt) : receipt.toJs ≠ .undefined := by
  simp [MutationReceipt.toJs]

theorem parseObligations_ids (ids : List RequestId) (seen : List Nat)
    (hnew : ∀ id ∈ ids, id.1 ∉ seen) (hunique : ids.Nodup) :
    parseObligations (ids.map fun id => ofNat id.1) seen = .ok () := by
  induction ids generalizing seen with
  | nil => rfl
  | cons id rest ih =>
    rw [nodup_cons] at hunique
    have hrest := ih (seen ++ [id.1]) (by
      intro other hother
      rw [mem_append, mem_singleton, not_or]
      refine ⟨hnew other (mem_cons_of_mem _ hother), ?_⟩
      intro heq
      exact hunique.1 (Subtype.ext heq ▸ hother)) hunique.2
    have hid : protocolId (.ofNat id.1) "obligation" = .ok id.1 :=
      protocolId_ofNat.2 ⟨id.2, rfl⟩
    have hfresh : require (id.1 ∉ seen) "obligations must be unique" = .ok () :=
      require_eq_ok.2 (hnew id mem_cons_self)
    rw [map_cons, parseObligations, hid, Except.ok_bind, hfresh]
    exact hrest

theorem toNat_lt_of_fitsShape {place c : Char} (h : fitsShape place c = true)
    (hplace : place.toNat < 128) : c.toNat < 0x10000 := by
  unfold fitsShape at h
  split at h
  · unfold hexDigit? at h
    split at h
    · rename_i hdigit
      have hle := hdigit.2
      exact lt_of_le_of_lt hle (by decide)
    split at h
    · rename_i hdigit
      have hle := hdigit.2
      exact lt_of_le_of_lt hle (by decide)
    split at h
    · rename_i hdigit
      have hle := hdigit.2
      exact lt_of_le_of_lt hle (by decide)
    · cases h
  split at h
  · have hmem := of_decide_eq_true h
    simp only [mem_cons, not_mem_nil, or_false] at hmem
    rcases hmem with rfl | rfl | rfl | rfl | rfl | rfl <;> decide
  · rw [of_decide_eq_true h]
    omega

theorem foldl_units {chars : List Char} (h : ∀ c ∈ chars, c.toNat < 0x10000) (n : Nat) :
    chars.foldl (fun n c => n + if c.toNat < 0x10000 then 1 else 2) n = n + chars.length := by
  induction chars generalizing n with
  | nil => rfl
  | cons c rest ih =>
    rw [foldl_cons, if_pos (h c mem_cons_self),
      ih fun d hd => h d (mem_cons_of_mem _ hd), length_cons]
    omega

/-- A UUID has 36 code units. -/
theorem jsLength_of_isUuidV7 {text : String} (h : isUuidV7 text = true) : jsLength text = 36 := by
  rw [isUuidV7, Bool.and_eq_true, decide_eq_true_iff, all_eq_true] at h
  obtain ⟨hlength, hfits⟩ := h
  have hunits : ∀ c ∈ text.toList, c.toNat < 0x10000 := by
    intro c hc
    obtain ⟨i, hi, rfl⟩ := getElem_of_mem hc
    have hshape := hlength ▸ hi
    have hmem : (uuidV7Shape[i], text.toList[i]) ∈ uuidV7Shape.zip text.toList := by
      rw [mem_iff_getElem]
      exact ⟨i, by rw [length_zip]; omega, getElem_zip⟩
    have hplaces : uuidV7Shape.all (fun place => place.toNat < 128) = true := by decide
    have hplace := all_eq_true.1 hplaces _ (getElem_mem hshape)
    exact toNat_lt_of_fitsShape (hfits _ hmem) (of_decide_eq_true hplace)
  rw [jsLength, foldl_units hunits, hlength]
  rfl

theorem durabilityText_mem (durability : DurabilityPolicy) :
    durabilityText durability ∈ durabilityPolicies := by
  cases durability <;> decide

/-- Every receipt parses. -/
theorem parseMutationReceipt_toJs (receipt : MutationReceipt) :
    parseMutationReceipt receipt.toJs = .ok () := by
  have hid : boundedString (.string receipt.mutationRequestId) "mutationRequestId" 36 =
      .ok receipt.mutationRequestId := by
    rw [boundedString_eq_ok, jsLength_of_isUuidV7 receipt.isUuidV7]
    exact ⟨rfl, by decide, le_refl _⟩
  have hversion : nonNegativeBigint (.bigint receipt.commitVersion) "receipt commitVersion" =
      .ok receipt.commitVersion := nonNegativeBigint_natCast.2 rfl
  have hpolicy : enumValue (.string (durabilityText receipt.durability)) "durability policy"
      durabilityPolicies = .ok (durabilityText receipt.durability) :=
    enumValue_eq_ok.2 ⟨rfl, durabilityText_mem _⟩
  have hobligations := parseObligations_ids receipt.obligations [] (by simp) receipt.unique
  have hreplay : (string (if receipt.replayed then "replayed" else "executed") =
      .string "executed" ∨ string (if receipt.replayed then "replayed" else "executed") =
      .string "replayed") := by
    cases receipt.replayed <;> simp
  have hbounded : (receipt.obligations.map fun id => ofNat id.1).length ≤
      maxReceiptObligations := by
    rw [length_map]
    exact receipt.bounded
  rw [parseMutationReceipt, MutationReceipt.toJs]
  simp only [Except.bind_eq_ok, exactFields_eq_ok, require_eq_ok]
  refine ⟨_, rfl, (), ⟨?_, ?_⟩, _, hid, (), receipt.isUuidV7, _, hversion, _, hpolicy, (), hreplay,
    ?_⟩
  · simp [lookup]
  · simp
  · show (require _ _ >>= fun _ => parseObligations _ []) = .ok ()
    rw [Except.bind_eq_ok]
    exact ⟨(), require_eq_ok.2 hbounded, hobligations⟩

theorem reaches_iff (frame : JsValue) (target : Result) :
    Reaches frame target ↔ Accepted frame ∧ carried (readBack frame) = some target.normalized := by
  constructor
  · rintro ⟨text, message, hencode, hdecode, hparse, hcarried⟩
    obtain ⟨text', hencode', hdecode'⟩ := decode_encode ((encode_eq_ok_iff frame).1 ⟨text, hencode⟩)
    rw [hencode, Except.ok.injEq] at hencode'
    rw [← hencode', hdecode, Except.ok.injEq] at hdecode'
    exact ⟨⟨text, message, hencode, hdecode, hparse⟩, hdecode' ▸ hcarried⟩
  rintro ⟨haccepted, hcarried⟩
  obtain ⟨hencodable, hparse⟩ := (accepted_iff frame).1 haccepted
  obtain ⟨text, hencode, hdecode⟩ := decode_encode hencodable
  exact ⟨text, _, hencode, hdecode, hparse, hcarried⟩

/-- The fields of an answer: `answer` names the field of the outcome. -/
def answerFields (id : RequestId) (t kind answer : String) (value : JsValue)
    (receipt : List (String × JsValue)) : JsValue :=
  .object (("t", .string t) :: ("id", .ofNat id.1) :: ("kind", .string kind) :: (answer, value) ::
    receipt)

variable {receipt : List (String × JsValue)} {kind : String} {id : RequestId} {value : JsValue}

theorem encodable_answerFields {t answer : String} (hreceipt : EncodableFields receipt) :
    Wire.Encodable (answerFields id t kind answer value receipt) ↔ Wire.Encodable value := by
  simp [answerFields, Wire.Encodable, EncodableFields, ofNat, JsNumber.isFinite, hreceipt]

theorem readBack_answerFields {t answer : String} (hanswer : answer ≠ "__proto__")
    (hvalue : value ≠ .undefined) (hreceipt : readBackFields receipt = receipt) :
    readBack (answerFields id t kind answer value receipt) =
      answerFields id t kind answer (readBackDefined value) receipt := by
  simp [readBack, answerFields, readBackDefined, readBackFields, readBackFields_cons hvalue,
    assign, ofNat, JsNumber.zeroed, hanswer, hreceipt]

theorem readBack_answerFields_undefined {t answer : String}
    (hreceipt : readBackFields receipt = receipt) :
    readBack (answerFields id t kind answer .undefined receipt) =
      .object (("t", .string t) :: ("id", .ofNat id.1) :: ("kind", .string kind) :: receipt) := by
  simp [readBack, answerFields, readBackDefined, readBackFields, assign, ofNat,
    JsNumber.zeroed, hreceipt]

/-- The kinds of answers with what they carry beside the outcome. -/
inductive Receipted : String → List (String × JsValue) → Prop where
  | query : Receipted "query" []
  | procedure : Receipted "procedure" []
  | mutation (receipt : MutationReceipt) : Receipted "mutation" [("receipt", receipt.toJs)]

section

variable (h : Receipted kind receipt)
include h

theorem Receipted.readBackFields_eq :
    readBackFields receipt = receipt := by
  cases h with
  | query | procedure => rfl
  | mutation => simp [readBackFields_cons, readBackFields, assign]

theorem Receipted.encodableFields : EncodableFields receipt := by
  cases h with
  | query | procedure => trivial
  | mutation receipt => exact ⟨encodable_receipt receipt, trivial⟩

theorem Receipted.parseAnswer_eq_ok (id : RequestId) (t answer : String) (value : JsValue)
    (unknown : String) (hanswer : answer = "value" ∨ answer = "error") :
    parseAnswer (("t", .string t) :: ("id", .ofNat id.1) :: ("kind", .string kind) ::
      (answer, value) :: receipt) answer unknown = .ok () := by
  cases h with
  | query | procedure => rcases hanswer with rfl | rfl <;> simp [parseAnswer, JsValue.get, lookup]
  | mutation =>
    rcases hanswer with rfl | rfl <;>
      simp [parseAnswer, JsValue.get, lookup, parseMutationReceipt_toJs,
        Except.bind_eq_ok]

theorem Receipted.parseAnswer_missing (id : RequestId) (t answer : String) (unknown : String)
    (hanswer : answer = "value" ∨ answer = "error") :
    parseAnswer (("t", .string t) :: ("id", .ofNat id.1) :: ("kind", .string kind) :: receipt)
      answer unknown ≠ .ok () := by
  cases h with
  | query | procedure => rcases hanswer with rfl | rfl <;> simp [parseAnswer, JsValue.get, lookup]
  | mutation =>
    rcases hanswer with rfl | rfl <;>
      simp [parseAnswer, JsValue.get, lookup, Except.bind_eq_ok]

end

section Frames

variable {kind : String} {receipt : List (String × JsValue)}

section

variable (h : Receipted kind receipt)
include h

theorem accepted_ok_iff (id : RequestId) (data : JsValue) :
    Accepted (answerFields id "ok" kind "value" data receipt) ↔
      Wire.Encodable data ∧ data ≠ .undefined := by
  rw [accepted_iff, encodable_answerFields h.encodableFields]
  refine and_congr_right fun _ => ?_
  by_cases hdata : data = .undefined
  · subst hdata
    have hmissing := h.parseAnswer_missing id "ok" "value" "unknown ok frame kind" (.inl rfl)
    rw [readBack_answerFields_undefined h.readBackFields_eq]
    simp [parseServerMessage, frame, protocolObject, JsValue.get, lookup, Except.bind_eq_ok,
      hmissing]
  have hparse := h.parseAnswer_eq_ok id "ok" "value" (readBackDefined data)
    "unknown ok frame kind" (.inl rfl)
  have hid := id.2
  rw [readBack_answerFields (by decide) hdata h.readBackFields_eq]
  simp [answerFields, parseServerMessage, frame, protocolObject, JsValue.get, lookup,
    Except.bind_eq_ok, hparse, hid, hdata, readBackDefined_ne_undefined hdata]

theorem accepted_err_iff (id : RequestId) (error : ApplicationError) :
    Accepted (answerFields id "app_err" kind "error" error.toJs receipt) ↔
      Wire.Encodable error.toJs ∧ LegalError error := by
  rw [accepted_iff, encodable_answerFields h.encodableFields]
  refine and_congr_right fun _ => ?_
  have hparse := h.parseAnswer_eq_ok id "app_err" "error" (readBackDefined error.toJs)
    "unknown application-error frame kind" (.inr rfl)
  have hid := id.2
  rw [readBack_answerFields (by decide) (applicationError_ne_undefined error) h.readBackFields_eq]
  simp [answerFields, parseServerMessage, frame, protocolObject, JsValue.get, lookup,
    Except.bind_eq_ok, hparse, hid, parseApplicationError_readBack]

theorem reaches_ok_iff (id : RequestId) (data : JsValue) (target : Result) :
    Reaches (answerFields id "ok" kind "value" data receipt) target ↔
      (Wire.Encodable data ∧ data ≠ .undefined) ∧ .ok (readBack data) = target.normalized := by
  rw [reaches_iff, accepted_ok_iff h]
  refine and_congr_right fun haccepted => ?_
  rw [readBack_answerFields (by decide) haccepted.2 h.readBackFields_eq,
    ← readBack_of_defined haccepted.2]
  simp [carried, answerFields, JsValue.get, lookup]

theorem reaches_err_iff (id : RequestId) (error : ApplicationError) (target : Result) :
    Reaches (answerFields id "app_err" kind "error" error.toJs receipt) target ↔
      (Wire.Encodable error.toJs ∧ LegalError error) ∧
        .err { error with body := readBack error.body } = target.normalized := by
  rw [reaches_iff, accepted_err_iff h]
  refine and_congr_right fun haccepted => ?_
  rw [readBack_answerFields (by decide) (applicationError_ne_undefined error) h.readBackFields_eq]
  simp [carried, answerFields, JsValue.get, lookup,
    isApplicationError_readBack haccepted.2.body]

end

end Frames

theorem encodable_toJs_iff (result : Result) :
    Wire.Encodable result.toJs ↔ match result with
      | .ok data => Wire.Encodable data
      | .err error => Wire.Encodable error.toJs := by
  cases result <;> simp [Result.toJs, Wire.Encodable, EncodableFields]

/-- **What a frame says**: any of the three kinds of answers reaches the caller when the outcome
can be encoded, the frame parses and what is read back is the outcome. -/
theorem reaches_answerFrame_iff (kind : AnswerKind) (id : RequestId) (result target : Result) :
    Reaches (answerFrame kind id result) target ↔
      Wire.Encodable result.toJs ∧ Answerable result ∧
        readBackResult result = target.normalized := by
  have hkind : Receipted kind.text [] := by
    cases kind with
    | query => exact .query
    | procedure => exact .procedure
  rw [encodable_toJs_iff, ← and_assoc]
  cases result with
  | ok data => exact reaches_ok_iff hkind id data target
  | err error => exact reaches_err_iff hkind id error target

theorem reaches_mutationFrame_iff (id : RequestId) (receipt : MutationReceipt)
    (result target : Result) :
    Reaches (mutationFrame id receipt result) target ↔
      Wire.Encodable result.toJs ∧ Answerable result ∧
        readBackResult result = target.normalized := by
  rw [encodable_toJs_iff, ← and_assoc]
  cases result with
  | ok data => exact reaches_ok_iff (.mutation receipt) id data target
  | err error => exact reaches_err_iff (.mutation receipt) id error target

/-! ## HTTP -/

/-- `ExposedHttpCodec`: how values and the bodies of errors cross.  What a compiled contract makes
of a value it takes, it makes of its normal form. -/
structure ExposedHttpCodec where
  encodeValue : JsValue → Except JsError (Option Json)
  encodeBody : String → JsValue → Except JsError (Option Json)
  value_normalize : ∀ {value : JsValue} {json : Option Json}, value ≠ .undefined →
    encodeValue value = .ok json → encodeValue (normalize value) = .ok json
  body_normalize : ∀ {code : String} {body : JsValue} {json : Option Json}, body ≠ .undefined →
    encodeBody code body = .ok json → encodeBody code (normalize body) = .ok json

/-- The codec of a function that declares neither `returns` nor `errors`. -/
def structuralCodec : ExposedHttpCodec where
  encodeValue := toStandardJson
  encodeBody := fun _ => toStandardJson
  value_normalize := by
    intro value json hdefined hjson
    rw [toStandardJson_normalize hdefined, hjson]
  body_normalize := by
    intro code body json hdefined hjson
    rw [toStandardJson_normalize hdefined, hjson]

/-- The status and the text of `respond`, for an outcome that is a result. -/
def respond (codec : ExposedHttpCodec) : Result → Except JsError (Nat × Json)
  | .ok data => do
      let json ← codec.encodeValue data
      return (200, json.getD .null)
  | .err error => do
      let body ← codec.encodeBody error.code error.body
      return (error.status.1, .object ([("kind", .string "application"),
        ("code", .string error.code)] ++ (body.map fun json => ("body", json)).toList ++
        [("status", .number error.status.1)]))

/-! ## Answers from a record -/

/-- The record holds the outcome as replayable. -/
def Records (row : StoredMutation) (result : Result) : Prop :=
  ∃ limits request identity text resultBytes,
    request.oneTime = false ∧ request.value = result.toJs ∧
    Coordinator.recordedResult limits request = .ok (some text, resultBytes) ∧
    row.toNewStoredMutation =
      Coordinator.newRecord limits request identity (some text) resultBytes

/-- The call of the identity of a record. -/
def Identifies (identity : Coordinator.IdempotencyIdentity) (row : StoredMutation) : Prop :=
  row.sessionId = identity.sessionId ∧ row.requestId = identity.requestId ∧
    Coordinator.sameIdentity row identity = true

/-- What a call is answered with from a record. -/
def replayedResult (identity : Coordinator.IdempotencyIdentity) (row : StoredMutation) :
    Except Thrown Result := do
  let committed ← Coordinator.replay identity row
  restoreMutationResult committed.value

/-- Every answer reaches its caller, executed or replayed. -/
structure AnswersReach (codec : ExposedHttpCodec) (result : Result) : Prop where
  answered : ∀ kind id, Reaches (answerFrame kind id result) result
  executed : ∀ id receipt, Reaches (mutationFrame id receipt result) result
  replayed : ∀ row identity, Records row result → Identifies identity row →
    ∃ restored, replayedResult identity row = .ok restored ∧
      (∀ id receipt, Reaches (mutationFrame id receipt restored) result) ∧
      ∀ answer, respond codec result = .ok answer → respond codec restored = .ok answer

/-- The outcomes that survive both encodings: what they carry is encodable, defined, without a
`__proto__` field, and an error has a code within bounds. -/
def Deliverable (result : Result) : Prop :=
  Wire.Encodable result.toJs ∧ Answerable result ∧
    match result with
    | .ok data => ProtoFree data
    | .err error => ProtoFree error.body

theorem readBackResult_eq_normalized_iff (result : Result) :
    readBackResult result = result.normalized ↔ match result with
      | .ok data => ProtoFree data
      | .err error => ProtoFree error.body := by
  cases result with
  | ok => simp [readBackResult, Result.normalized, readBack_eq_normalize_iff]
  | err =>
    simp [readBackResult, Result.normalized, readBack_eq_normalize_iff]

section Restored

variable {result : Result} (hanswerable : Answerable result)
include hanswerable

/-- A record of the outcome is read as the outcome without what the wire loses. -/
theorem restoreMutationResult_readBack :
    restoreMutationResult (readBack result.toJs) = .ok (readBackResult result) := by
  cases result with
  | ok data =>
    have hread : readBack (Result.ok data).toJs =
        .object [("ok", .bool true), ("data", readBackDefined data)] := by
      simp [readBack, Result.toJs, readBackDefined, readBackFields,
        readBackFields_cons hanswerable, assign]
    rw [hread, readBackResult, readBack_of_defined hanswerable]
    rfl
  | err error =>
    have hread : readBack (Result.err error).toJs =
        .object [("ok", .bool false), ("error", readBackDefined error.toJs)] := by
      simp [readBack, Result.toJs, readBackDefined, readBackFields,
        readBackFields_cons (applicationError_ne_undefined error), assign]
    rw [hread]
    simp [restoreMutationResult, lookup, isApplicationError_readBack hanswerable.body,
      readBackResult]

theorem answerable_readBackResult : Answerable (readBackResult result) := by
  cases result with
  | ok data =>
    show readBack data ≠ .undefined
    rw [readBack_of_defined hanswerable]
    exact readBackDefined_ne_undefined hanswerable
  | err error =>
    refine ⟨hanswerable.code, ?_⟩
    rw [readBack_of_defined hanswerable.body]
    exact readBackDefined_ne_undefined hanswerable.body

/-- What the normal form is answered with over HTTP. -/
theorem respond_normalized {codec : ExposedHttpCodec} {answer : Nat × Json}
    (hanswer : respond codec result = .ok answer) :
    respond codec result.normalized = .ok answer := by
  cases result with
  | ok =>
    rw [respond, Except.bind_eq_ok] at hanswer
    obtain ⟨json, hjson, hreturn⟩ := hanswer
    rw [Result.normalized, respond, codec.value_normalize hanswerable hjson]
    exact hreturn
  | err =>
    rw [respond, Except.bind_eq_ok] at hanswer
    obtain ⟨body, hbody, hreturn⟩ := hanswer
    rw [Result.normalized, respond, codec.body_normalize hanswerable.body hbody]
    exact hreturn

end Restored

theorem readBackResult_idem (result : Result) :
    readBackResult (readBackResult result) = readBackResult result := by
  cases result <;> simp [readBackResult, readBack_idem]

theorem encodable_readBackResult {result : Result} (h : Wire.Encodable result.toJs) :
    Wire.Encodable (readBackResult result).toJs := by
  cases result with
  | ok =>
    obtain ⟨-, hdata, -⟩ := h
    exact ⟨trivial, encodable_readBack hdata, trivial⟩
  | err =>
    obtain ⟨-, ⟨hkind, hcode, hbody, hstatus⟩, -⟩ := h
    exact ⟨trivial, ⟨hkind, hcode, encodable_readBack hbody, hstatus⟩, trivial⟩

/-- The result of a record: what is read back of the outcome. -/
theorem replayedResult_of_records {row : StoredMutation} {result : Result}
    {identity : Coordinator.IdempotencyIdentity} (hanswerable : Answerable result)
    (hrecords : Records row result) (hidentifies : Identifies identity row) :
    replayedResult identity row = .ok (readBackResult result) := by
  obtain ⟨limits, request, recorded, text, resultBytes, honce, hvalue, htext, hrow⟩ := hrecords
  have hdisposition : row.resultDisposition = .replayable := by
    rw [hrow, Coordinator.newRecord, honce]
    rfl
  have hresult : row.result = some text := by rw [hrow, Coordinator.newRecord]
  have hdecode : decode text = .ok (readBack result.toJs) := by
    rw [Coordinator.recordedResult, honce, hvalue] at htext
    have hencode : encode result.toJs = .ok text := by
      cases hencoded : encode result.toJs with
      | error => simp [hencoded] at htext
      | ok =>
        simp only [hencoded, Bool.false_eq_true, if_false, Except.ok.injEq, Prod.mk.injEq,
          Option.some.injEq] at htext
        rw [htext.1]
    obtain ⟨found, hfound, hdecode⟩ :=
      decode_encode ((encode_eq_ok_iff _).1 ⟨text, hencode⟩)
    rw [hencode, Except.ok.injEq] at hfound
    rw [hfound, hdecode]
  have hreplay : Coordinator.replay identity row = .ok
      { value := readBack result.toJs, commitVersion := row.commitVersion
        durability := row.durability, replayed := true } := by
    simp [Coordinator.replay, hidentifies.2.2, hdisposition, hresult, hdecode]
  rw [replayedResult, hreplay]
  exact restoreMutationResult_readBack hanswerable

end Answers

end AckerDB
