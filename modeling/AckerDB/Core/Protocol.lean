import AckerDB.Core.Result
import AckerDB.Core.Wire

/-!
# The client/server frames

The frames of an open session and the parsers that validate every framework-owned
field of one after it was decoded.  A parser returns nothing but success: the
source hands back the very object it was given.

* `parseServerMessage` — what a client accepts on an open session;
* `parseSubscriptionTransition` — the transitions, kind by kind.
-/

namespace AckerDB

namespace Protocol

open JsValue

/-! ## Bounds and vocabularies -/

/-- `MAX_PROTOCOL_ID`. -/
def maxProtocolId : Nat := 0x7fffffff

/-- `MAX_RETRY_AFTER_MS`. -/
def maxRetryAfterMs : Nat := 30000

/-- `MAX_RECEIPT_OBLIGATIONS`. -/
def maxReceiptObligations : Nat := 65536

/-- `MAX_REFERENCE_LENGTH`. -/
def maxReferenceLength : Nat := 512

/-- `MAX_CURSOR_PART_LENGTH`. -/
def maxCursorPartLength : Nat := 512

/-- `MAX_SAFE_MESSAGE_LENGTH`. -/
def maxSafeMessageLength : Nat := 512

/-- `MAX_PROVENANCE_PART_LENGTH`. -/
def maxProvenancePartLength : Nat := 16 * 1024

/-- `Number.MAX_SAFE_INTEGER`. -/
def maxSafeInteger : Nat := 2 ^ 53 - 1

/-- `ACKERDB_VERSION`: the build both ends ship. -/
def ackerdbVersion : String := "0.17.0"

/-- `OUTCOME_CODES`. -/
inductive OutcomeCode where
  | malformed | validation | versionMismatch | unauthenticated | authUnavailable | authStale
  | unauthorized | notFound | conflict | overloaded | slowConsumer | deadlineExceeded | draining
  | unavailable | convergenceUnavailable | indeterminate | internal
  deriving DecidableEq

/-- The code as it is spelled on the wire. -/
def OutcomeCode.text : OutcomeCode → String
  | malformed => "malformed"
  | validation => "validation"
  | versionMismatch => "version_mismatch"
  | unauthenticated => "unauthenticated"
  | authUnavailable => "auth_unavailable"
  | authStale => "auth_stale"
  | unauthorized => "unauthorized"
  | notFound => "not_found"
  | conflict => "conflict"
  | overloaded => "overloaded"
  | slowConsumer => "slow_consumer"
  | deadlineExceeded => "deadline_exceeded"
  | draining => "draining"
  | unavailable => "unavailable"
  | convergenceUnavailable => "convergence_unavailable"
  | indeterminate => "indeterminate"
  | internal => "internal"

/-- All codes. -/
def OutcomeCode.all : List OutcomeCode :=
  [malformed, validation, versionMismatch, unauthenticated, authUnavailable, authStale,
    unauthorized, notFound, conflict, overloaded, slowConsumer, deadlineExceeded, draining,
    unavailable, convergenceUnavailable, indeterminate, internal]

/-- `RESOURCE_CLASSES`. -/
def resourceClasses : List String :=
  ["connection", "operation", "reader", "writer", "subscription", "revalidation", "publication",
    "outbound", "sse", "history", "idempotency"]

/-- `DURABILITY_POLICIES`. -/
def durabilityPolicies : List String := ["production", "balanced"]

/-! ## Framework-owned values -/

/-- `Outcome`: a framework failure. -/
structure Outcome where
  code : OutcomeCode
  retryable : Bool
  message : String
  retryAfterMs : Option Nat
  resource : Option String
  committed : Bool
  deriving DecidableEq

/-- The object an outcome is; an absent field is left out. -/
def Outcome.toJs (outcome : Outcome) : JsValue :=
  .object ([("code", .string outcome.code.text), ("retryable", .bool outcome.retryable),
    ("message", .string outcome.message)] ++
    (outcome.retryAfterMs.map fun n => ("retryAfterMs", ofNat n)).toList ++
    (outcome.resource.map fun r => ("resource", string r)).toList ++
    if outcome.committed then [("committed", .bool true)] else [])

/-- `SubscriptionCursor`. -/
structure SubscriptionCursor where
  generation : String
  commitVersion : Nat
  authEpoch : Nat
  identity : String
  deriving DecidableEq

/-- The object a cursor is. -/
def SubscriptionCursor.toJs (cursor : SubscriptionCursor) : JsValue :=
  .object [("generation", .string cursor.generation),
    ("commitVersion", .bigint cursor.commitVersion), ("authEpoch", .ofNat cursor.authEpoch), ("identity", .string cursor.identity)]

/-- `SubscriptionTransition`; `source` is the field `from` and `target` the field `to`. -/
inductive SubscriptionTransition where
  | reset (source : Option SubscriptionCursor) (target : SubscriptionCursor) (value : JsValue)
  | update (source target : SubscriptionCursor) (value : JsValue)
  | checkpoint (source target : SubscriptionCursor)
  | resume (source target : SubscriptionCursor)
  | revoked (source target : SubscriptionCursor) (outcome : Outcome)
  | applicationError (source : Option SubscriptionCursor) (target : SubscriptionCursor)
      (error : ApplicationError)
  deriving DecidableEq

namespace SubscriptionTransition

/-- The cursor a transition leads to. -/
def target : SubscriptionTransition → SubscriptionCursor
  | reset _ target _ => target
  | update _ target _ => target
  | checkpoint _ target => target
  | resume _ target => target
  | revoked _ target _ => target
  | applicationError _ target _ => target

/-- The cursor a transition starts from. -/
def source : SubscriptionTransition → Option SubscriptionCursor
  | reset source _ _ => source
  | update source _ _ => some source
  | checkpoint source _ => some source
  | resume source _ => some source
  | revoked source _ _ => some source
  | applicationError source _ _ => source

end SubscriptionTransition

/-- A cursor or `null`. -/
def cursorOrNull : Option SubscriptionCursor → JsValue
  | some cursor => cursor.toJs
  | none => .null

/-- The object a transition is. -/
def SubscriptionTransition.toJs : SubscriptionTransition → JsValue
  | reset source target value =>
    .object [("kind", .string "reset"), ("from", cursorOrNull source), ("to", target.toJs),
      ("value", value)]
  | update source target value =>
    .object [("kind", .string "update"), ("from", source.toJs), ("to", target.toJs),
      ("value", value)]
  | checkpoint source target =>
    .object [("kind", .string "checkpoint"), ("from", source.toJs), ("to", target.toJs)]
  | resume source target =>
    .object [("kind", .string "resume"), ("from", source.toJs), ("to", target.toJs)]
  | revoked source target outcome =>
    .object [("kind", .string "revoked"), ("from", source.toJs), ("to", target.toJs),
      ("outcome", outcome.toJs)]
  | applicationError source target error =>
    .object [("kind", .string "application-error"), ("from", cursorOrNull source),
      ("to", target.toJs), ("error", error.toJs)]

/-- `TransitionMessage`: the frame that carries a transition of a subscription. -/
def transitionMessage (id : Nat) (transition : SubscriptionTransition) : JsValue :=
  .object [("t", .string "transition"), ("id", .ofNat id), ("transition", transition.toJs)]

/-! ## Field checks -/

/-- A parser's verdict. -/
abbrev Verdict := Except JsError Unit

/-- `malformed`. -/
def malformed {α : Type} (message : String) : Except JsError α :=
  .error (.protocolError false message)

/-- Refuse the frame unless the condition holds. -/
def require (condition : Prop) [Decidable condition] (message : String) : Verdict :=
  if condition then .ok () else malformed message

@[simp] theorem require_eq_ok {condition : Prop} [Decidable condition] {message : String}
    {verdict : Unit} : require condition message = .ok verdict ↔ condition := by
  unfold require
  split <;> simp [malformed, *]

section

variable (value : JsValue)

variable (name : String)

/-- `protocolObject`: the own fields of an object. -/
def protocolObject : Except JsError (List (String × JsValue)) :=
  match value with
  | .object fields => .ok fields
  -- a byte array is an object without any of the named fields
  | .bytes _ => .ok []
  | _ => malformed (name ++ " must be an object")

/-- `exactFields`. -/
def exactFields (fields : List (String × JsValue)) (required optional : List String) : Verdict := do
  required.forM fun key => require ((fields.lookup key).isSome = true) ("missing field " ++ key)
  fields.forM fun field =>
    require (field.1 ∈ required ∨ field.1 ∈ optional) ("unknown field " ++ field.1)

/-- `boundedString`. -/
def boundedString (maxLength : Nat) : Except JsError String :=
  match value with
  | .string text =>
    if 0 < jsLength text ∧ jsLength text ≤ maxLength then .ok text
    else malformed (name ++ " must be a non-empty bounded string")
  | _ => malformed (name ++ " must be a non-empty bounded string")

/-- `payload`. -/
def payload : Verdict :=
  require (value ≠ .undefined) (name ++ " must be wire-representable")

/-- `protocolId`. -/
def protocolId : Except JsError Nat :=
  match value.integer? with
  | some n =>
    if 1 ≤ n ∧ n ≤ maxProtocolId then .ok n.toNat
    else malformed (name ++ " must be an integer from 1 through " ++ toString maxProtocolId)
  | none => malformed (name ++ " must be an integer from 1 through " ++ toString maxProtocolId)

/-- `nonNegativeInteger`. -/
def nonNegativeInteger : Except JsError Nat :=
  match value.integer? with
  | some n =>
    if 0 ≤ n ∧ n ≤ maxSafeInteger then .ok n.toNat
    else malformed (name ++ " must be a non-negative safe integer")
  | none => malformed (name ++ " must be a non-negative safe integer")

/-- `nonNegativeBigint`. -/
def nonNegativeBigint : Except JsError Nat :=
  match value with
  | .bigint n => if 0 ≤ n then .ok n.toNat else malformed (name ++ " must be a non-negative bigint")
  | _ => malformed (name ++ " must be a non-negative bigint")

/-- The value of a string that is one of a vocabulary (`enumValue`). -/
def enumValue (values : List String) : Except JsError String :=
  match value with
  | .string text => if text ∈ values then .ok text else malformed ("unknown " ++ name)
  | _ => malformed ("unknown " ++ name)

/-- A digit of a hexadecimal text, in either case. -/
def hexDigit? (c : Char) : Option Nat :=
  if '0' ≤ c ∧ c ≤ '9' then some (c.toNat - 48)
  else if 'a' ≤ c ∧ c ≤ 'f' then some (c.toNat - 87)
  else if 'A' ≤ c ∧ c ≤ 'F' then some (c.toNat - 55)
  else none

/-- The shape of a UUID of version 7, character by character: `x` is a hexadecimal digit,
`y` the variant digit, and anything else stands for itself. -/
def uuidV7Shape : List Char := "xxxxxxxx-xxxx-7xxx-yxxx-xxxxxxxxxxxx".toList

/-- Whether a character fits its place in the shape. -/
def fitsShape (place c : Char) : Bool :=
  if place = 'x' then (hexDigit? c).isSome
  else if place = 'y' then c ∈ ['8', '9', 'a', 'b', 'A', 'B']
  else c = place

/-- `uuidV7.test`. -/
def isUuidV7 (text : String) : Bool :=
  text.toList.length = uuidV7Shape.length && (uuidV7Shape.zip text.toList).all fun p => fitsShape p.1 p.2

/-- `uuidV7Timestamp`: the embedded Unix-millisecond timestamp. -/
def uuidV7Timestamp (text : String) : Except JsError Nat :=
  if isUuidV7 text then
    let digits := text.toList.take 8 ++ (text.toList.drop 9).take 4
    .ok (digits.foldl (fun n c => n * 16 + (hexDigit? c).getD 0) 0)
  else malformed "mutationRequestId must be UUIDv7"

/-! ## Parsers -/

/-- `frame`: an object with a string type. -/
def frame (value : JsValue) : Except JsError (List (String × JsValue) × String) := do
  let fields ← protocolObject value "frame"
  match get fields "t" with
  | .string t => .ok (fields, t)
  | _ => malformed "t must be a frame type"

/-- `frameVersion`, for a frame the application sent. -/
def frameVersion : Verdict := do
  let sent ← boundedString value "frame version v" 64
  if sent = ackerdbVersion then .ok ()
  else .error (.protocolError true ("this application runs AckerDB " ++ sent ++
    " and this client is " ++ ackerdbVersion ++ " — install matching versions"))

end

/-- Check a field only if the object owns it. -/
def whenOwn (fields : List (String × JsValue)) (key : String) (check : JsValue → Verdict) :
    Verdict :=
  match fields.lookup key with
  | none => .ok ()
  | some value => check value

/-- The check of `retryAfterMs`. -/
def checkRetryAfterMs (retryable : JsValue) (value : JsValue) : Verdict := do
  let retryAfterMs ← nonNegativeInteger value "retryAfterMs"
  require (retryAfterMs ≤ maxRetryAfterMs) ("retryAfterMs exceeds " ++ toString maxRetryAfterMs)
  require (retryable = .bool true) "retryAfterMs requires a retryable outcome"

variable (value : JsValue)

/-- `parseOutcome`; the code is handed back. -/
def parseOutcome : Except JsError String := do
  let fields ← protocolObject value "outcome"
  exactFields fields ["code", "retryable", "message"] ["retryAfterMs", "resource", "committed"]
  let code ← enumValue (get fields "code") "outcome code"
    (OutcomeCode.all.map OutcomeCode.text)
  let retryable := get fields "retryable"
  require (retryable = .bool true ∨ retryable = .bool false) "retryable must be a boolean"
  let _ ← boundedString (get fields "message") "outcome message" maxSafeMessageLength
  whenOwn fields "retryAfterMs" (checkRetryAfterMs retryable)
  whenOwn fields "resource" fun value => do
    let _ ← enumValue value "resource class" resourceClasses
    return ()
  whenOwn fields "committed" fun value =>
    require (value = .bool true ∧ code = "convergence_unavailable")
      "committed is valid only for convergence_unavailable"
  require (code = "convergence_unavailable" →
    get fields "committed" = .bool true ∧ retryable = .bool false)
    "convergence_unavailable must be committed and non-retryable"
  return code

/-- `parseApplicationError`. -/
def parseApplicationError : Verdict := do
  let fields ← protocolObject value "application error"
  exactFields fields ["kind", "code", "body", "status"] []
  require (get fields "kind" = .string "application")
    "application error kind must be application"
  let _ ← boundedString (get fields "code") "application error code" maxReferenceLength
  payload (get fields "body") "application error body"
  require (∃ status ∈ errorHttpStatuses,
    (get fields "status").integer? = some (status : Int))
    "application error status must be a supported named error status"

/-- `parseSubscriptionCursor`. -/
def parseSubscriptionCursor : Except JsError SubscriptionCursor := do
  let fields ← protocolObject value "subscription cursor"
  exactFields fields ["generation", "commitVersion", "authEpoch", "identity"] []
  let generation ← boundedString (get fields "generation") "cursor generation"
    maxCursorPartLength
  let commitVersion ← nonNegativeBigint (get fields "commitVersion") "cursor commitVersion"
  let authEpoch ← nonNegativeInteger (get fields "authEpoch") "cursor authEpoch"
  let identity ← boundedString (get fields "identity") "cursor identity"
    maxCursorPartLength
  return ⟨generation, commitVersion, authEpoch, identity⟩

/-- `sameStream`: the cursors advance one stream. -/
def SameStream (source target : SubscriptionCursor) : Prop :=
  source.generation = target.generation ∧ source.authEpoch = target.authEpoch ∧
    source.identity = target.identity ∧ source.commitVersion < target.commitVersion

instance (source target : SubscriptionCursor) : Decidable (SameStream source target) :=
  inferInstanceAs (Decidable (_ ∧ _))

/-- A cursor, or `null`. -/
def parseCursorOrNull : Except JsError (Option SubscriptionCursor) :=
  if value = .null then .ok none
  else do
    let cursor ← parseSubscriptionCursor value
    return some cursor

/-- The codes a revocation may carry. -/
def revocationCodes : List String :=
  ["unauthenticated", "auth_unavailable", "auth_stale", "unauthorized"]

/-- The `from` and `to` of a transition that advances one stream. -/
def parseAdvance (fields : List (String × JsValue)) : Verdict := do
  let source ← parseSubscriptionCursor (get fields "from")
  let target ← parseSubscriptionCursor (get fields "to")
  require (SameStream source target) "update/checkpoint cursors must advance one stream"

/-- `parseSubscriptionTransition`. -/
def parseSubscriptionTransition : Verdict := do
  let fields ← protocolObject value "subscription transition"
  match get fields "kind" with
  | .string "reset" => do
      exactFields fields ["kind", "from", "to", "value"] []
      let _ ← parseCursorOrNull (get fields "from")
      let _ ← parseSubscriptionCursor (get fields "to")
      payload (get fields "value") "transition value"
  | .string "update" => do
      exactFields fields ["kind", "from", "to", "value"] []
      parseAdvance fields
      payload (get fields "value") "transition value"
  | .string "checkpoint" => do
      exactFields fields ["kind", "from", "to"] []
      parseAdvance fields
  | .string "resume" => do
      exactFields fields ["kind", "from", "to"] []
      let source ← parseSubscriptionCursor (get fields "from")
      let target ← parseSubscriptionCursor (get fields "to")
      require (source = target) "resume cursors must be identical"
  | .string "revoked" => do
      exactFields fields ["kind", "from", "to", "outcome"] []
      let _ ← parseSubscriptionCursor (get fields "from")
      let _ ← parseSubscriptionCursor (get fields "to")
      let code ← parseOutcome (get fields "outcome")
      require (code ∈ revocationCodes) "revoked requires an authentication or authorization outcome"
  | .string "application-error" => do
      exactFields fields ["kind", "from", "to", "error"] []
      let source ← parseCursorOrNull (get fields "from")
      let target ← parseSubscriptionCursor (get fields "to")
      require (∀ cursor ∈ source, SameStream cursor target)
        "update/checkpoint cursors must advance one stream"
      parseApplicationError (get fields "error")
  | _ => malformed "unknown subscription transition kind"

/-- `parseLiveEventCursor`. -/
def parseLiveEventCursor : Verdict := do
  let fields ← protocolObject value "live event cursor"
  exactFields fields ["generation", "commitVersion", "sequence"] []
  let _ ← boundedString (get fields "generation") "event generation" maxCursorPartLength
  let _ ← nonNegativeBigint (get fields "commitVersion") "event commitVersion"
  let _ ← nonNegativeBigint (get fields "sequence") "event sequence"
  return ()

/-- `parseLiveEvent`. -/
def parseLiveEvent : Verdict := do
  let fields ← protocolObject value "live event"
  match get fields "kind" with
  | .string "row" => do
      exactFields fields ["kind", "cursor", "row"] []
      parseLiveEventCursor (get fields "cursor")
      payload (get fields "row") "event row"
  | .string "gap" => do
      exactFields fields ["kind", "cursor"] []
      parseLiveEventCursor (get fields "cursor")
  | .string "reset" => do
      exactFields fields ["kind", "cursor"] []
      parseLiveEventCursor (get fields "cursor")
  | _ => malformed "unknown live event kind"

/-- The obligations of a receipt: protocol ids without repetition. -/
def parseObligations : List JsValue → List Nat → Verdict
  | [], _ => .ok ()
  | obligation :: rest, unique => do
      let id ← protocolId obligation "obligation"
      require (id ∉ unique) "obligations must be unique"
      parseObligations rest (unique ++ [id])

/-- `parseMutationReceipt`. -/
def parseMutationReceipt : Verdict := do
  let fields ← protocolObject value "mutation receipt"
  exactFields fields
    ["mutationRequestId", "commitVersion", "durability", "replay", "obligations"] []
  let mutationRequestId ← boundedString (get fields "mutationRequestId")
    "mutationRequestId" 36
  require (isUuidV7 mutationRequestId = true) "mutationRequestId must be UUIDv7"
  let _ ← nonNegativeBigint (get fields "commitVersion") "receipt commitVersion"
  let _ ← enumValue (get fields "durability") "durability policy" durabilityPolicies
  require (get fields "replay" = .string "executed" ∨
    get fields "replay" = .string "replayed") "unknown replay status"
  match get fields "obligations" with
  | .array obligations => do
      require (obligations.length ≤ maxReceiptObligations) "obligations must be a bounded array"
      parseObligations obligations []
  | _ => malformed "obligations must be a bounded array"

/-- `parseCredentialProvenance`. -/
def parseCredentialProvenance : Verdict := do
  let fields ← protocolObject value "credential provenance"
  exactFields fields ["issuer", "subject"] []
  let _ ← boundedString (get fields "issuer") "credential provenance issuer"
    maxProvenancePartLength
  let _ ← boundedString (get fields "subject") "credential provenance subject"
    maxProvenancePartLength
  return ()

section

variable (fields : List (String × JsValue))

/-- `parseCredentialTtl`: `null` is the disclosure of a credential that does not expire. -/
def parseCredentialTtl : Verdict :=
  if get fields "credentialTtlMs" = .null then .ok ()
  else do
    let _ ← nonNegativeInteger (get fields "credentialTtlMs") "credentialTtlMs"
    return ()

/-- A positive signed 64-bit bigint. -/
def isIdentity : JsValue → Bool
  | .bigint n => 0 < n && n ≤ 2 ^ 63 - 1
  | _ => false

/-- `parseAuthenticationDescriptor`. -/
def parseAuthenticationDescriptor (frameFields : List String) :
    Verdict :=
  match get fields "principal" with
  | .string "anonymous" => exactFields fields (frameFields ++ ["principal"]) []
  | .string "user" => do
      exactFields fields
        (frameFields ++ ["principal", "identity", "provenance", "credentialTtlMs"]) []
      require (isIdentity (get fields "identity") = true)
        "identity must be a positive signed 64-bit bigint"
      parseCredentialProvenance (get fields "provenance")
      parseCredentialTtl fields
  | .string "workload" => do
      exactFields fields (frameFields ++ ["principal", "provenance", "credentialTtlMs"]) []
      parseCredentialProvenance (get fields "provenance")
      parseCredentialTtl fields
  | _ => malformed "unknown client principal kind"

/-- `parseErrorMessage`. -/
def parseErrorMessage : Verdict := do
  frameVersion (get fields "v")
  exactFields fields ["v", "t", "id", "outcome"] []
  if get fields "id" = .null then .ok ()
  else do
    let _ ← protocolId (get fields "id") "request id"
    return ()
  let _ ← parseOutcome (get fields "outcome")
  return ()

/-- The fields of an answer to a call: the answer of a mutation carries a receipt. -/
def parseAnswer (answer unknown : String) : Verdict :=
  match get fields "kind" with
  | .string "mutation" => do
      exactFields fields ["t", "id", "kind", answer, "receipt"] []
      parseMutationReceipt (get fields "receipt")
  | .string "query" => exactFields fields ["t", "id", "kind", answer] []
  | .string "procedure" => exactFields fields ["t", "id", "kind", answer] []
  | _ => malformed unknown

end

/-- `parseServerMessage`. -/
def parseServerMessage : Verdict := do
  let (fields, t) ← frame value
  match t with
  | "welcome" => malformed "welcome has already been received"
  | "auth" => do
      parseAuthenticationDescriptor fields ["t", "attemptId", "authEpoch"]
      let _ ← protocolId (get fields "attemptId") "attemptId"
      let _ ← nonNegativeInteger (get fields "authEpoch") "authEpoch"
      return ()
  | "transition" => do
      exactFields fields ["t", "id", "transition"] []
      let _ ← protocolId (get fields "id") "subscription id"
      parseSubscriptionTransition (get fields "transition")
  | "event" => do
      exactFields fields ["t", "id", "event"] []
      let _ ← protocolId (get fields "id") "subscription id"
      parseLiveEvent (get fields "event")
  | "ok" => do
      parseAnswer fields "value" "unknown ok frame kind"
      let _ ← protocolId (get fields "id") "request id"
      payload (get fields "value") "result value"
  | "app_err" => do
      parseAnswer fields "error" "unknown application-error frame kind"
      let _ ← protocolId (get fields "id") "request id"
      parseApplicationError (get fields "error")
  | "channel_ready" => do
      exactFields fields ["t", "id", "authEpoch"] []
      let _ ← protocolId (get fields "id") "channel id"
      let _ ← nonNegativeInteger (get fields "authEpoch") "authEpoch"
      return ()
  | "channel_event" => do
      exactFields fields ["t", "id", "event", "payload"] []
      let _ ← protocolId (get fields "id") "channel id"
      let _ ← boundedString (get fields "event") "channel event" maxReferenceLength
      payload (get fields "payload") "channel payload"
  | "channel_rejected" => do
      exactFields fields ["t", "id", "authEpoch", "error"] []
      let _ ← protocolId (get fields "id") "channel id"
      let _ ← nonNegativeInteger (get fields "authEpoch") "authEpoch"
      parseApplicationError (get fields "error")
  | "err" => parseErrorMessage fields
  | "pong" => exactFields fields ["t"] []
  | _ => malformed "unknown server frame type"

end Protocol

end AckerDB
