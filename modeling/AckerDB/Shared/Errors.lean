import AckerDB.Core.Protocol

/-!
# Framework failures

`AckerDBError`, the safe transport-independent failure, with the rules its
constructor enforces as fields, and the values the server code throws.
-/

namespace AckerDB

open Protocol (OutcomeCode Outcome)

/-- `AckerDBError`. -/
structure AckerDBError where
  code : OutcomeCode
  message : String
  retryable : Bool := false
  retryAfterMs : Option Nat := none
  resource : Option String := none
  committed : Bool := false
  /-- A delay is bounded and belongs to a retryable failure. -/
  retryAfter_valid : ∀ delay ∈ retryAfterMs, delay ≤ 30000 ∧ retryable = true := by decide
  /-- Only a failure to converge is marked committed, and always. -/
  committed_iff : committed = true ↔ code = .convergenceUnavailable := by decide
  /-- A failure to converge is final. -/
  convergence_final : code = .convergenceUnavailable → retryable = false := by decide
  /-- The resource is one of the known classes. -/
  resource_known : ∀ name ∈ resource, name ∈ Protocol.resourceClasses := by decide
  deriving DecidableEq

/-- What a step of the server can throw. -/
inductive Thrown where
  | ackerdb (error : AckerDBError)
  | rangeError (message : String)
  | error (message : String)
  /-- What the codecs and parsers throw. -/
  | js (error : JsError)
  /-- Anything application code or the storage throws, known by a name. -/
  | foreign (name : String)
  deriving DecidableEq

/-- `message.slice(0, 512)`, by UTF-16 units; a pair that does not fit is cut off whole. -/
def sliceMessage (limit : Nat) : List Char → List Char
  | [] => []
  | c :: rest =>
    let width := if c.toNat < 0x10000 then 1 else 2
    if width ≤ limit then c :: sliceMessage (limit - width) rest else []

/-- `errorOutcome`: the outcome a failed subscription reports. -/
def errorOutcome : Thrown → Outcome
  | .ackerdb error =>
    { code := error.code
      retryable := error.retryable
      message := String.ofList (sliceMessage 512 error.message.toList)
      retryAfterMs := error.retryAfterMs
      resource := error.resource
      committed := error.committed }
  | _ =>
    { code := .internal, retryable := false, message := "Subscription evaluation failed"
      retryAfterMs := none, resource := none, committed := false }

/-- `isAuthFailure`. -/
def isAuthFailure (outcome : Outcome) : Bool :=
  outcome.code = .authStale || outcome.code = .authUnavailable ||
    outcome.code = .unauthenticated || outcome.code = .unauthorized

/-- `authOutcome`. -/
def authOutcome (code : OutcomeCode) (message : String) : Outcome :=
  { code, retryable := false, message, retryAfterMs := none, resource := none, committed := false }

/-- `overloadOutcome`. -/
def overloadOutcome (message : String) : Outcome :=
  { code := .overloaded, retryable := true, message, retryAfterMs := some 0
    resource := some "subscription", committed := false }

/-- `overloaded`. -/
def overloadedError (message : String) : Thrown :=
  .ackerdb { code := .overloaded, message, retryable := true, retryAfterMs := some 0
             resource := some "subscription" }

/-- `unavailable`, of the subscriptions. -/
def unavailableError (message : String) : Thrown :=
  .ackerdb { code := .unavailable, message, resource := some "subscription" }

/-! ## What the components throw -/

/-- `authUnavailable`. -/
def authUnavailable : Thrown :=
  .ackerdb { code := .authUnavailable
             message := "credential verification is temporarily unavailable", retryable := true }

/-- `unavailable("draining", …)`. -/
def OrderedPublication.closedError : Thrown :=
  .ackerdb { code := .draining, message := "Publication coordinator is closed"
             resource := some "publication" }

/-- `unavailable("overloaded", …)`. -/
def OrderedPublication.fullError : Thrown :=
  .ackerdb { code := .overloaded, message := "Publication capacity is full", retryable := true
             retryAfterMs := some 0, resource := some "publication" }

/-- `unavailable("unavailable", …)`. -/
def OrderedPublication.openError : Thrown :=
  .ackerdb { code := .unavailable, message := "A writer publication reservation is already open"
             resource := some "publication" }

/-- `conflict`. -/
def Coordinator.conflict (message : String) : Thrown :=
  .ackerdb { code := .conflict, message, resource := some "idempotency" }

/-- The validation errors of the gate. -/
def Coordinator.invalid (message : String) : Thrown :=
  .ackerdb { code := .validation, message, resource := some "idempotency" }

/-- The error of a full ledger. -/
def Coordinator.replayFull : Thrown :=
  .ackerdb { code := .overloaded, message := "mutation replay capacity is full", retryable := true
             retryAfterMs := some 1000, resource := some "idempotency" }

/-- The error of a result too large for the ledger. -/
def Coordinator.resultTooLarge : Thrown :=
  .ackerdb { code := .overloaded, message := "mutation result exceeds replay capacity"
             resource := some "idempotency" }

/-- The error of a version that storage and publication disagree on. -/
def Coordinator.diverged : Thrown :=
  .ackerdb { code := .internal, message := "storage and publication versions diverged" }

/-- The error of a turn whose `ROLLBACK` failed. -/
def Coordinator.indeterminate : Thrown :=
  .ackerdb { code := .indeterminate, message := "transaction outcome could not be determined" }

/-- The error of a record that is no object with an `ok`. -/
def Answers.noShapeError : Thrown :=
  .ackerdb { code := .internal, message := "stored mutation result has no Result shape" }

/-- The error of a record with the wrong fields. -/
def Answers.invalidError : Thrown :=
  .ackerdb { code := .internal, message := "stored mutation Result is invalid" }

/-- A `validation` failure. -/
def CredentialVault.invalid (message : String) : Thrown := .ackerdb { code := .validation, message }

/-- A `not_found` failure. -/
def CredentialVault.missing (message : String) : Thrown := .ackerdb { code := .notFound, message }

/-- An `unauthorized` failure. -/
def CredentialVault.forbidden (message : String) : Thrown :=
  .ackerdb { code := .unauthorized, message }

/-- `invalidCredential`. -/
def CredentialVault.invalidCredential : Thrown :=
  .ackerdb { code := .unauthenticated, message := "invalid credential" }

/-- The refusal of a full bucket. -/
def CredentialVault.capacityFull : Thrown :=
  .ackerdb { code := .overloaded, message := "credential capacity is full"
             resource := some "operation" }

/-- The error of an evaluation ahead of the publication. -/
def Reactive.futureCommit : Thrown :=
  .ackerdb { code := .internal, message := "Query observed a future commit" }

end AckerDB
