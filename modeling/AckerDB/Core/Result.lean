import AckerDB.Core.Value

/-!
# Results and application errors

The outcome of a registered function: `Ok` with a value, or `Err` with an
application error of a code, a body and one of the named HTTP statuses.
-/

namespace AckerDB

/-- The values of `Status`: the HTTP statuses an application error may carry. -/
def errorHttpStatuses : List Nat :=
  [400, 401, 402, 403, 404, 405, 406, 407, 408, 409, 410, 411, 412, 413, 414, 415, 416, 417, 418,
    421, 422, 423, 424, 425, 426, 428, 429, 431, 451, 500, 501, 502, 503, 504, 505, 506, 507, 508,
    510, 511]

/-- One of the named statuses. -/
abbrev ErrorHttpStatus := { status : Nat // status ∈ errorHttpStatuses }

/-- An application error, as `Err` builds it. -/
structure ApplicationError where
  code : String
  body : JsValue
  status : ErrorHttpStatus
  deriving DecidableEq

/-- The object an application error is. -/
def ApplicationError.toJs (error : ApplicationError) : JsValue :=
  .object [("kind", .string "application"), ("code", .string error.code), ("body", error.body),
    ("status", .ofNat error.status.1)]

/-- The result of a registered function. -/
inductive Result where
  | ok (data : JsValue)
  | err (error : ApplicationError)
  deriving DecidableEq

/-- `isApplicationError`, read off an arbitrary value. -/
def isApplicationError : JsValue → Option ApplicationError
  | .object fields =>
    match fields.lookup "kind", fields.lookup "code", fields.lookup "body",
      (fields.lookup "status").bind JsValue.integer? with
    | some (.string "application"), some (.string code), some body, some status =>
      if h : status.toNat ∈ errorHttpStatuses ∧ 0 ≤ status then
        some ⟨code, body, ⟨status.toNat, h.1⟩⟩
      else none
    | _, _, _, _ => none
  | _ => none

end AckerDB
