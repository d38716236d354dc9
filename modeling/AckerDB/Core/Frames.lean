import AckerDB.Core.Protocol

/-!
# The frames a client accepts

A frame that the server builds goes through `encode`, the socket and `decode` before
the client parses it.  Here the parsers meet the objects the server builds, so that
whether a frame is accepted becomes a condition on what the server put into it.

* `accepted_iff` — a frame is accepted when it can be encoded and what is read back parses;
* `parseSubscriptionTransition_iff` — the transitions that parse, kind by kind (`Legal`);
* `accepted_transitionMessage_iff` — the frames that carry one.
-/

namespace AckerDB

namespace Protocol

open Wire JsValue List Option

/-! ## Field checks -/

variable {verdict : Unit}

theorem forM_require_eq_ok {α : Type} (items : List α) (condition : α → Prop)
    [DecidablePred condition] (message : α → String) :
    (items.forM fun item => require (condition item) (message item)) = .ok verdict ↔
      ∀ item ∈ items, condition item := by
  induction items with
  | nil => simp [List.forM]
  | cons item rest ih =>
    show (require (condition item) (message item) >>= fun _ => rest.forM _) = _ ↔ _
    rw [Except.bind_eq_ok]
    simp only [require_eq_ok, exists_const, ih, List.forall_mem_cons]

@[simp] theorem exactFields_eq_ok {fields : List (String × JsValue)}
    {required optional : List String} :
    exactFields fields required optional = .ok verdict ↔
      (∀ key ∈ required, (fields.lookup key).isSome = true) ∧
        ∀ field ∈ fields, field.1 ∈ required ∨ field.1 ∈ optional := by
  rw [exactFields, Except.bind_eq_ok]
  simp only [forM_require_eq_ok, exists_const]

variable {name : String} {value : JsValue}

@[simp] theorem boundedString_eq_ok {text : String} {maxLength : Nat} :
    boundedString value name maxLength = .ok text ↔
      value = .string text ∧ 0 < jsLength text ∧ jsLength text ≤ maxLength := by
  cases value with
  | string =>
    simp only [boundedString, string.injEq]
    split
    · rename_i hbounded
      constructor
      · rintro ⟨⟩
        exact ⟨rfl, hbounded⟩
      · rintro ⟨rfl, -⟩
        rfl
    rename_i hbounded
    constructor
    · intro h
      cases h
    · rintro ⟨rfl, h⟩
      exact absurd h hbounded
  | _ => simp [boundedString, malformed]

@[simp] theorem payload_eq_ok :
    payload value name = .ok verdict ↔ value ≠ .undefined := require_eq_ok

@[simp] theorem protocolId_ofNat {n id : Nat} :
    protocolId (.ofNat n) name = .ok id ↔ (1 ≤ n ∧ n ≤ maxProtocolId) ∧ id = n := by
  simp only [protocolId, integer?_ofNat]
  split
  · simp only [Except.ok.injEq, Int.toNat_natCast]
    omega
  · simp only [malformed, reduceCtorEq, false_iff]
    omega

@[simp] theorem nonNegativeInteger_ofNat {n found : Nat} :
    nonNegativeInteger (.ofNat n) name = .ok found ↔ n ≤ maxSafeInteger ∧ found = n := by
  simp only [nonNegativeInteger, integer?_ofNat]
  split
  · simp only [Except.ok.injEq, Int.toNat_natCast]
    omega
  · simp only [malformed, reduceCtorEq, false_iff]
    omega

@[simp] theorem nonNegativeBigint_natCast {n found : Nat} :
    nonNegativeBigint (.bigint n) name = .ok found ↔ found = n := by
  simp [nonNegativeBigint, eq_comm]

@[simp] theorem enumValue_eq_ok {text : String} {values : List String} :
    enumValue value name values = .ok text ↔ value = .string text ∧ text ∈ values := by
  cases value with
  | string =>
    simp only [enumValue, string.injEq]
    split
    · simp only [Except.ok.injEq]
      constructor
      · rintro rfl
        exact ⟨rfl, ‹_›⟩
      · rintro ⟨h, -⟩
        exact h
    · simp only [malformed, reduceCtorEq, false_iff]
      rintro ⟨rfl, h⟩
      contradiction
  | _ => simp [enumValue, malformed]

/-! ## Cursors, errors and outcomes -/

/-- A text within the bounds of a protocol field. -/
def Bounded (text : String) (maxLength : Nat) : Prop := 0 < jsLength text ∧ jsLength text ≤ maxLength

/-- A cursor that parses. -/
structure SubscriptionCursor.Valid (cursor : SubscriptionCursor) : Prop where
  generation : Bounded cursor.generation maxCursorPartLength
  authEpoch : cursor.authEpoch ≤ maxSafeInteger
  identity : Bounded cursor.identity maxCursorPartLength

@[simp] theorem parseSubscriptionCursor_toJs {cursor found : SubscriptionCursor} :
    parseSubscriptionCursor cursor.toJs = .ok found ↔ cursor.Valid ∧ found = cursor := by
  have hparse : parseSubscriptionCursor cursor.toJs = .ok found ↔
      Bounded cursor.generation maxCursorPartLength ∧ cursor.authEpoch ≤ maxSafeInteger ∧
        Bounded cursor.identity maxCursorPartLength ∧ cursor = found := by
    simp [parseSubscriptionCursor, SubscriptionCursor.toJs, protocolObject, Except.bind_eq_ok,
      JsValue.get, lookup, Bounded]
  rw [hparse]
  constructor
  · rintro ⟨hgeneration, hepoch, hidentity, rfl⟩
    exact ⟨⟨hgeneration, hepoch, hidentity⟩, rfl⟩
  · rintro ⟨⟨hgeneration, hepoch, hidentity⟩, rfl⟩
    exact ⟨hgeneration, hepoch, hidentity, rfl⟩

@[simp] theorem parseCursorOrNull_toJs {cursor found : Option SubscriptionCursor} :
    parseCursorOrNull (cursorOrNull cursor) = .ok found ↔
      (∀ c ∈ cursor, c.Valid) ∧ found = cursor := by
  cases cursor with
  | none => simp [parseCursorOrNull, cursorOrNull, eq_comm]
  | some cursor =>
    have hne : cursor.toJs ≠ .null := by simp [SubscriptionCursor.toJs]
    simp only [parseCursorOrNull, cursorOrNull, hne, if_false, Except.bind_eq_ok,
      parseSubscriptionCursor_toJs, Except.pure_eq_ok, mem_def, some.injEq,
      forall_eq']
    constructor
    · rintro ⟨_, ⟨hvalid, rfl⟩, hfound⟩
      exact ⟨hvalid, (Except.ok.inj hfound).symm⟩
    · rintro ⟨hvalid, rfl⟩
      exact ⟨cursor, ⟨hvalid, rfl⟩, rfl⟩

/-- An application error that parses. -/
structure LegalError (error : ApplicationError) : Prop where
  code : Bounded error.code maxReferenceLength
  body : error.body ≠ .undefined

variable {error : ApplicationError}

theorem readBackDefined_error (hbody : error.body ≠ .undefined) :
    readBackDefined error.toJs = .object [("kind", .string "application"),
      ("code", .string error.code), ("body", readBackDefined error.body),
      ("status", .ofNat error.status.1)] := by
  simp [ApplicationError.toJs, readBackDefined, readBackFields, readBackFields_cons hbody,
    assign, JsValue.ofNat, JsNumber.zeroed]

/-- An application error is read back with its body. -/
theorem parseApplicationError_readBack :
    parseApplicationError (readBackDefined error.toJs) = .ok verdict ↔ LegalError error := by
  by_cases hbody : error.body = .undefined
  · have hillegal : ¬ LegalError error := fun h => h.body hbody
    have hread : readBackDefined error.toJs = .object [("kind", .string "application"),
        ("code", .string error.code), ("status", .ofNat error.status.1)] := by
      simp [ApplicationError.toJs, readBackDefined, readBackFields, assign, hbody, JsValue.ofNat,
        JsNumber.zeroed]
    rw [hread]
    simp [parseApplicationError, protocolObject, Except.bind_eq_ok, lookup, hillegal]
  have hstatus := error.status.2
  have hparse : parseApplicationError (readBackDefined error.toJs) = .ok verdict ↔
      Bounded error.code maxReferenceLength := by
    rw [readBackDefined_error hbody]
    simp [parseApplicationError, protocolObject, Except.bind_eq_ok, lookup, JsValue.get,
      Bounded, readBackDefined_ne_undefined hbody, hstatus]
  rw [hparse]
  exact ⟨fun hcode => ⟨hcode, hbody⟩, fun h => h.code⟩

/-- An outcome that parses. -/
structure Outcome.Valid (outcome : Outcome) : Prop where
  message : Bounded outcome.message maxSafeMessageLength
  retryAfterMs : ∀ n ∈ outcome.retryAfterMs, n ≤ maxRetryAfterMs ∧ outcome.retryable = true
  resource : ∀ r ∈ outcome.resource, r ∈ resourceClasses
  committed : outcome.committed = true ↔ outcome.code = .convergenceUnavailable
  final : outcome.code = .convergenceUnavailable → outcome.retryable = false

theorem OutcomeCode.text_mem (code : OutcomeCode) :
    code.text ∈ OutcomeCode.all.map OutcomeCode.text := by
  cases code <;> decide

@[simp] theorem whenOwn_eq_ok {fields : List (String × JsValue)} {key : String}
    {check : JsValue → Verdict} :
    whenOwn fields key check = .ok verdict ↔ ∀ value ∈ fields.lookup key, check value = .ok () := by
  unfold whenOwn
  cases fields.lookup key <;> simp

/-- The fields of the object an outcome is. -/
def Outcome.fields (outcome : Outcome) : List (String × JsValue) :=
  [("code", .string outcome.code.text), ("retryable", .bool outcome.retryable),
    ("message", .string outcome.message)] ++
    (outcome.retryAfterMs.map fun n => ("retryAfterMs", ofNat n)).toList ++
    (outcome.resource.map fun r => ("resource", string r)).toList ++
    if outcome.committed then [("committed", .bool true)] else []

section OutcomeFields

variable (outcome : Outcome)

theorem Outcome.exactFields_fields : exactFields outcome.fields ["code", "retryable", "message"]
    ["retryAfterMs", "resource", "committed"] = .ok () := by
  rw [exactFields_eq_ok]
  unfold Outcome.fields
  refine ⟨by simp [lookup], ?_⟩
  intro field hfield
  cases hretry : outcome.retryAfterMs <;> cases hresource : outcome.resource <;>
    cases hcommitted : outcome.committed <;>
    simp [hretry, hresource, hcommitted] at hfield <;> aesop

theorem Outcome.lookup_retryAfterMs :
    outcome.fields.lookup "retryAfterMs" = outcome.retryAfterMs.map ofNat := by
  unfold Outcome.fields
  cases outcome.retryAfterMs <;> cases outcome.resource <;> cases outcome.committed <;>
    simp [lookup]

theorem Outcome.lookup_resource :
    outcome.fields.lookup "resource" = outcome.resource.map string := by
  unfold Outcome.fields
  cases outcome.retryAfterMs <;> cases outcome.resource <;> cases outcome.committed <;>
    simp [lookup]

theorem Outcome.lookup_committed : outcome.fields.lookup "committed" =
    if outcome.committed then some (.bool true) else none := by
  unfold Outcome.fields
  cases outcome.retryAfterMs <;> cases outcome.resource <;> cases outcome.committed <;>
    simp [lookup]

end OutcomeFields

theorem checkRetryAfterMs_ofNat {retryable : Bool} {n : Nat} :
    checkRetryAfterMs (.bool retryable) (.ofNat n) = .ok () ↔
      n ≤ maxRetryAfterMs ∧ retryable = true := by
  have hsafe : maxRetryAfterMs ≤ maxSafeInteger := by decide
  simp only [checkRetryAfterMs, Except.bind_eq_ok, nonNegativeInteger_ofNat, require_eq_ok,
    exists_const, bool.injEq]
  constructor
  · rintro ⟨_, ⟨-, rfl⟩, hle, hretryable⟩
    exact ⟨hle, hretryable⟩
  · rintro ⟨hle, hretryable⟩
    exact ⟨n, ⟨hle.trans hsafe, rfl⟩, hle, hretryable⟩

theorem OutcomeCode.text_eq_convergence {code : OutcomeCode} :
    code.text = "convergence_unavailable" ↔ code = .convergenceUnavailable := by
  cases code <;> decide

@[simp] theorem parseOutcome_toJs {outcome : Outcome} {code : String} :
    parseOutcome outcome.toJs = .ok code ↔ outcome.Valid ∧ code = outcome.code.text := by
  have hfields : outcome.toJs = .object outcome.fields := rfl
  have hcode : outcome.fields.lookup "code" = some (.string outcome.code.text) := rfl
  have hretryable : outcome.fields.lookup "retryable" = some (.bool outcome.retryable) := rfl
  have hmessage : outcome.fields.lookup "message" = some (.string outcome.message) := rfl
  rw [hfields]
  simp only [parseOutcome, protocolObject, Except.ok_bind, Except.bind_eq_ok,
    outcome.exactFields_fields, JsValue.get, hcode, hretryable, hmessage, getD_some,
    enumValue_eq_ok, boundedString_eq_ok, require_eq_ok, whenOwn_eq_ok, outcome.lookup_retryAfterMs,
    outcome.lookup_resource, outcome.lookup_committed]
  constructor
  · rintro ⟨_, ⟨⟨⟩, -⟩, -, -, _, ⟨⟨⟩, hmessage⟩, -, hretry, -, hresource, -, hcommitted, -, hfinal,
      ⟨⟩⟩
    rw [OutcomeCode.text_eq_convergence] at hcommitted hfinal
    refine ⟨⟨hmessage, ?_, ?_, ⟨?_, ?_⟩, ?_⟩, rfl⟩
    · intro n hn
      exact checkRetryAfterMs_ofNat.1 (hretry _ (mem_map_of_mem _ hn))
    · intro r hr
      obtain ⟨_, ⟨⟨⟩, hmem⟩, -⟩ := hresource _ (mem_map_of_mem _ hr)
      exact hmem
    · intro h
      exact (hcommitted (.bool true) (by simp [h])).2
    · intro h
      by_contra hnot
      simpa [hnot] using (hfinal h).1
    · intro h
      simpa using (hfinal h).2
  rintro ⟨hvalid, rfl⟩
  refine ⟨_, ⟨rfl, outcome.code.text_mem⟩, (), ?_, _, ⟨rfl, hvalid.message⟩, (), ?_, (), ?_, (),
    ?_, (), ?_, rfl⟩
  · cases outcome.retryable <;> simp
  · intro value hvalue
    obtain ⟨n, hn, rfl⟩ := mem_map.1 hvalue
    exact checkRetryAfterMs_ofNat.2 (hvalid.retryAfterMs n hn)
  · intro value hvalue
    obtain ⟨r, hr, rfl⟩ := mem_map.1 hvalue
    exact ⟨r, ⟨rfl, hvalid.resource r hr⟩, rfl⟩
  · intro value hvalue
    split at hvalue
    · rename_i h
      rw [OutcomeCode.text_eq_convergence]
      exact ⟨(mem_some_iff.1 hvalue).symm, hvalid.committed.1 h⟩
    · cases hvalue
  · rw [OutcomeCode.text_eq_convergence]
    intro h
    simp [hvalid.committed.2 h, hvalid.final h]

/-! ## Transitions -/

@[simp] theorem readBackDefined_cursor (cursor : SubscriptionCursor) :
    readBackDefined cursor.toJs = cursor.toJs := by
  simp [SubscriptionCursor.toJs, readBackDefined, readBackFields, assign, ofNat,
    JsNumber.zeroed]

@[simp] theorem cursor_ne_undefined (cursor : SubscriptionCursor) : cursor.toJs ≠ .undefined := by
  simp [SubscriptionCursor.toJs]

@[simp] theorem readBackDefined_cursorOrNull (cursor : Option SubscriptionCursor) :
    readBackDefined (cursorOrNull cursor) = cursorOrNull cursor := by
  cases cursor with
  | none => rfl
  | some cursor => exact readBackDefined_cursor cursor

@[simp] theorem cursorOrNull_ne_undefined (cursor : Option SubscriptionCursor) :
    cursorOrNull cursor ≠ .undefined := by
  cases cursor <;> simp [cursorOrNull]

@[simp] theorem readBackDefined_outcome (outcome : Outcome) :
    readBackDefined outcome.toJs = outcome.toJs := by
  cases hretry : outcome.retryAfterMs <;> cases hresource : outcome.resource <;>
    cases hcommitted : outcome.committed <;>
    simp [Outcome.toJs, hretry, hresource, hcommitted, readBackDefined, readBackFields, assign,
      ofNat, JsNumber.zeroed]

@[simp] theorem outcome_ne_undefined (outcome : Outcome) : outcome.toJs ≠ .undefined := by
  simp [Outcome.toJs]

@[simp] theorem applicationError_ne_undefined (error : ApplicationError) :
    error.toJs ≠ .undefined := by
  simp [ApplicationError.toJs]

/-- A transition that parses, kind by kind. -/
def Legal : SubscriptionTransition → Prop
  | .reset source target value =>
    (∀ cursor ∈ source, cursor.Valid) ∧ target.Valid ∧ value ≠ .undefined
  | .update source target value =>
    source.Valid ∧ target.Valid ∧ SameStream source target ∧ value ≠ .undefined
  | .checkpoint source target => source.Valid ∧ target.Valid ∧ SameStream source target
  | .resume source target => source.Valid ∧ source = target
  | .revoked source target outcome =>
    source.Valid ∧ target.Valid ∧ outcome.Valid ∧ outcome.code.text ∈ revocationCodes
  | .applicationError source target error =>
    (∀ cursor ∈ source, cursor.Valid ∧ SameStream cursor target) ∧ target.Valid ∧ LegalError error

theorem parseAdvance_eq_ok {fields : List (String × JsValue)} {source target : SubscriptionCursor}
    (hsource : fields.lookup "from" = some source.toJs)
    (htarget : fields.lookup "to" = some target.toJs) :
    parseAdvance fields = .ok verdict ↔
      source.Valid ∧ target.Valid ∧ SameStream source target := by
  simp only [parseAdvance, Except.bind_eq_ok, JsValue.get, hsource, htarget, getD_some,
    parseSubscriptionCursor_toJs, require_eq_ok]
  constructor
  · rintro ⟨_, ⟨hsource, rfl⟩, _, ⟨htarget, rfl⟩, hsame⟩
    exact ⟨hsource, htarget, hsame⟩
  · rintro ⟨hsource, htarget, hsame⟩
    exact ⟨source, ⟨hsource, rfl⟩, target, ⟨htarget, rfl⟩, hsame⟩

/-- What is read back of the fields every transition has, and of those of its kind. -/
theorem readBack_transition (kind : String) {source target : JsValue}
    (rest : List (String × JsValue)) (hsource : readBackDefined source = source)
    (htarget : readBackDefined target = target) (hsourceDefined : source ≠ .undefined)
    (htargetDefined : target ≠ .undefined) :
    readBackDefined (.object (("kind", .string kind) :: ("from", source) :: ("to", target) :: rest)) =
      .object (("kind", .string kind) :: ("from", source) :: ("to", target) ::
        readBackFields rest) := by
  simp [readBackDefined, readBackFields_cons, hsource, htarget, hsourceDefined, htargetDefined,
    assign]

theorem readBack_single {key : String} (value : JsValue) (hkey : key ≠ "__proto__") :
    readBackFields [(key, value)] =
      if value = .undefined then [] else [(key, readBackDefined value)] := by
  by_cases hvalue : value = .undefined
  · simp [hvalue, readBackFields]
  · simp [hvalue, readBackFields_cons hvalue, readBackFields, assign, hkey]

/-- **The transitions that parse** after they were read back. -/
theorem parseSubscriptionTransition_iff (transition : SubscriptionTransition) :
    parseSubscriptionTransition (readBackDefined transition.toJs) = .ok verdict ↔
      Legal transition := by
  cases transition with
  | reset source target value =>
    rw [SubscriptionTransition.toJs, readBack_transition _ _ (by simp) (by simp) (by simp)
      (by simp), readBack_single value (by decide)]
    by_cases hvalue : value = .undefined
    · simp [hvalue, parseSubscriptionTransition, protocolObject, JsValue.get, lookup,
        Except.bind_eq_ok, Legal]
    · simp [hvalue, parseSubscriptionTransition, protocolObject, JsValue.get, lookup,
        Except.bind_eq_ok, Legal, readBackDefined_ne_undefined hvalue]
  | update source target value =>
    rw [SubscriptionTransition.toJs, readBack_transition _ _ (by simp) (by simp) (by simp)
      (by simp), readBack_single value (by decide)]
    by_cases hvalue : value = .undefined
    · simp [hvalue, parseSubscriptionTransition, protocolObject, JsValue.get, lookup,
        Except.bind_eq_ok, Legal]
    have hadvance : ∀ rest, parseAdvance (("kind", .string "update") ::
        ("from", source.toJs) :: ("to", target.toJs) :: rest) = .ok () ↔ _ :=
      fun rest => parseAdvance_eq_ok rfl rfl
    simp [hvalue, parseSubscriptionTransition, protocolObject, JsValue.get, lookup,
      Except.bind_eq_ok, Legal, readBackDefined_ne_undefined hvalue, hadvance]
  | checkpoint source target =>
    rw [SubscriptionTransition.toJs, readBack_transition _ _ (by simp) (by simp) (by simp)
      (by simp)]
    have hadvance : parseAdvance [("kind", .string "checkpoint"), ("from", source.toJs),
        ("to", target.toJs)] = .ok verdict ↔ _ := parseAdvance_eq_ok rfl rfl
    simp [parseSubscriptionTransition, protocolObject, JsValue.get, lookup,
      Except.bind_eq_ok, Legal, readBackFields, hadvance]
  | resume source target =>
    rw [SubscriptionTransition.toJs, readBack_transition _ _ (by simp) (by simp) (by simp)
      (by simp)]
    have hparse : parseSubscriptionTransition (.object [("kind", .string "resume"),
        ("from", source.toJs), ("to", target.toJs)]) = .ok verdict ↔
        (source.Valid ∧ target = source) ∧ target.Valid := by
      simp [parseSubscriptionTransition, protocolObject, JsValue.get, lookup,
        Except.bind_eq_ok]
    refine hparse.trans ⟨?_, ?_⟩
    · rintro ⟨⟨hvalid, rfl⟩, -⟩
      exact ⟨hvalid, rfl⟩
    · rintro ⟨hvalid, rfl⟩
      exact ⟨⟨hvalid, rfl⟩, hvalid⟩
  | revoked =>
    rw [SubscriptionTransition.toJs, readBack_transition _ _ (by simp) (by simp) (by simp)
      (by simp), readBack_single _ (by decide)]
    simp [parseSubscriptionTransition, protocolObject, JsValue.get, lookup,
      Except.bind_eq_ok, Legal]
  | applicationError source target error =>
    rw [SubscriptionTransition.toJs, readBack_transition _ _ (by simp) (by simp) (by simp)
      (by simp), readBack_single _ (by decide)]
    have hparse : parseSubscriptionTransition (.object [("kind", .string "application-error"),
        ("from", cursorOrNull source), ("to", target.toJs),
        ("error", readBackDefined error.toJs)]) = .ok verdict ↔
        (∀ cursor ∈ source, cursor.Valid) ∧ target.Valid ∧
          (∀ cursor ∈ source, SameStream cursor target) ∧ LegalError error := by
      simp [parseSubscriptionTransition, protocolObject, JsValue.get, lookup,
        Except.bind_eq_ok, parseApplicationError_readBack]
    refine hparse.trans ⟨?_, ?_⟩
    · rintro ⟨hsource, htarget, hsame, herror⟩
      exact ⟨fun cursor hcursor => ⟨hsource cursor hcursor, hsame cursor hcursor⟩, htarget, herror⟩
    · rintro ⟨hsource, htarget, herror⟩
      exact ⟨fun cursor hcursor => (hsource cursor hcursor).1, htarget,
        fun cursor hcursor => (hsource cursor hcursor).2, herror⟩

/-! ## Frames -/

/-- The frame is encoded, and what the client decodes of it parses. -/
def Accepted (frame : JsValue) : Prop :=
  ∃ text message, encode frame = .ok text ∧ decode text = .ok message ∧
    parseServerMessage message = .ok ()

/-- **A frame is accepted** when it can be encoded and what is read back parses. -/
theorem accepted_iff (frame : JsValue) :
    Accepted frame ↔ Encodable frame ∧ parseServerMessage (readBack frame) = .ok () := by
  constructor
  · rintro ⟨text, message, hencode, hdecode, hparse⟩
    have hencodable := (encode_eq_ok_iff frame).1 ⟨text, hencode⟩
    obtain ⟨text', hencode', hdecode'⟩ := decode_encode hencodable
    rw [hencode, Except.ok.injEq] at hencode'
    subst hencode'
    rw [hdecode, Except.ok.injEq] at hdecode'
    subst hdecode'
    exact ⟨hencodable, hparse⟩
  · rintro ⟨hencodable, hparse⟩
    obtain ⟨text, hencode, hdecode⟩ := decode_encode hencodable
    exact ⟨text, _, hencode, hdecode, hparse⟩

/-- **The frames that carry a transition** and are accepted. -/
theorem accepted_transitionMessage_iff (id : Nat) (transition : SubscriptionTransition) :
    Accepted (transitionMessage id transition) ↔
      Encodable transition.toJs ∧ (1 ≤ id ∧ id ≤ maxProtocolId) ∧ Legal transition := by
  have hdefined : transition.toJs ≠ .undefined := by
    cases transition <;> simp [SubscriptionTransition.toJs]
  have hread : readBack (transitionMessage id transition) = .object [("t", .string "transition"),
      ("id", .ofNat id), ("transition", readBackDefined transition.toJs)] := by
    simp [readBack, transitionMessage, readBackDefined, readBackFields, readBackFields_cons,
      hdefined, assign, JsValue.ofNat, JsNumber.zeroed]
  have hencodable : Encodable (transitionMessage id transition) ↔ Encodable transition.toJs := by
    simp [transitionMessage, Wire.Encodable, EncodableFields, JsValue.ofNat, JsNumber.isFinite]
  rw [accepted_iff, hread, hencodable]
  simp [parseServerMessage, frame, protocolObject, JsValue.get, lookup, Except.bind_eq_ok,
    parseSubscriptionTransition_iff]

end Protocol

end AckerDB
