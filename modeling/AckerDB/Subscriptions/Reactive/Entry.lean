import AckerDB.Subscriptions.Publication
import AckerDB.Subscriptions.Reactive.History

/-!
# Shared query entries

What one live query keeps on the server, and the parts of its life that read and
write nothing else: taking over a finished evaluation, and choosing the
transitions that bring a listener from its cursor to the entry.

* `installResult` — the assignments of `installEvaluation` and the record it retains;
* `deliverQuery` — the transitions of one delivery, chosen when it is called.
-/

namespace AckerDB

open Protocol

namespace Reactive

/-- The key of a shared entry: address, canonical arguments and policy scope. -/
structure QueryKey where
  address : String
  encodedArgs : Json
  policyScopeFingerprint : String
  deriving DecidableEq

/-- The settings of an `OrderedReactive`. -/
structure ReactiveOptions where
  maxSharedSubscriptions : Nat
  maxSharedResultBytes : Nat
  maxFrameBytes : Nat
  resume : ResumeLimits
  publication : CapacityLimits
  initialVersion : Nat
  /-- The results of `nextGeneration`, in the order of its calls. -/
  nextGeneration : Nat → String
  /-- The digest of a key. -/
  identity : QueryKey → String
  /-- The UTF-8 length of a text. -/
  byteLength : Json → Nat
  /-- `generation()` lets only bounded strings through. -/
  nextGeneration_bounded : ∀ n, 0 < jsLength (nextGeneration n) ∧ jsLength (nextGeneration n) ≤ 512
  identity_bounded : ∀ key, 0 < jsLength (identity key) ∧ jsLength (identity key) ≤ 512

/-- `QueryEvaluation`. -/
structure QueryEvaluation where
  value : JsValue
  applicationError : Option ApplicationError
  encoded : Json
  readSet : List String
  commitVersion : Nat

/-- The value a query result puts on the wire. -/
def wireValue : Result → JsValue
  | .ok value => value
  | .err error => error.toJs

/-- `RuntimeQueries.encode`: the evaluation of a query result at a snapshot. -/
def encodeExecution (result : Result) (readSet : List String) (commitVersion : Nat) :
    Except JsError QueryEvaluation := do
  let encoded ← Wire.encode (wireValue result)
  return match result with
    | .ok value => { value, applicationError := none, encoded, readSet, commitVersion }
    | .err error =>
      { value := .undefined, applicationError := some error, encoded, readSet, commitVersion }

/-- `QueryEntry`; its retained history is kept in the history. -/
structure QueryEntry where
  key : QueryKey
  identity : String
  generation : String
  readSet : List String := []
  /-- The listeners, in the order they were attached. -/
  listeners : List Nat := []
  initialized : Bool := false
  value : JsValue := .undefined
  applicationError : Option ApplicationError := none
  encoded : Json := .null
  resultBytes : Nat := 0
  commitVersion : Nat := 0
  dirtyVersion : Nat := 0
  evaluationGeneration : Nat := 0
  /-- The evaluation in flight. -/
  evaluation : Option Nat := none
  dormantAtMs : Option Int := none
  removed : Bool := false

namespace QueryEntry

variable (entry : QueryEntry)

/-- What the entry holds: an application error, or else a value. -/
def outcome : Result :=
  match entry.applicationError with
  | some error => .err error
  | none => .ok entry.value

/-- `cursor`. -/
def cursor (authEpoch : Nat) : SubscriptionCursor where
  generation := entry.generation
  commitVersion := entry.commitVersion
  authEpoch := authEpoch
  identity := entry.identity

/-- `cursorBelongsTo`. -/
def cursorBelongsTo (cursor : SubscriptionCursor) (entry : QueryEntry) (authEpoch : Nat) : Bool :=
  cursor.generation = entry.generation && cursor.identity = entry.identity &&
    cursor.authEpoch = authEpoch

/-- `changed`, in `installEvaluation`. -/
def changedBy (evaluated : QueryEvaluation) : Bool :=
  !entry.initialized || entry.encoded != evaluated.encoded ||
    entry.applicationError.isNone != evaluated.applicationError.isNone

/-- The entry after it took over an evaluation; `generation` is its own or a fresh one. -/
def take (evaluated : QueryEvaluation) (resultBytes : Nat)
    (generation : String) : QueryEntry :=
  { entry with
    readSet := evaluated.readSet
    value := evaluated.value
    applicationError := evaluated.applicationError
    encoded := evaluated.encoded
    resultBytes := resultBytes
    commitVersion := evaluated.commitVersion
    initialized := true
    generation := generation }

end QueryEntry

/-- The transition a changed or unchanged evaluation leaves in the history. -/
def historyChange (entry : QueryEntry) (evaluated : QueryEvaluation) : HistoryChange :=
  if entry.changedBy evaluated then
    match evaluated.applicationError with
    | some error => .applicationError error
    | none => .value evaluated.value
  else .checkpoint

/-- The record `installEvaluation` asks the history to retain. -/
def historyRecord (uid id : Nat) (entry : QueryEntry) (evaluated : QueryEvaluation)
    (resultBytes : Nat) (now : Int) : HistoryRecord where
  uid := uid
  entry := id
  fromVersion := entry.commitVersion
  toVersion := evaluated.commitVersion
  change := historyChange entry evaluated
  bytes := if entry.changedBy evaluated then resultBytes else 32
  createdAtMs := now

/-- What taking over an evaluation yields. -/
structure Installed where
  entry : QueryEntry
  history : TransitionHistory
  /-- `previousVersion`: the version the entry had, if it was initialized. -/
  previousVersion : Option Nat
  forceReset : Bool

/-- The second half of `installEvaluation`, once there is room for the result. -/
def installResult (uid id : Nat) (entry : QueryEntry) (history : TransitionHistory)
    (evaluated : QueryEvaluation) (resultBytes : Nat) (fresh : String) (now : Int) : Installed :=
  if entry.initialized ∧ evaluated.commitVersion > entry.commitVersion then
    match history.retain (historyRecord uid id entry evaluated resultBytes now) with
    | (history, true) =>
      { entry := entry.take evaluated resultBytes entry.generation, history
        previousVersion := some entry.commitVersion, forceReset := false }
    | (history, false) =>
      -- the window is broken: nobody may resume through the old generation
      { entry := entry.take evaluated resultBytes fresh, history
        previousVersion := some entry.commitVersion, forceReset := true }
  else
    { entry := entry.take evaluated resultBytes entry.generation, history
      previousVersion := if entry.initialized then some entry.commitVersion else none
      forceReset := false }

theorem encodeExecution_eq_ok {result : Result} {readSet : List String} {commitVersion : Nat}
    {evaluation : QueryEvaluation}
    (h : encodeExecution result readSet commitVersion = .ok evaluation) :
    evaluation.readSet = readSet ∧ evaluation.commitVersion = commitVersion ∧
      ∀ (entry : QueryEntry) bytes generation,
        (entry.take evaluation bytes generation).outcome = result := by
  rw [encodeExecution, Except.bind_eq_ok] at h
  obtain ⟨encoded, -, h⟩ := h
  cases result <;> cases h <;> exact ⟨rfl, rfl, fun _ _ _ => rfl⟩

theorem installResult_entry (uid id : Nat) (entry : QueryEntry) (history : TransitionHistory)
    (evaluated : QueryEvaluation) (bytes : Nat) (fresh : String) (now : Int) :
    ∃ generation, (installResult uid id entry history evaluated bytes fresh now).entry =
      entry.take evaluated bytes generation := by
  unfold installResult
  split
  · split
    · exact ⟨entry.generation, rfl⟩
    · exact ⟨fresh, rfl⟩
  · exact ⟨entry.generation, rfl⟩

/-! ## Deliveries -/

/-- The transitions of a chain of records, from a cursor on. -/
def chainTransitions (cursor : SubscriptionCursor) : List HistoryRecord → List SubscriptionTransition
  | [] => []
  | record :: rest =>
    let target := { cursor with commitVersion := record.toVersion }
    (match record.change with
      | .value value => .update cursor target value
      | .applicationError error => .applicationError (some cursor) target error
      | .checkpoint => .checkpoint cursor target) :: chainTransitions target rest

/-- The transition that states the outcome of the entry as a whole. -/
def QueryEntry.statement (entry : QueryEntry) (authEpoch : Nat)
    (source : Option SubscriptionCursor) : SubscriptionTransition :=
  match entry.applicationError with
  | none => .reset source (entry.cursor authEpoch) entry.value
  | some error => .applicationError source (entry.cursor authEpoch) error

/-- The retained chain a listener resumes through, if it may. -/
def resumeChain (history : TransitionHistory) (id : Nat) (entry : QueryEntry) (authEpoch : Nat)
    (source : Option SubscriptionCursor) (forceReset : Bool) :
    Option (SubscriptionCursor × List HistoryRecord) := do
  let cursor ← source
  guard (!forceReset && entry.cursorBelongsTo cursor authEpoch)
  let chain ← history.chain id cursor.commitVersion entry.commitVersion
  return (cursor, chain)

theorem resumeChain_eq_some {history : TransitionHistory} {id : Nat} {entry : QueryEntry}
    {authEpoch : Nat} {source : Option SubscriptionCursor} {forceReset : Bool}
    {cursor : SubscriptionCursor} {chain : List HistoryRecord}
    (h : resumeChain history id entry authEpoch source forceReset = some (cursor, chain)) :
    source = some cursor ∧ forceReset = false ∧ entry.cursorBelongsTo cursor authEpoch = true ∧
      history.chain id cursor.commitVersion entry.commitVersion = some chain := by
  simp only [resumeChain, Option.bind_eq_bind, Option.bind_eq_some_iff] at h
  obtain ⟨found, hsource, _, hguard, records, hchain, hreturn⟩ := h
  cases hreturn
  simp only [guard] at hguard
  split at hguard
  · rename_i hresumes
    simp only [Bool.and_eq_true, Bool.not_eq_true'] at hresumes
    exact ⟨hsource, hresumes.1, hresumes.2, hchain⟩
  · cases hguard

/-- `deliverQuery`: the transitions a delivery sends, one after another. -/
def deliverQuery (history : TransitionHistory) (id : Nat) (entry : QueryEntry) (authEpoch : Nat)
    (source : Option SubscriptionCursor) (positiveResume forceReset : Bool) :
    List SubscriptionTransition :=
  let target := entry.cursor authEpoch
  if source = some target then
    if positiveResume then [.resume target target] else []
  else
    match resumeChain history id entry authEpoch source forceReset with
    | some (cursor, chain) => chainTransitions cursor chain
    | none => [entry.statement authEpoch source]

/-- `reset`: the transition that answers a reset request. -/
def resetTransition (entry : QueryEntry) (authEpoch : Nat) (source : SubscriptionCursor) :
    SubscriptionTransition :=
  .reset (some source) (entry.cursor authEpoch) entry.value

end Reactive

end AckerDB
