import AckerDB.Lib.Turn
import AckerDB.Database.MutationReplay
import AckerDB.Subscriptions.Publication

/-!
# The commit coordinator

The single writer turn: the idempotency gate, the transaction, the durable version,
the replay record and the publication handoff.  The turn is a program over the
database, the ledger and the publication that throws where the source throws; the
variables of the source that its handler reads are part of the state.

What callbacks, the clock and storage do in a turn is part of the request: what
`work` returns, what the clock reads, and at most one point at which something
throws.  One is enough, since after a throw the turn only rolls back and cancels; a
`ROLLBACK` fails exactly when SQLite has given up the transaction by itself.

* `gate` — replay, conflict, and the admission window;
* `attempt`, `cleanup` — the body of the turn and its handler;
* `commit` — the whole turn.
-/

namespace AckerDB

open Protocol

namespace Coordinator

/-- `MAX_MUTATION_CLOCK_SKEW_MS`. -/
def maxMutationClockSkewMs : Int := 5 * 60000

/-- The settings the coordinator reads. -/
structure Limits where
  maxAgeMs : Nat
  maxResultBytes : Nat
  maxRecords : Nat
  maxBytes : Nat
  durability : DurabilityPolicy
  /-- The UTF-8 length of a text. -/
  byteLength : Json → Nat

/-- `IdempotencyIdentity`. -/
structure IdempotencyIdentity where
  sessionId : String
  requestId : String
  issuedAt : Nat
  principalFingerprint : String
  functionRef : String
  argsFingerprint : String
  deriving DecidableEq

/-- The statements of `prune`. -/
inductive PruneStatement where
  | select | begin | delete | update | commit
  deriving DecidableEq

/-- The points at which callbacks, abort checks and statements may throw. -/
inductive Site where
  | prune (batch : Nat) (statement : PruneStatement)
  | lookup
  | abortBegin | begin | work | abortWork | rollbackWhen
  | readVersion | beginRecord | allocateRecord | appendRecord | commitRecord
  | finalize | publicationBytes | allocate | append | publication | validate | abortCommit | commit
  | afterCommit
  deriving DecidableEq

/-- Something throws; a failing statement may make SQLite give up the transaction. -/
structure Fault where
  site : Site
  error : Thrown
  ends : Bool

/-- `CommitRequest`, with what its callbacks, the clock and storage do. -/
structure CommitRequest where
  idempotency : Option IdempotencyIdentity
  /-- What `work` returns. -/
  value : JsValue
  /-- Whether `work` marked its result as one-time. -/
  oneTime : Bool := false
  /-- What `rollbackWhen` says of the value. -/
  handled : Bool := false
  /-- The size of the writes, and what `publication` makes of them. -/
  writeBytes : Nat := 0
  writeKeys : List String := []
  fault : Option Fault := none
  /-- What the clock reads when expired records are pruned, at the gate and at the staging. -/
  pruneAt : Int
  gateAt : Int
  stageAt : Int

/-- `CommitResult`. -/
structure CommitResult where
  value : JsValue
  commitVersion : Nat
  durability : DurabilityPolicy
  replayed : Bool
  publication : Option (List String) := none
  deriving DecidableEq

/-- `CommitCoordinator`, with the storage and the publication it works on, and with the
variables of the turn.  `firstError` and `rollbackFailed` record what the turn threw first and
whether a `ROLLBACK` failed. -/
structure Writer where
  db : Database := {}
  ledger : MutationReplayLedger := {}
  publication : OrderedPublication (List String)
  nextPruneAtMs : Int := 0
  transactionOpen : Bool := false
  committed : Bool := false
  firstError : Option Thrown := none
  rollbackFailed : Bool := false

/-- A part of a turn. -/
abbrev Step := Turn Writer Thrown

variable (limits : Limits) (request : CommitRequest)

/-! ## Throwing -/

/-- Throw an error; the first one of the turn is remembered. -/
def fail {α : Type} (error : Thrown) : Step α := do
  modify fun s => { s with firstError := s.firstError <|> some error }
  throw error

/-- A point at which something may throw. -/
def at_ (site : Site) : Step Unit :=
  match request.fault with
  | some fault =>
    if fault.site = site then do
      modify fun s => if fault.ends then { s with db := s.db.abandon } else s
      fail fault.error
    else pure ()
  | none => pure ()

/-- Code that throws by itself. -/
def lift {α : Type} : Except Thrown α → Step α
  | .ok a => pure a
  | .error error => fail error

/-- A statement that opens or closes a transaction. -/
def exec (statement : Database → Except Thrown Database) : Step Unit := do
  let s ← get
  let db ← lift (statement s.db)
  modify fun s => { s with db }

/-- `ROLLBACK`. -/
def rollback : Step Unit :=
  tryCatch (exec Database.rollback) fun error => do
    modify fun s => { s with rollbackFailed := true }
    throw error

/-- `reservation.cancel()`. -/
def cancel (slot : Nat) : Step Unit := do
  let s ← get
  let publication ← lift (s.publication.cancelSlot slot)
  modify fun s => { s with publication }

/-! ## The idempotency gate -/

/-- The error of a prefix that changed while it was pruned. -/
def corruptPrefix : Thrown := .foreign "mutation replay prefix changed during pruning"

/-- The statements of `prune` inside its transaction. -/
def prunePrefix (batch : Nat) (expired : List StoredMutation) (last : Nat) : Step Unit := do
  at_ request (.prune batch .delete)
  let s ← get
  let kept := (s.db.tables.deleteThrough last).mutations.length
  modify fun s => { s with db := s.db.update fun tables => tables.deleteThrough last }
  if s.db.tables.mutations.length - kept ≠ expired.length then fail corruptPrefix
  else do
    at_ request (.prune batch .update)
    modify fun s => { s with db := s.db.update fun tables => tables.uncount expired }
    at_ request (.prune batch .commit)
    exec Database.commit

/-- `prune`: how many rows it removed. -/
def prune (batch : Nat) (completedBefore : Int) : Step Nat := do
  at_ request (.prune batch .select)
  let s ← get
  let expired := s.db.tables.expiredPrefix completedBefore 1000
  match expired.getLast? with
  | none => return 0
  | some last => do
      at_ request (.prune batch .begin)
      exec Database.begin
      tryCatch (prunePrefix request batch expired last.sequence) fun error => do
        rollback
        throw error
      modify fun s => { s with ledger := s.ledger.forget expired }
      return expired.length

/-- The loop of `pruneExpiredMutations`; a batch that does not end it removes rows, so that their
number bounds the batches. -/
def pruneBatches (completedBefore : Int) : Nat → Nat → Step Unit
  | 0, _ => pure ()
  | fuel + 1, batch => do
      let removed ← prune request batch completedBefore
      if removed < 1000 then pure () else pruneBatches completedBefore fuel (batch + 1)

/-- `pruneExpiredMutations`. -/
def pruneExpiredMutations : Step Unit := do
  let s ← get
  if request.pruneAt < s.nextPruneAtMs then pure ()
  else do
    modify fun s => { s with nextPruneAtMs := request.pruneAt + 60000 }
    pruneBatches request (request.pruneAt - limits.maxAgeMs) (s.db.tables.mutations.length + 1) 0

/-- `sameIdentity`. -/
def sameIdentity (stored : StoredMutation) (incoming : IdempotencyIdentity) : Bool :=
  stored.issuedAt = incoming.issuedAt &&
    stored.principalFingerprint = incoming.principalFingerprint &&
    stored.functionRef = incoming.functionRef && stored.argsFingerprint = incoming.argsFingerprint

section

variable (identity : IdempotencyIdentity)

/-- The answer to a request whose mutation is in the ledger. -/
def replay (stored : StoredMutation) :
    Except Thrown CommitResult :=
  if !sameIdentity stored identity then
    .error (conflict "mutation request ID was already used with different semantics")
  else
    match stored.resultDisposition, stored.result with
    | .replayable, some text =>
      match Wire.decode text with
      | .ok value =>
        .ok { value, commitVersion := stored.commitVersion, durability := stored.durability
              replayed := true }
      | .error error => .error (.js error)
    | _, _ => .error (conflict "mutation committed, but its one-time result is no longer available")

/-- The admission window. -/
def checkWindow (now : Int) (identity : IdempotencyIdentity) (records : Int) : Except Thrown Unit :=
  match uuidV7Timestamp identity.requestId with
  | .error error => .error (.js error)
  | .ok requestCreatedAt =>
    if (requestCreatedAt : Int) > now + maxMutationClockSkewMs then
      .error (invalid "mutation request ID timestamp is in the future")
    else if (requestCreatedAt : Int) < now - limits.maxAgeMs then
      .error (conflict "mutation request is outside the retained replay window")
    else if records ≥ limits.maxRecords then .error replayFull
    else .ok ()

/-- The gate: the answer of an earlier execution, or nothing when the request may execute. -/
def gate : Step (Option CommitResult) := do
  if identity.issuedAt > maxSafeInteger then
    fail (invalid "mutation issuedAt must be a non-negative safe integer")
  else do
    pruneExpiredMutations limits request
    at_ request .lookup
    let s ← get
    let stored ← lift (s.ledger.lookup s.db.tables identity.sessionId identity.requestId)
    match stored with
    | some stored => do
        let result ← lift (replay identity stored)
        return some result
    | none => do
        lift (checkWindow limits request.gateAt identity s.ledger.recordCount)
        return none

/-! ## The turn -/

/-- The text of the result that is recorded, and its size. -/
def recordedResult : Except Thrown (Option Json × Nat) :=
  if request.oneTime then .ok (none, 0)
  else
    match Wire.encode request.value with
    | .ok text => .ok (some text, limits.byteLength text)
    | .error error => .error (.js error)

/-- The checks of the size of a recorded result. -/
def checkCapacity (resultBytes : Nat) : Step Unit := do
  let s ← get
  if resultBytes > limits.maxResultBytes then fail resultTooLarge
  else if (resultBytes : Int) > limits.maxBytes - s.ledger.byteCount then fail replayFull
  else pure ()

/-- The record of a mutation. -/
def newRecord (result : Option Json) (resultBytes : Nat) :
    NewStoredMutation where
  sessionId := identity.sessionId
  requestId := identity.requestId
  issuedAt := identity.issuedAt
  principalFingerprint := identity.principalFingerprint
  functionRef := identity.functionRef
  argsFingerprint := identity.argsFingerprint
  resultDisposition := if request.oneTime then .oneTime else .replayable
  result := result
  resultBytes := resultBytes
  durability := limits.durability

/-- `stage`. -/
def stage (allocating appending : Site) (allocation : Allocation) (record : NewStoredMutation) :
    Step StoredMutation := do
  let s ← get
  lift (s.ledger.assertStageable record)
  at_ request allocating
  modify fun s =>
    { s with db := s.db.update fun tables => tables.allocateMutation record.resultBytes allocation }
  at_ request appending
  let s ← get
  let row := s.ledger.stagedRow s.db.tables record request.stageAt
  modify fun s => { s with db := s.db.update fun tables => tables.append row }
  return row

/-- The transaction that stores the record of a handled outcome. -/
def storeRecord (record : NewStoredMutation) : Step StoredMutation := do
  at_ request .beginRecord
  exec Database.begin
  modify fun s => { s with transactionOpen := true }
  let row ← stage request .allocateRecord .appendRecord .replay record
  at_ request .commitRecord
  exec Database.commit
  modify fun s => { s with transactionOpen := false, ledger := s.ledger.committed row }
  return row

/-- The handler of that transaction. -/
def rollbackRecord (error : Thrown) : Step StoredMutation := do
  let s ← get
  if s.transactionOpen then do
    rollback
    modify fun s => { s with transactionOpen := false }
  throw error

/-- The record of a handled outcome, and its version. -/
def recordHandled : Step Nat := do
  let result ← lift (recordedResult limits request)
  checkCapacity limits result.2
  let row ← tryCatch (storeRecord request (newRecord limits request identity result.1 result.2))
    rollbackRecord
  return row.commitVersion

end

/-- The handled-error path up to the release of its reservation. -/
def closeHandled (slot : Nat) : Step Unit := do
  rollback
  modify fun s => { s with transactionOpen := false }
  cancel slot

/-- The rest of the handled-error path: the version, and the record of the outcome. -/
def recordOutcome : Step Nat := do
  at_ request .readVersion
  match request.idempotency with
  | some identity => recordHandled limits request identity
  | none => do
      let s ← get
      return s.db.tables.commitVersion

/-- The handled-error path: the work is rolled back, and its outcome may be recorded. -/
def handledError (slot : Nat) : Step CommitResult := do
  closeHandled slot
  let commitVersion ← recordOutcome limits request
  return { value := request.value, commitVersion, durability := limits.durability
           replayed := false }

/-- The durable version of a commit, and its record. -/
def allocateVersion : Step (Nat × Option StoredMutation) :=
  match request.idempotency with
  | some identity => do
      let result ← lift (recordedResult limits request)
      checkCapacity limits result.2
      let row ← stage request .allocate .append .commit
        (newRecord limits request identity result.1 result.2)
      return (row.commitVersion, some row)
  | none => do
      at_ request .allocate
      modify fun s => { s with db := s.db.update Tables.allocateCommitVersion }
      let s ← get
      return (s.db.tables.commitVersion, none)

/-- `reservation.resize(…)`. -/
def resize (slot bytes : Nat) : Step Unit := do
  let s ← get
  let publication ← lift (s.publication.resizeSlot slot bytes)
  modify fun s => { s with publication }

/-- The turn up to and including `COMMIT`. -/
def commitWork (slot version : Nat) : Step (Nat × Option StoredMutation) := do
  at_ request .finalize
  at_ request .publicationBytes
  resize slot request.writeBytes
  let allocated ← allocateVersion limits request
  if allocated.1 ≠ version then fail diverged
  else do
    at_ request .publication
    at_ request .validate
    at_ request .abortCommit
    at_ request .commit
    exec Database.commit
    modify fun s => { s with transactionOpen := false, committed := true }
    return allocated

/-- The handoff after `COMMIT`. -/
def handOff (slot commitVersion : Nat) (row : Option StoredMutation) : Step CommitResult := do
  at_ request .afterCommit
  modify fun s => { s with ledger := row.elim s.ledger s.ledger.committed }
  let s ← get
  let publication ← lift (s.publication.commitSlot slot request.writeKeys)
  modify fun s => { s with publication }
  return { value := request.value, commitVersion, durability := limits.durability
           replayed := false, publication := some request.writeKeys }

/-- What `work` writes. -/
def applyWork (tables : Tables) : Tables :=
  { tables with effects := tables.effects ++
      (request.idempotency.map fun id => (id.sessionId, id.requestId)).toList }

/-- The transaction of `work`, up to the decision about its outcome. -/
def runWork : Step Unit := do
  at_ request .abortBegin
  at_ request .begin
  exec Database.begin
  modify fun s => { s with transactionOpen := true }
  modify fun s => { s with db := s.db.update (applyWork request) }
  at_ request .work
  at_ request .abortWork
  at_ request .rollbackWhen

/-- The body of the turn. -/
def attempt (slot version : Nat) : Step CommitResult := do
  runWork request
  if request.handled then handledError limits request slot
  else do
    let allocated ← commitWork limits request slot version
    handOff limits request slot allocated.1 allocated.2

/-- Roll back an open transaction: whether that failed. -/
def rollbackOpen : Step Bool := do
  let s ← get
  if s.transactionOpen then
    tryCatch (do
      rollback
      modify fun s => { s with transactionOpen := false }
      return false) fun _ => pure true
  else return false

/-- The handler of the turn. -/
def cleanup (slot : Nat) (error : Thrown) : Step CommitResult := do
  let s ← get
  if s.committed then throw error
  else do
    let rollbackFailed ← rollbackOpen
    cancel slot
    if rollbackFailed then fail indeterminate else throw error

/-- The part of `commit` that owns a reservation. -/
def transact : Step CommitResult := do
  let s ← get
  let version := s.publication.committedHighWater + 1
  let reserved ← lift (s.publication.reserve 0 request.gateAt)
  modify fun s => { s with publication := reserved.1 }
  tryCatch (attempt limits request reserved.2 version) (cleanup reserved.2)

/-- The variables of a new turn. -/
def begun (s : Writer) : Writer :=
  { s with transactionOpen := false, committed := false, firstError := none
           rollbackFailed := false }

/-- A turn up to the end of the gate, which is for requests with an identity. -/
def gated : Step (Option CommitResult) := do
  modify begun
  match request.idempotency with
  | none => return none
  | some identity => gate limits request identity

/-- `commit`. -/
def commit : Step CommitResult := do
  let replayed ← gated limits request
  match replayed with
  | some result => return result
  | none => transact limits request

/-! ## A writer to start from -/

/-- A day of replay, and room for a few records. -/
def sampleLimits : Limits where
  maxAgeMs := 24 * 60 * 60 * 1000
  maxResultBytes := 1024
  maxRecords := 16
  maxBytes := 4096
  durability := .production
  byteLength := fun _ => 4

/-- The identity of a request whose id was made at a time close to the epoch. -/
def sampleIdentity : IdempotencyIdentity where
  sessionId := "session"
  requestId := "00000004-93e0-7000-8000-000000000000"
  issuedAt := 0
  principalFingerprint := "anonymous"
  functionRef := "notes.add"
  argsFingerprint := "args"

/-- A writer on empty storage. -/
def freshWriter : Writer := { publication := .initial { maxItems := 4, maxBytes := 1024 } 0 }

end Coordinator

end AckerDB
