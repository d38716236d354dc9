import AckerDB.Runtime.Jobs.Journal

/-!
# The transactions of the job runner

Every transition of a Job is one writer transaction over the two tables.  A transaction that throws
is rolled back; here it is `none`, or an error.

* `enqueueWith`, `openRun`, `settleJobIn`, `settleFailureIn`, `mintRepeat` — the building blocks;
* `claimScan`, `claimIn` — the claim, with the inline run of a mutation-kind Job;
* `recoverIn`, `reapIn`, `cancelIn`, `retryIn`, `forceRunAgainIn`, `rescheduleIn` — the rest.
-/

namespace AckerDB.Jobs

/-! ## Outcomes -/

/-- `JobRunOutcome`. -/
inductive JobRunOutcome where
  | ok (value : JsValue)
  | error (state : JobState) (error : JobError) (nextRetryAt : Option Millis)

/-- The event of a notification. -/
inductive NotificationEvent where
  | settled | retried | failed | canceled | slept
  deriving DecidableEq

/-- `Notification`. -/
structure Notification where
  id : Nat
  event : NotificationEvent
  outcome : JobRunOutcome

/-- `TerminalOutcome`. -/
inductive TerminalOutcome where
  | completed (outputJson : Json)
  | failed (error : JobError)
  | canceled

/-- The state of the Job. -/
def TerminalOutcome.jobState : TerminalOutcome → JobState
  | completed _ => .completed
  | failed _ => .failed
  | canceled => .canceled

/-- The state of its run. -/
def TerminalOutcome.runState : TerminalOutcome → JobRunState
  | completed _ => .completed
  | failed _ => .failed
  | canceled => .canceled

/-- `describeError`, with `MAX_STORED_ERROR_LENGTH`. -/
def describeError (error : JobError) : String :=
  if 512 < jsLength error.text then String.ofList (error.text.toList.take 511) ++ "…"
  else error.text

/-- What a handler leaves: a value, or an error it returned or threw. -/
inductive HandlerOutcome where
  | value (value : JsValue)
  | error (error : JobError)

/-! ## Retention -/

/-- `window`. -/
def window : JobWindow → Millis → Option Millis
  | .forever, _ => none
  | .millis value, now => some (now + value)

/-- The longer of two windows. -/
def JobWindow.longer : JobWindow → JobWindow → JobWindow
  | .millis a, .millis b => .millis (max a b)
  | _, _ => .forever

/-- `retentionStamp`. -/
def retentionStamp (definition : Option Job) (outcome : TerminalOutcome) (now : Millis) :
    Option Millis :=
  match definition with
  | none => window defaultJobRetention now
  | some job =>
    match job.dedupe, outcome with
    | none, _ | _, .canceled => window job.retention now
    | some dedupe, .completed _ => window (job.retention.longer dedupe.completed) now
    | some dedupe, .failed _ => window (job.retention.longer dedupe.failed) now

/-- `definition?.retention ?? DEFAULT_JOB_RETENTION_MS`. -/
def retentionOf (definition : Option Job) : JobWindow :=
  (definition.map Job.retention).getD defaultJobRetention

/-! ## Admission -/

/-- What `insertJob` is given. -/
structure Admission where
  name : String
  argsJson : Json
  argsHash : String
  key : Option String
  /-- `at`. -/
  dueAt : Millis
  now : Millis
  trigger : JobTrigger
  parentJobId : Option Nat

/-- The row `insertJob` inserts. -/
def Admission.row (job : Admission) (id : Nat) : JobRow where
  id := id
  name := job.name
  argsJson := job.argsJson
  argsHash := job.argsHash
  key := job.key
  state := .pending
  trigger := job.trigger
  parentJobId := job.parentJobId
  scheduledAt := job.dueAt
  nextRunAt := job.dueAt
  runCount := 0
  nextRunTrigger := none
  stepsJson := some (.entries [])
  enqueuedAt := job.now
  settledAt := none
  deleteAfter := none

/-- `insertJob`. -/
def insertJob (t : Tables) (job : Admission) : Tables :=
  { t with jobs := t.jobs.insert job.row }

/-- `JobEnqueueOptions`. -/
structure EnqueueOptions where
  /-- `at`. -/
  dueAt : Option JsNumber := none
  delayMs : Option JsNumber := none

/-- The finite number. -/
def finite? : JsNumber → Option Millis
  | .finite q => some q
  | .negZero => some 0
  | _ => none

/-- `at ?? (delayMs !== undefined ? now + delayMs : now)`, if it is finite. -/
def EnqueueOptions.due? (options : EnqueueOptions) (now : Millis) : Option Millis :=
  match options.dueAt, options.delayMs with
  | some dueAt, _ => finite? dueAt
  | none, some delay => (finite? delay).map fun delay => now + delay
  | none, none => some now

/-- The settled Job is still inside of its window. -/
def insideWindow (window : JobWindow) (job : JobRow) (now : Millis) : Bool :=
  match window, job.settledAt with
  | _, none => false
  | .millis value, some settledAt => value ≠ 0 ∧ now < settledAt + value
  | .forever, some _ => true

/-- `dedupeJob`. -/
def dedupeJob (t : Tables) (dedupe : Dedupe) (name argsHash : String) (now : Millis) :
    Option JobRow :=
  match t.liveFor name argsHash with
  | some live => some live
  | none =>
    let completed := (t.newestSettledFor name argsHash .completed).filter fun job =>
      insideWindow dedupe.completed job now
    let failed := (t.newestSettledFor name argsHash .failed).filter fun job =>
      insideWindow dedupe.failed job now
    match completed, failed with
    | some a, some b =>
      if a.settledAt.getD 0 < b.settledAt.getD 0 ∨
          (b.settledAt = a.settledAt ∧ a.id < b.id) then some b
      else some a
    | some a, none => some a
    | none, b => b

/-- `JobHandle`. -/
structure JobHandle where
  id : Nat
  deduped : Bool

variable (options : Options)

/-- `enqueueWith`. -/
def enqueueWith (t : Tables) (name : String) (args : JsValue)
    (enqueue : EnqueueOptions) (trigger : JobTrigger) (now : Millis) :
    Except JsError (Tables × JobHandle) := do
  match options.definition name with
  | none => .error (.error ("unknown job \"" ++ name ++ "\""))
  | some definition => do
      let validated ← definition.validateArgs args
      let argsJson ← Wire.stableEncode validated
      let argsHash := options.hashJobArgs argsJson
      match definition.dedupe.bind fun dedupe => dedupeJob t dedupe name argsHash now with
      | some existing => return (t, ⟨existing.id, true⟩)
      | none =>
        match enqueue.due? now with
        | none => .error (.validationError ("jobs." ++ name ++
            ": enqueue at/delayMs must be finite milliseconds"))
        | some dueAt =>
          let key := definition.key.map fun key => key validated
          return (insertJob t ⟨name, argsJson, argsHash, key, dueAt, now, trigger, none⟩,
            ⟨t.jobs.next, false⟩)

/-- The enqueues of a handler that runs in the transaction. -/
structure EnqueueCall where
  name : String
  args : JsValue
  enqueue : EnqueueOptions
  now : Millis

/-- The writes of a handler. -/
def applyWrites (options : Options) : Tables → List EnqueueCall → Except JsError Tables
  | t, [] => .ok t
  | t, call :: rest => do
      let (t, _) ← enqueueWith options t call.name call.args call.enqueue .enqueue call.now
      applyWrites options t rest

/-! ## Settlement -/

section

variable (t : Tables)

/-- `mintRepeat`. -/
def mintRepeat (job : JobRow) (now : Millis) : Tables :=
  match (options.definition job.name).bind Job.recurrence with
  | none => t
  | some recurrence =>
    match recurrence job.scheduledAt now with
    | .value dueAt =>
      if (t.liveFor job.name job.argsHash).isSome then t
      else insertJob t ⟨job.name, job.argsJson, job.argsHash, job.key, dueAt, now, .repeated,
        some job.id⟩
    | _ => t

/-- What a settlement records on the run. -/
def settleRun (outcome : TerminalOutcome) (now : Millis) (deleteAfter : Option Millis)
    (run : JobRunRow) : JobRunRow :=
  { run with
    state := outcome.runState
    settledAt := some now
    outputJson := match outcome with
      | .completed outputJson => some outputJson
      | _ => none
    errorCode := match outcome with
      | .failed error => some error.code
      | _ => none
    errorText := match outcome with
      | .failed error => some (describeError error)
      | _ => none
    leaseToken := none
    leaseUntil := none
    deleteAfter := deleteAfter }

/-- What a settlement records on the Job. -/
def settleJob (outcome : TerminalOutcome) (now : Millis) (deleteAfter : Option Millis)
    (job : JobRow) : JobRow :=
  { job with
    state := outcome.jobState
    nextRunTrigger := none
    settledAt := some now
    deleteAfter := deleteAfter }

/-- `settleJobIn`. -/
def settleJobIn (job : JobRow) (run : Option JobRunRow)
    (outcome : TerminalOutcome) (now : Millis) : Option Tables := do
  let deleteAfter := retentionStamp (options.definition job.name) outcome now
  let t ← match run with
    | some run =>
      if run.state = .running then t.patchRun run.id (settleRun outcome now deleteAfter) else some t
    | none => some t
  let t ← t.patchJob job.id (settleJob outcome now deleteAfter)
  return mintRepeat options t job now

/-- The two readings of the clock in a settlement that may retry. -/
structure Readings where
  now : Millis
  settledAt : Millis

/-- The delay the retry policy asks for. -/
def retryDelay (definition : Option Job) (number : Nat) (error : JobError) : Option Millis :=
  match definition with
  | none => none
  | some job =>
    if error.refusal then none
    else
      match job.retry number error with
      | .value delay => if 0 ≤ delay then some delay else none
      | _ => none

/-- What a failure that will be retried records on the run. -/
def failRun (error : JobError) (now : Millis) (deleteAfter : Option Millis) (run : JobRunRow) :
    JobRunRow :=
  { run with
    state := .failed
    settledAt := some now
    errorCode := some error.code
    errorText := some (describeError error)
    leaseToken := none
    leaseUntil := none
    deleteAfter := deleteAfter }

/-- What it records on the Job. -/
def retryJob (nextRetryAt : Millis) (job : JobRow) : JobRow :=
  { job with state := .retrying, nextRunAt := nextRetryAt, nextRunTrigger := none }

section

variable (job : JobRow)

/-- `settleFailureIn`. -/
def settleFailureIn (run : JobRunRow)
    (error : JobError) (clock : Readings) : Option (Tables × Notification) :=
  let definition := options.definition job.name
  match retryDelay definition run.number error with
  | some delay => do
      let nextRetryAt := clock.now + delay
      let t ← t.patchRun run.id (failRun error clock.now (window (retentionOf definition) clock.now))
      let t ← t.patchJob job.id (retryJob nextRetryAt)
      return (t, ⟨job.id, .retried, .error .retrying error (some nextRetryAt)⟩)
  | none => do
      let t ← settleJobIn options t job (some run) (.failed error) clock.settledAt
      return (t, ⟨job.id, .failed, .error .failed error none⟩)

/-- `settleSuccessIn`: a value that cannot be encoded is a failure. -/
def settleSuccessIn (run : JobRunRow)
    (value : JsValue) (clock : Readings) : Option (Tables × Notification) :=
  match Wire.stableEncode value with
  | .error error => settleFailureIn options t job run (options.encodeFailure error) clock
  | .ok outputJson => do
      let t ← settleJobIn options t job (some run) (.completed outputJson) clock.settledAt
      return (t, ⟨job.id, .settled, .ok value⟩)

/-- The settlement of what a handler left. -/
def settleOutcomeIn (run : JobRunRow)
    (outcome : HandlerOutcome) (clock : Readings) : Option (Tables × Notification) :=
  match outcome with
  | .value value => settleSuccessIn options t job run value clock
  | .error error => settleFailureIn options t job run error clock

/-! ## The claim -/

/-- The run `openRun` creates. -/
def freshRun (now : Millis) (leaseToken : LeaseToken) (leaseUntil : Millis)
    (id : Nat) : JobRunRow where
  id := id
  jobId := job.id
  number := job.runCount + 1
  trigger := job.nextRunTrigger.getD (if job.runCount = 0 then .initial else .automaticRetry)
  scheduledAt := job.nextRunAt
  startedAt := now
  settledAt := none
  state := .running
  outputJson := none
  errorCode := none
  errorText := none
  leaseToken := some leaseToken
  leaseUntil := some leaseUntil
  deleteAfter := none

/-- The suspended run a claim resumes. -/
def suspendedRun : Option JobRunRow :=
  if job.state = .pending ∧ 0 < job.runCount ∧ job.nextRunTrigger = none then
    (t.byNumber job.id job.runCount).filter fun run => run.state = .running
  else none

/-- What a claim records on the Job. -/
def claimJob (number : Nat) (job : JobRow) : JobRow :=
  { job with state := .running, runCount := number, nextRunTrigger := none }

/-- `openRun`. -/
def openRun (now : Millis) (count : Nat) :
    Option (Tables × JobRunRow) :=
  let leaseToken : LeaseToken := ⟨now, count⟩
  let leaseUntil := now + options.leaseMs
  let lease := fun run : JobRunRow =>
    { run with leaseToken := some leaseToken, leaseUntil := some leaseUntil }
  match suspendedRun t job with
  | some suspended => do
      let t ← t.patchRun suspended.id lease
      let t ← t.patchJob job.id (claimJob suspended.number)
      return (t, lease suspended)
  | none => do
      let fresh := freshRun job now leaseToken leaseUntil
      let run := fresh t.runs.next
      let t : Tables := { t with runs := t.runs.insert fresh }
      let t ← t.patchJob job.id (claimJob run.number)
      return (t, run)

/-- The gate of a Job: `${job.name}\u0000${job.key ?? ""}`. -/
def gateOf : String × String := (job.name, job.key.getD "")

end

/-- The running Jobs of a gate, as the claim counts them. -/
def runningAtGate (gate : String × String) : Nat :=
  t.running.countP fun job => gateOf job = gate

/-- The Job is declared, and its gate is not full. -/
def claimable (job : JobRow) : Bool :=
  match options.definition job.name with
  | none => false
  | some definition => runningAtGate t (gateOf job) < definition.concurrency

/-- The loop of `claimNext` over pages of due Jobs. -/
def claimScan (options : Options) (t : Tables) (now : Millis) : Nat → Option JobCursor →
    Option JobRow
  | 0, _ => none
  | fuel + 1, page =>
    let due := t.due now options.claimBatchSize page
    match due.find? (claimable options t) with
    | some job => some job
    | none =>
      if due.length < options.claimBatchSize then none
      else claimScan options t now fuel (due.getLast?.map JobRow.cursor)

/-- A page moves on by at least a row, so there are no more pages than rows. -/
def claimFuel : Nat := t.jobs.rows.length + 1

/-- What the handler of a mutation-kind Job does inside of the claim. -/
structure InlineRun where
  writes : List EnqueueCall
  outcome : HandlerOutcome
  clock : Readings

/-- `runMutationJob`: the handler's writes are rolled back with its failure. -/
def runMutationJob (job : JobRow) (run : JobRunRow)
    (inline : InlineRun) : Option (Tables × Notification) :=
  match inline.outcome, applyWrites options t inline.writes with
  | .error error, _ => settleFailureIn options t job run error inline.clock
  | .value _, .error error =>
    settleFailureIn options t job run (options.encodeFailure error) inline.clock
  | .value value, .ok written =>
    match Wire.stableEncode value with
    | .error error =>
      settleFailureIn options t job run (options.encodeFailure error) inline.clock
    | .ok _ => settleSuccessIn options written job run value inline.clock

/-- `ClaimedRun`. -/
structure ClaimedRun where
  jobId : Nat
  runId : Nat
  name : String
  argsJson : Json
  stepsJson : Option StepsText
  runNumber : Nat
  leaseToken : LeaseToken
  startedAt : Millis
  deriving DecidableEq

/-- What a claim transaction returns. -/
inductive ClaimTxResult where
  | inline (notification : Notification) (page : JobCursor)
  | claimed (claimed : ClaimedRun) (page : JobCursor)

/-- The transaction of `claimNext`, once the scan has found a Job. -/
def claimIn (job : JobRow) (now : Millis) (count : Nat)
    (inline : InlineRun) : Option (Tables × ClaimTxResult) := do
  let (opened, run) ← openRun options t job now count
  match (options.definition job.name).map Job.kind with
  | some .mutation => do
      let (t, notification) ← runMutationJob options opened job run inline
      return (t, .inline notification job.cursor)
  | _ =>
    return (opened, .claimed
      { jobId := job.id, runId := run.id, name := job.name, argsJson := job.argsJson,
        stepsJson := job.stepsJson, runNumber := run.number, leaseToken := ⟨now, count⟩,
        startedAt := run.startedAt } job.cursor)

end

/-! ## Recovery and retention -/

/-- `LEASE_EXPIRED`. -/
def leaseExpired : JobError where
  code := "unavailable"
  text := "AckerDBError(unavailable): job lease expired before the run settled"

/-- The loop of `recoverExpiredLeases`. -/
def recoverRuns (options : Options) (inProcess : List Nat) : Tables → List (JobRunRow × Readings) →
    Option (Tables × List Notification)
  | t, [] => some (t, [])
  | t, (run, clock) :: rest =>
    if run.jobId ∈ inProcess then recoverRuns options inProcess t rest
    else
      match t.jobById run.jobId with
      | none => recoverRuns options inProcess t rest
      | some job => do
          let (t, notification) ← settleFailureIn options t job run leaseExpired clock
          let (t, delivered) ← recoverRuns options inProcess t rest
          return (t, notification :: delivered)

/-- The transaction of `recoverExpiredLeases`; each settlement reads the clock. -/
def recoverIn (t : Tables) (inProcess : List Nat) (now : Millis)
    (clock : Nat → Readings) : Option (Tables × List Notification) :=
  let expired := t.expiredLeases now options.claimBatchSize
  recoverRuns options inProcess t (expired.zipIdx.map fun (run, index) => (run, clock index))

/-- The first sweep of `reap`. -/
def reapJobs : Tables → List JobRow → Tables
  | t, [] => t
  | t, job :: rest => reapJobs (t.deleteWithRuns job.id) rest

/-- The second sweep: a Job's latest run is not history. -/
def reapRuns : Tables → List JobRunRow → Tables
  | t, [] => t
  | t, run :: rest =>
    if (t.jobById run.jobId).any fun job => job.runCount = run.number then reapRuns t rest
    else reapRuns { t with runs := t.runs.delete JobRunRow.id run.id } rest

section

variable (t : Tables)

/-- The transaction of `reap`, and whether a page was full. -/
def reapIn (now : Millis) : Tables × Bool :=
  let limit := options.claimBatchSize
  let jobs := t.expiredJobs now limit
  let t := reapJobs t jobs
  let runs := t.expiredRuns now limit
  (reapRuns t runs, jobs.length = limit ∨ runs.length = limit)

/-! ## The transitions a caller asks for -/

/-- `job was canceled`. -/
def jobCanceled : JobError where
  code := "unavailable"
  text := "job was canceled"

variable (id : Nat)

/-- The transaction of `cancel`. -/
def cancelIn (now : Millis) :
    Option (Tables × JobState) := do
  let job ← t.jobById id
  if job.state.isTerminal then return (t, job.state)
  else
    let t ← settleJobIn options t job (t.latestRun job) .canceled now
    return (t, .canceled)

/-- `reopen`. -/
def reopen (job : JobRow) (state : JobState)
    (nextRunTrigger : JobRunTrigger) (clears : Bool) (now : Millis) : Option Tables := do
  let t ← match t.latestRun job with
    | some previous =>
      match previous.settledAt with
      | some settledAt => t.patchRun previous.id fun run =>
        { run with
          deleteAfter := window (retentionOf (options.definition job.name)) settledAt }
      | none => some t
    | none => some t
  t.patchJob job.id fun job =>
    { job with
      state := state
      nextRunTrigger := some nextRunTrigger
      stepsJson := if clears then some (.entries []) else job.stepsJson
      nextRunAt := now
      settledAt := none
      deleteAfter := none }

/-- The transaction of `retry`. -/
def retryIn (now : Millis) : Option Tables := do
  let job ← t.jobById id
  if job.state = .failed then reopen options t job .retrying .manualRetry false now else none

/-- The transaction of `forceRunAgain`. -/
def forceRunAgainIn (now : Millis) :
    Option Tables := do
  let job ← t.jobById id
  if job.state.isTerminal then reopen options t job .pending .force true now else none

/-- The transaction of `runAgain`. -/
def runAgainIn (now : Millis) : Option Tables := do
  let job ← t.jobById id
  if job.state.isTerminal then
    match Wire.decode job.argsJson with
    | .error _ => none
    | .ok args =>
      match enqueueWith options t job.name args {} .runAgain now with
      | .ok (t, _) => some t
      | .error _ => none
  else none

/-- The transaction of `delete`. -/
def deleteIn : Option Tables := do
  let job ← t.jobById id
  return t.deleteWithRuns job.id

/-- The transaction of `reschedule`. -/
def rescheduleIn (dueAt : Millis) : Option Tables := do
  let job ← t.jobById id
  if job.state = .pending ∨ job.state = .retrying then
    t.patchJob id fun job => { job with nextRunAt := dueAt }
  else none

end

/-- The bootstrap of `activate`; a rule that throws, or no finite time, rolls it back. -/
def activateIn (options : Options) (now : Millis) : Tables → List (String × Job) → Option Tables
  | t, [] => some t
  | t, (name, definition) :: rest =>
    match definition.recurrence with
    | none => activateIn options now t rest
    | some recurrence =>
      if !definition.argless then activateIn options now t rest
      else
        let argsJson := Json.object []
        let argsHash := options.hashJobArgs argsJson
        if (t.liveFor name argsHash).isSome then activateIn options now t rest
        else
          match recurrence now now with
          | .value dueAt => activateIn options now (insertJob t
              ⟨name, argsJson, argsHash, none, dueAt, now, .repeated, none⟩) rest
          | .null => activateIn options now t rest
          | _ => none

/-! ## The steps of a run -/

/-- `assertOwned`. -/
def owned (t : Tables) (claimed : ClaimedRun) : Bool :=
  (t.runById claimed.runId).any fun run =>
    run.state = .running ∧ run.leaseToken = some claimed.leaseToken

/-- `appendIn`. -/
def appendIn (t : Tables) (claimed : ClaimedRun) (entry : StepEntry) :
    Option Tables := do
  guard (owned t claimed)
  let job ← t.jobById claimed.jobId
  match appendEntry options job.stepsJson entry with
  | .error _ => none
  | .ok text => t.patchJob claimed.jobId fun job => { job with stepsJson := some text }

/-- The transaction of `step.sleep`. -/
def sleepIn (t : Tables) (claimed : ClaimedRun) (entry : StepEntry)
    (wakeAt : Millis) : Option Tables := do
  let t ← appendIn options t claimed entry
  let t ← t.patchRun claimed.runId fun run => { run with leaseToken := none, leaseUntil := none }
  t.patchJob claimed.jobId fun job =>
    { job with state := .pending, nextRunAt := wakeAt, nextRunTrigger := none }

/-- The transaction of a query or mutation step: the callee's writes with the entry. -/
def stepIn (t : Tables) (claimed : ClaimedRun) (writes : List EnqueueCall)
    (entry : StepEntry) : Option Tables := do
  guard (owned t claimed)
  match applyWrites options t writes with
  | .error _ => none
  | .ok written => appendIn options written claimed entry

/-- The transaction of `settle`: the run must still be the one that was claimed. -/
def settleIn (t : Tables) (claimed : ClaimedRun) (outcome : HandlerOutcome)
    (clock : Readings) : Option (Tables × Option Notification) :=
  match t.runById claimed.runId, t.jobById claimed.jobId with
  | some run, some job =>
    if run.state = .running ∧ run.leaseToken = some claimed.leaseToken then do
      let (t, notification) ← settleOutcomeIn options t job run outcome clock
      return (t, some notification)
    else some (t, none)
  | _, _ => some (t, none)

end AckerDB.Jobs
