import AckerDB.Lib.Keyset
import AckerDB.Lib.RowTable
import AckerDB.Core.Wire

/-!
# The jobs tables

A Job is a durable admission, a Job run is one execution of its handler.  The Job keeps no pointer
to its runs: `runCount` is how many there have been, and the number of the latest one.

* `JobRow`, `JobRunRow`, `Tables` — what is stored;
* `Job`, `Options` — what the application declares;
* `liveFor`, `due`, `running`, `expiredLeases`, … — the reads of the runner, in index order.
-/

namespace AckerDB.Jobs

/-- Milliseconds. -/
abbrev Millis := ℚ

/-! ## Rows -/

/-- `JobState`. -/
inductive JobState where
  | pending | running | retrying | completed | failed | canceled
  deriving DecidableEq

/-- `isTerminal`. -/
def JobState.isTerminal : JobState → Bool
  | completed | failed | canceled => true
  | pending | running | retrying => false

/-- `JobTrigger`: what admitted a Job. -/
inductive JobTrigger where
  | enqueue | repeated | runAgain
  deriving DecidableEq

/-- `JobRunState`; `running` is the only one that is not terminal. -/
inductive JobRunState where
  | running | completed | failed | canceled
  deriving DecidableEq

/-- `JobRunTrigger`: why a run exists. -/
inductive JobRunTrigger where
  | initial | automaticRetry | manualRetry | force
  deriving DecidableEq

/-- `step.run`'s callees, and the kinds of inline steps. -/
inductive CalleeKind where
  | query | mutation | procedure
  deriving DecidableEq

/-- One entry of a stored journal, with the fields a reader looks at.  A field that is absent or of
another type is `none`; a JSON text is the tree it spells. -/
structure RawEntry where
  name : Option String := none
  kind : Option String := none
  completedAt : Option Millis := none
  ref : Option String := none
  calleeKind : Option String := none
  argsHash : Option String := none
  result : Option Json := none
  wakeAt : Option Millis := none
  deriving DecidableEq

/-- The text of `stepsJson`. -/
inductive StepsText where
  /-- Not a JSON text. -/
  | unreadable
  /-- A JSON text that is not an array of objects. -/
  | malformed
  | entries (entries : List RawEntry)
  deriving DecidableEq

/-- A lease: the time of the claim and the count of claims of this process. -/
structure LeaseToken where
  claimedAt : Millis
  count : Nat
  deriving DecidableEq

/-- `_ackerdb_jobs`. -/
structure JobRow where
  id : Nat
  name : String
  argsJson : Json
  argsHash : String
  key : Option String
  state : JobState
  trigger : JobTrigger
  parentJobId : Option Nat
  scheduledAt : Millis
  nextRunAt : Millis
  runCount : Nat
  nextRunTrigger : Option JobRunTrigger
  stepsJson : Option StepsText
  enqueuedAt : Millis
  settledAt : Option Millis
  deleteAfter : Option Millis
  deriving DecidableEq

/-- `_ackerdb_job_runs`. -/
structure JobRunRow where
  id : Nat
  jobId : Nat
  number : Nat
  trigger : JobRunTrigger
  scheduledAt : Millis
  startedAt : Millis
  settledAt : Option Millis
  state : JobRunState
  outputJson : Option Json
  errorCode : Option String
  errorText : Option String
  leaseToken : Option LeaseToken
  leaseUntil : Option Millis
  deleteAfter : Option Millis
  deriving DecidableEq

/-- A live Job is not terminal. -/
def JobRow.live (job : JobRow) : Bool := !job.state.isTerminal

/-! ## Definitions -/

/-- What a handler throws or returns as an error, as far as the runner reads it. -/
structure JobError where
  /-- `error instanceof StepRefusalError`. -/
  refusal : Bool := false
  /-- `outcomeFromError(error).code`. -/
  code : String
  /-- The description before it is cut. -/
  text : String
  deriving DecidableEq

/-- What a policy answers. -/
inductive PolicyAnswer where
  | threw
  | null
  /-- A number that is not finite, or no number. -/
  | notFinite
  | value (value : Millis)
  deriving DecidableEq

/-- `JobWindow`. -/
inductive JobWindow where
  | forever
  | millis (value : Millis)
  deriving DecidableEq

/-- `DEFAULT_JOB_RETENTION_MS`. -/
def defaultJobRetention : JobWindow := .millis (7 * 24 * 60 * 60 * 1000)

/-- The windows of a dedupe. -/
structure Dedupe where
  completed : JobWindow
  failed : JobWindow

/-- The kinds of handler. -/
inductive JobKind where
  | mutation | procedure
  deriving DecidableEq

/-- `AnyJob`, normalized. -/
structure Job where
  kind : JobKind
  /-- `validateArgs`. -/
  validateArgs : JsValue → Except JsError JsValue
  /-- No arguments are declared. -/
  argless : Bool
  concurrency : Nat
  key : Option (JsValue → String)
  retry : Nat → JobError → PolicyAnswer
  /-- `repeat`. -/
  recurrence : Option (Millis → Millis → PolicyAnswer)
  dedupe : Option Dedupe
  retention : JobWindow

/-- What the runner is constructed with. -/
structure Options where
  declared : List (String × Job)
  maxRunning : Nat
  claimBatchSize : Nat
  leaseMs : Millis
  /-- `hashJobArgs`. -/
  hashJobArgs : Json → String
  /-- The length of a journal's text. -/
  journalLength : List RawEntry → Nat
  /-- The error of a result that cannot be encoded. -/
  encodeFailure : JsError → JobError

/-- `this.definitions.get(name)`. -/
def Options.definition (options : Options) (name : String) : Option Job :=
  options.declared.lookup name

/-! ## Tables -/

/-- The two tables. -/
structure Tables where
  jobs : RowTable JobRow := {}
  runs : RowTable JobRunRow := {}

namespace Tables

variable (t : Tables)

/-- `jobs.byId`. -/
def jobById (id : Nat) : Option JobRow := t.jobs.byId JobRow.id id

/-- `runs.byId`. -/
def runById (id : Nat) : Option JobRunRow := t.runs.byId JobRunRow.id id

/-- `runs.byNumber`. -/
def byNumber (jobId number : Nat) : Option JobRunRow :=
  t.runs.rows.find? fun run => run.jobId = jobId ∧ run.number = number

/-- The latest run of a Job, if it has one. -/
def latestRun (job : JobRow) : Option JobRunRow :=
  if job.runCount = 0 then none else t.byNumber job.id job.runCount

/-- `jobs.patch`: throws if there is no such row. -/
def patchJob (id : Nat) (change : JobRow → JobRow) : Option Tables :=
  if (t.jobById id).isSome then some { t with jobs := t.jobs.patch JobRow.id id change } else none

/-- `runs.patch`: throws if there is no such row. -/
def patchRun (id : Nat) (change : JobRunRow → JobRunRow) : Option Tables :=
  if (t.runById id).isSome then some { t with runs := t.runs.patch JobRunRow.id id change }
  else none

/-- `deleteWithRuns`. -/
def deleteWithRuns (id : Nat) : Tables where
  jobs := t.jobs.delete JobRow.id id
  runs := t.runs.deleteWhere fun run => run.jobId = id

/-- `liveFor`. -/
def liveFor (name argsHash : String) : Option JobRow :=
  t.jobs.rows.find? fun job => job.name = name ∧ job.argsHash = argsHash ∧ job.live = true

/-- `newestSettledFor`: the newest by settle time, then by id. -/
def newestSettledFor (name argsHash : String) (state : JobState) : Option JobRow :=
  let order : List (Keyset.Term JobRow ℚ) :=
    [⟨fun job => job.settledAt.getD 0, .desc⟩, ⟨fun job => job.id, .desc⟩]
  (Keyset.orderBy order (t.jobs.rows.filter fun job =>
    job.name = name ∧ job.argsHash = argsHash ∧ job.state = state)).head?

end Tables

/-- `JobCursor`. -/
structure JobCursor where
  nextRunAt : Millis
  id : Nat
  deriving DecidableEq

/-- The order of the claim scan. -/
def dueOrder : List (Keyset.Term JobRow ℚ) :=
  [⟨JobRow.nextRunAt, .asc⟩, ⟨fun job => job.id, .asc⟩]

/-- The row is beyond the cursor. -/
def JobCursor.precedes (cursor : JobCursor) (job : JobRow) : Bool :=
  cursor.nextRunAt < job.nextRunAt ∨ (job.nextRunAt = cursor.nextRunAt ∧ cursor.id < job.id)

/-- The position of a row. -/
def JobRow.cursor (job : JobRow) : JobCursor := ⟨job.nextRunAt, job.id⟩

namespace Tables

variable (t : Tables)

/-- One keyset range of the claim scan. -/
def dueIn (state : JobState) (now : Millis) (limit : Nat) (after : Option JobCursor) :
    List JobRow :=
  (Keyset.orderBy dueOrder (t.jobs.rows.filter fun job =>
    job.state = state ∧ job.nextRunAt ≤ now ∧ after.all fun cursor => cursor.precedes job)).take
    limit

/-- `due`: the ranges of both due states, merged. -/
def due (now : Millis) (limit : Nat) (after : Option JobCursor) : List JobRow :=
  (Keyset.orderBy dueOrder
    (t.dueIn .pending now limit after ++ t.dueIn .retrying now limit after)).take limit

/-- `running`: the first 4096 rows of the state's index. -/
def running : List JobRow :=
  (Keyset.orderBy dueOrder (t.jobs.rows.filter fun job => job.state = .running)).take 4096

/-- `jobs.expired`. -/
def expiredJobs (now : Millis) (limit : Nat) : List JobRow :=
  let order : List (Keyset.Term JobRow ℚ) :=
    [⟨fun job => job.deleteAfter.getD 0, .asc⟩, ⟨fun job => job.id, .asc⟩]
  (Keyset.orderBy order (t.jobs.rows.filter fun job =>
    job.deleteAfter.any fun stamp => stamp ≤ now)).take limit

/-- `expiredLeases`. -/
def expiredLeases (now : Millis) (limit : Nat) : List JobRunRow :=
  let order : List (Keyset.Term JobRunRow ℚ) :=
    [⟨fun run => run.leaseUntil.getD 0, .asc⟩, ⟨fun run => run.id, .asc⟩]
  (Keyset.orderBy order (t.runs.rows.filter fun run =>
    run.state = .running ∧ run.leaseUntil.any fun stamp => stamp ≤ now)).take limit

/-- `runs.expired`. -/
def expiredRuns (now : Millis) (limit : Nat) : List JobRunRow :=
  let order : List (Keyset.Term JobRunRow ℚ) :=
    [⟨fun run => run.deleteAfter.getD 0, .asc⟩, ⟨fun run => run.id, .asc⟩]
  (Keyset.orderBy order (t.runs.rows.filter fun run =>
    run.deleteAfter.any fun stamp => stamp ≤ now)).take limit

/-- The least of some times. -/
def earliest : List Millis → Option Millis := List.min?

/-- `nextDueJobAt`. -/
def nextDueJobAt (inProcessIds : List Nat) (notBefore : Millis) : Option Millis :=
  let due := (t.jobs.rows.filter fun job => job.state = .pending ∨ job.state = .retrying).map
    JobRow.nextRunAt
  let abandoned := (t.runs.rows.filter fun run =>
    run.state = .running ∧ run.jobId ∉ inProcessIds).filterMap JobRunRow.leaseUntil
  let expiring := ((t.jobs.rows.filterMap JobRow.deleteAfter).min?.toList ++
    (t.runs.rows.filterMap JobRunRow.deleteAfter).min?.toList).map fun stamp => max stamp notBefore
  earliest (due ++ abandoned ++ expiring)

end Tables

end AckerDB.Jobs
