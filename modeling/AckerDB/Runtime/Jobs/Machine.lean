import AckerDB.Lib.Run
import AckerDB.Runtime.Jobs.Transitions

/-!
# The job runner as a machine

The tables, and what one process keeps of the runs it dispatched.  An event is one writer
transaction with whatever handler result and clock readings it meets, a call of a step, or a crash,
which leaves the tables and nothing else.

* `State`, `Event`, `transition` — the machine and the notifications of its steps;
* `Handler.owns` — the lease the run has is the one the handler was given.
-/

namespace AckerDB.Jobs

/-- A dispatched handler: its claim, its steps, and the steps that execute. -/
structure Handler where
  claimed : ClaimedRun
  steps : JobSteps
  executing : List StepCall

/-- The handler's lease is still the run's. -/
def Handler.owns (handler : Handler) (t : Tables) : Bool := owned t handler.claimed

/-- The database effects of a step, by its Job and its name. -/
structure StepEffect where
  jobId : Nat
  name : String
  deriving DecidableEq

/-- The tables and the memory of one process. -/
structure State where
  tables : Tables := {}
  leaseCounter : Nat := 0
  /-- Handlers by the number of their dispatch; one may outlive its run. -/
  handlers : List (Nat × Handler) := []
  nextHandler : Nat := 0
  /-- `runControllers`, from Job to dispatch. -/
  runControllers : List (Nat × Nat) := []
  /-- What the query and mutation steps of the current journals have committed.  No transition
  reads it. -/
  effects : List StepEffect := []

/-- What a step's callee leaves. -/
inductive StepResult where
  | ok (value : JsValue)
  /-- An `Err` Result, which rolls a transaction back. -/
  | err (error : JsValue)
  | threw

/-- The execution of a step. -/
structure StepRun where
  writes : List EnqueueCall
  result : StepResult
  now : Millis

/-- One transaction, one call, or a crash. -/
inductive Event where
  | activate (now : Millis)
  | enqueue (call : EnqueueCall)
  | runAgain (id : Nat) (now : Millis)
  | cancel (id : Nat) (now : Millis)
  | retry (id : Nat) (now : Millis)
  | forceRunAgain (id : Nat) (now : Millis)
  | delete (id : Nat)
  | reschedule (id : Nat) (dueAt : Millis)
  | recover (now : Millis) (clock : Nat → Readings)
  | claim (cursor : Option JobCursor) (now : Millis) (inline : InlineRun)
  | reap (now : Millis)
  | callStep (handler : Nat) (call : StepCall)
  | commitStep (handler : Nat) (call : StepCall) (run : StepRun)
  | settle (handler : Nat) (outcome : HandlerOutcome) (clock : Readings)
  | release (handler : Nat)
  | crash

/-- `encodeResult`, for a callee of `step.run`; the value itself, for an inline step. -/
def encodeStep (call : StepCall) (result : StepResult) : Option Json :=
  let encoded : Except JsError Json :=
    match call, result with
    | .run _ _ _ _, .ok value =>
      Wire.stableEncode (.object [("ok", .bool true), ("data", value)])
    | .run _ _ _ _, .err error =>
      Wire.stableEncode (.object [("ok", .bool false), ("error", error)])
    | _, .ok value => Wire.stableEncode value
    | _, .err error => Wire.stableEncode error
    | _, .threw => .error (.error "the callee threw")
  encoded.toOption

/-- The entry a step records. -/
def stepEntry (call : StepCall) (result : StepResult) (now : Millis) : Option StepEntry :=
  match call with
  | .run name ref calleeKind argsHash =>
    (encodeStep call result).map fun json => .run name ref calleeKind argsHash json now
  | .inline kind name => (encodeStep call result).map fun json => .inline kind name json now
  | .sleep name durationMs => some (.sleep name (now + durationMs) now)

/-- What the waiters of a suspended run are told. -/
def jobSleeping : JobError where
  code := "unavailable"
  text := "job is sleeping; the run resumes at its wake time"

/-- The notification of a suspended run. -/
def slept (id : Nat) (wakeAt : Millis) : Notification :=
  ⟨id, .slept, .error .pending jobSleeping (some wakeAt)⟩

variable (options : Options)

/-- The transaction a step commits: its effects and its entry, or neither. -/
def commitIn (t : Tables) (claimed : ClaimedRun) (call : StepCall)
    (run : StepRun) : Option (Tables × StepEntry × List Notification) := do
  let entry ← stepEntry call run.result run.now
  match call with
  | .sleep _ durationMs => do
      let t ← sleepIn options t claimed entry (run.now + durationMs)
      return (t, entry, [slept claimed.jobId (run.now + durationMs)])
  | _ =>
    if call.transactional then
      match run.result with
      | .ok _ => do
          let t ← stepIn options t claimed run.writes entry
          return (t, entry, [])
      | _ => none
    else do
      let t ← appendIn options t claimed entry
      return (t, entry, [])

/-- The handlers with one changed. -/
def updateHandler (handlers : List (Nat × Handler)) (number : Nat) (change : Handler → Handler) :
    List (Nat × Handler) :=
  handlers.map fun (other, handler) => (other, if other = number then change handler else handler)

/-- A transaction that throws leaves the state as it was. -/
def orElse (s : State) (t : Option Tables) : State :=
  match t with
  | some tables => { s with tables := tables }
  | none => s

/-- One event, and the notifications that are delivered after it. -/
def transition (s : State) : Event → Option (State × List Notification)
  | .activate now => some (orElse s (activateIn options now s.tables options.declared), [])
  | .enqueue call =>
    some (orElse s ((enqueueWith options s.tables call.name call.args call.enqueue .enqueue
      call.now).toOption.map Prod.fst), [])
  | .runAgain id now => some (orElse s (runAgainIn options s.tables id now), [])
  | .cancel id now =>
    match cancelIn options s.tables id now with
    | some (tables, .canceled) => some ({ s with tables := tables },
        [⟨id, .canceled, .error .canceled jobCanceled none⟩])
    | some (tables, _) => some ({ s with tables := tables }, [])
    | none => some (s, [])
  | .retry id now => some (orElse s (retryIn options s.tables id now), [])
  | .forceRunAgain id now =>
    match forceRunAgainIn options s.tables id now with
    | some tables => some ({ s with
        tables := tables
        effects := s.effects.filter fun effect => effect.jobId ≠ id }, [])
    | none => some (s, [])
  | .delete id => some (orElse s (deleteIn s.tables id), [])
  | .reschedule id dueAt => some (orElse s (rescheduleIn s.tables id dueAt), [])
  | .recover now clock =>
    match recoverIn options s.tables (s.runControllers.map Prod.fst) now clock with
    | some (tables, notifications) => some ({ s with tables := tables }, notifications)
    | none => some (s, [])
  | .claim cursor now inline =>
    match claimScan options s.tables now (claimFuel s.tables) cursor with
    | none => some (s, [])
    | some job =>
      match claimIn options s.tables job now (s.leaseCounter + 1) inline with
      -- the lease is counted even if the transaction throws
      | none => some ({ s with leaseCounter := s.leaseCounter + 1 }, [])
      | some (tables, .inline notification _) =>
        some ({ s with tables := tables, leaseCounter := s.leaseCounter + 1 }, [notification])
      | some (tables, .claimed claimed _) =>
        some ({ s with
          tables := tables
          leaseCounter := s.leaseCounter + 1
          handlers := s.handlers ++ [(s.nextHandler, ⟨claimed, .new claimed.stepsJson, []⟩)]
          nextHandler := s.nextHandler + 1
          runControllers := (claimed.jobId, s.nextHandler) ::
            s.runControllers.filter fun (jobId, _) => jobId ≠ claimed.jobId }, [])
  | .reap now => some ({ s with tables := (reapIn options s.tables now).1 }, [])
  | .callStep number call =>
    match s.handlers.lookup number with
    | none => none
    | some handler =>
      let (steps, result) := handler.steps.claim call
      some ({ s with handlers := updateHandler s.handlers number fun handler =>
        { handler with
          steps := steps
          executing := if result = .execute then call :: handler.executing
            else handler.executing } }, [])
  | .commitStep number call run =>
    match s.handlers.lookup number with
    | none => none
    | some handler =>
      if call ∈ handler.executing then
        let finished := fun handler : Handler =>
          { handler with executing := handler.executing.erase call }
        match commitIn options s.tables handler.claimed call run with
        | none => some ({ s with handlers := updateHandler s.handlers number finished }, [])
        | some (tables, entry, notifications) =>
          some ({ s with
            tables := tables
            handlers := updateHandler s.handlers number fun handler =>
              { finished handler with
                steps := { handler.steps with entries := handler.steps.entries ++ [entry] } }
            effects := if call.transactional then
                ⟨handler.claimed.jobId, call.name⟩ :: s.effects
              else s.effects }, notifications)
      else none
  | .settle number outcome clock =>
    match s.handlers.lookup number with
    | none => none
    | some handler =>
      match settleIn options s.tables handler.claimed outcome clock with
      | none => some (s, [])
      | some (tables, notification) =>
        some ({ s with tables := tables }, notification.toList)
  | .release number =>
    some ({ s with runControllers := s.runControllers.filter fun (_, other) => other ≠ number },
      [])
  | .crash => some ({ tables := s.tables, effects := s.effects }, [])

/-- One event. -/
def step (s : State) (e : Event) : Option State :=
  (transition options s e).map Prod.fst

/-- The states any run reaches from empty tables. -/
abbrev Reachable : State → Prop :=
  Run.Reachable (step options) (fun _ _ => True) {}

end AckerDB.Jobs
