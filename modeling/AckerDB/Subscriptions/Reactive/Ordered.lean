import AckerDB.Lib.Run
import AckerDB.Subscriptions.Reactive.Events
import AckerDB.Subscriptions.Reactive.Outbox

/-!
# Ordered reactive queries and live events

`OrderedReactive` as a machine.  Its state is what the object holds together with
the asynchronous calls in progress; an event is one turn of one of them: a call
from outside, a microtask, the continuation of an awaited promise, or a send that
settles.  Everything the source does between two awaits is one step.

Evaluations of a query, and the sends of the subscribers, may take any time and may
fail; the executor may reject an evaluation at any time.  What a step reads of the
clock is part of its event.

* `State`, `Event`, `step` — the machine;
* `ensureCurrent`, `installEvaluation`, `removeEntry`, `processPublication` — the
  operations of the source that its turns are made of.
-/

namespace AckerDB

open Protocol Function

namespace Reactive

/-! ## The state -/

/-- Where an evaluation stands. -/
inductive EvaluationPhase where
  | queued
  /-- `evaluateQuery` runs, under an evaluation generation. -/
  | running (evaluationGeneration : Nat)
  | delivering (deliveries : List Nat)
  | reporting (report : Nat)
  /-- `evaluateOnce` or the executor threw. -/
  | threw (error : Thrown)
  /-- The execution settled; the entry still names it as its evaluation. -/
  | finished (error : Option Thrown)
  /-- Released, waiting for the evaluation it started in its turn. -/
  | chained (newer : Nat)
  | settled (error : Option Thrown)
  deriving DecidableEq

/-- An evaluation that `ensureCurrent` submitted. -/
structure Evaluation where
  entry : Nat
  wasInitialized : Bool
  phase : EvaluationPhase
  deriving DecidableEq

/-- Where a `subscribeQuery` call stands. -/
inductive SubscribePhase where
  /-- It awaits `ensureCurrent`, which had nothing to do or returned an evaluation. -/
  | waiting (evaluation : Option Nat)
  | delivering (listener delivery : Nat)
  | finished (ok : Bool)
  deriving DecidableEq

/-- A `subscribeQuery` call. -/
structure SubscribeCall where
  subscriber : Nat
  id : Nat
  key : QueryKey
  authEpoch : Nat
  cursor : Option SubscriptionCursor
  entry : Nat
  phase : SubscribePhase

/-- What a `converge` call awaits. -/
inductive ConvergeWait where
  | ready
  | evaluation (entry evaluation : Nat)
  | delivery (delivery : Nat)
  | report (report : Nat)

/-- A `converge` call, with the entries and bindings it has not come to yet. -/
structure Convergence where
  subscriber : Nat
  minimumVersion : Nat
  entries : List Nat
  entriesLeft : List Nat
  bindingsLeft : List Nat
  wait : ConvergeWait

/-- `Binding`: a listener of either kind. -/
inductive Binding where
  | query (listener : Nat)
  | event (listener : Nat)
  deriving DecidableEq

/-- The query listener a binding is, if it is one. -/
def Binding.query? : Binding → Option Nat
  | query l => some l
  | event _ => none

/-- How a failure is reported to a listener: `sendError`, or `sendRevocation` under the
listener's own epoch or under a new one; `rotation` is that of `rotateAuth`. -/
inductive ReportKind where
  | error
  | revocation (nextAuthEpoch : Option Nat)
  | rotation (nextAuthEpoch : Nat)
  deriving DecidableEq

/-- What a report awaits: a delivery, or the first works of an event listener. -/
inductive ReportWait where
  | delivery (delivery : Nat)
  | works (listener count : Nat)
  deriving DecidableEq

/-- A loop that tells listeners, one after another, that their subscription has ended. -/
structure Report where
  kind : ReportKind
  outcome : Outcome
  left : List Binding
  waiting : Option ReportWait

/-- The event listeners ever made, those of each table, and the counter of the bound ones. -/
structure EventTable where
  listeners : Nat → EventListener := fun _ =>
    { subscriber := 0, id := 0, table := "", matches_ := fun _ _ => .ok false, authEpoch := 0
      cursor := ⟨"", 0, 0⟩ }
  listenerCount : Nat := 0
  /-- `eventStates`, with the listeners of each state. -/
  states : String → List Nat := fun _ => []
  /-- `eventListeners`. -/
  bound : Int := 0

/-- `OrderedReactive`, with the calls in progress.  `commits` and `processed` record what every
commit published and the versions `processPublication` was called with. -/
structure State where
  publication : OrderedPublication ReactiveCommit
  history : TransitionHistory
  outbox : Outbox := {}
  events : EventTable := {}
  entries : Nat → QueryEntry := fun _ =>
    { key := ⟨"", .null, ""⟩, identity := "", generation := "", removed := true }
  entryCount : Nat := 0
  bySubscriber : Nat → List (Nat × Binding) := fun _ => []
  evaluations : Nat → Evaluation := fun _ =>
    { entry := 0, wasInitialized := false, phase := .settled none }
  evaluationCount : Nat := 0
  calls : List SubscribeCall := []
  convergences : List Convergence := []
  reports : List Report := []
  queryListeners : Int := 0
  resultBytes : Int := 0
  dormantEntries : Int := 0
  evaluatingEntries : Int := 0
  /-- The number of history records made. -/
  records : Nat := 0
  commits : Nat → ReactiveCommit := fun _ => ⟨[], []⟩
  processed : List Nat := []

/-- A new `OrderedReactive`. -/
def initial (options : ReactiveOptions) : State where
  publication := .initial options.publication options.initialVersion
  history := { limits := options.resume }

namespace State

/-- `publication.snapshot().highWater`. -/
def highWater (s : State) : Nat := s.publication.committedHighWater

/-- The write keys of every commit. -/
def writes (s : State) (version : Nat) : List String := (s.commits version).writeKeys

/-- Replace an entry. -/
def setEntry (s : State) (e : Nat) (entry : QueryEntry) : State :=
  { s with entries := update s.entries e entry }

/-- Move an evaluation to a phase. -/
def setPhase (s : State) (t : Nat) (phase : EvaluationPhase) : State :=
  { s with evaluations := update s.evaluations t { s.evaluations t with phase } }

/-- `this.entries`: the live entries, in the order they were made. -/
def liveEntries (s : State) : List Nat :=
  (List.range s.entryCount).filter fun e => !(s.entries e).removed

variable (options : ReactiveOptions)

section

variable (s : State)

/-- The generation the next draw yields. -/
def fresh : String :=
  options.nextGeneration s.outbox.generations

/-- Whether what a report awaits has settled. -/
def waited : ReportWait → Bool
  | .delivery d => (s.outbox.deliveries d).settled
  | .works m count => decide (count ≤ (s.events.listeners m).settled)

/-- Whether the report has told every listener. -/
def reported (r : Nat) : Bool :=
  match s.reports[r]? with
  | some report => report.left.isEmpty && report.waiting.all s.waited
  | none => true

/-! ## Entries and listeners -/

/-- `detach`, of a query listener. -/
def detach (l : Nat) (now : Int) : State :=
  let listener := s.outbox.listeners l
  if (s.bySubscriber listener.subscriber).lookup listener.id = some (.query l) then
    let entry := s.entries listener.entry
    let left := entry.listeners.filter fun other => other ≠ l
    let sleeps := left.isEmpty && !entry.removed && entry.dormantAtMs.isNone
    { s with
      bySubscriber := update s.bySubscriber listener.subscriber
        ((s.bySubscriber listener.subscriber).filter fun binding => binding.1 ≠ listener.id)
      entries := update s.entries listener.entry
        { entry with
          listeners := left
          dormantAtMs := if sleeps then some now else entry.dormantAtMs }
      queryListeners := s.queryListeners - 1
      dormantEntries := s.dormantEntries + if sleeps then 1 else 0 }
  else s

/-- `detach`, of an event listener. -/
def detachEvent (m : Nat) : State :=
  let listener := s.events.listeners m
  if (s.bySubscriber listener.subscriber).lookup listener.id = some (.event m) then
    { s with
      bySubscriber := update s.bySubscriber listener.subscriber
        ((s.bySubscriber listener.subscriber).filter fun binding => binding.1 ≠ listener.id)
      events := { s.events with
        states := update s.events.states listener.table
          ((s.events.states listener.table).filter fun other => other ≠ m)
        bound := s.events.bound - 1 } }
  else s

/-- `detach`. -/
def detachBinding (binding : Binding) (now : Int) : State :=
  match binding with
  | .query l => s.detach l now
  | .event m => s.detachEvent m

/-- `attach`, of a new query listener. -/
def attach (listener : QueryListener) : State :=
  let entry := s.entries listener.entry
  { s with
    outbox := s.outbox.addListener listener
    bySubscriber := update s.bySubscriber listener.subscriber
      (s.bySubscriber listener.subscriber ++ [(listener.id, .query s.outbox.listenerCount)])
    entries := update s.entries listener.entry
      { entry with listeners := entry.listeners ++ [s.outbox.listenerCount], dormantAtMs := none }
    dormantEntries := s.dormantEntries - if entry.dormantAtMs.isSome then 1 else 0
    queryListeners := s.queryListeners + 1 }

/-- `attach`, of a new event listener. -/
def attachEvent (listener : EventListener) : State :=
  { s with
    bySubscriber := update s.bySubscriber listener.subscriber
      (s.bySubscriber listener.subscriber ++ [(listener.id, .event s.events.listenerCount)])
    events :=
      { listeners := update s.events.listeners s.events.listenerCount listener
        listenerCount := s.events.listenerCount + 1
        states := update s.events.states listener.table
          (s.events.states listener.table ++ [s.events.listenerCount])
        bound := s.events.bound + 1 } }

/-- The first half of `removeEntry`: the entry leaves every table. -/
def unlink (e : Nat) : State :=
  let entry := s.entries e
  { s with
    entries := update s.entries e
      { entry with
        removed := true
        evaluationGeneration := entry.evaluationGeneration + 1
        evaluation := none }
    dormantEntries := s.dormantEntries - if entry.dormantAtMs.isSome then 1 else 0
    evaluatingEntries := s.evaluatingEntries - if entry.evaluation.isSome then 1 else 0
    resultBytes := s.resultBytes - entry.resultBytes
    history := s.history.clear e }

/-- `removeEntry`. -/
def removeEntry (e : Nat) : State :=
  if (s.entries e).removed then s
  else
    -- a removed entry does not become dormant, so its listeners leave without a clock
    (s.entries e).listeners.foldl (fun s l => s.detach l 0) (s.unlink e)

/-- Whether the entry serves nobody: no listener, no evaluation, and it is marked dormant. -/
def idle (entry : QueryEntry) : Bool :=
  entry.listeners.isEmpty && entry.evaluation.isNone && entry.dormantAtMs.isSome

/-- `prune`. -/
def prune (now : Int) : State :=
  s.liveEntries.foldl (fun s e =>
    if idle (s.entries e) && (s.entries e).dormantAtMs.all fun since =>
        decide (now - since ≥ options.resume.maxAgeMs)
    then s.removeEntry e else s)
    { s with history := s.history.prune now }

/-- `oldestDormant`. -/
def oldestDormant (exclude : Option Nat) : Option Nat :=
  s.liveEntries.foldl (fun oldest e =>
    if some e = exclude ∨ !idle (s.entries e) then oldest
    else
      match oldest with
      | none => some e
      | some other =>
        if (s.entries e).dormantAtMs.getD 0 < (s.entries other).dormantAtMs.getD 0 then some e
        else oldest) none

end

/-- Remove dormant entries, the oldest first, until there is room; each turn removes a live
entry, so that their number bounds the turns. -/
def evict (room : State → Bool) (exclude : Option Nat) : Nat → State → State × Bool
  | 0, s => (s, room s)
  | turns + 1, s =>
    if room s then (s, true)
    else
      match s.oldestDormant exclude with
      | none => (s, false)
      | some e => evict room exclude turns (s.removeEntry e)

variable (s : State)

/-- `makeEntryCapacity`; `false` where it throws. -/
def makeEntryCapacity (now : Int) : State × Bool :=
  if s.liveEntries.length < options.maxSharedSubscriptions then (s, true)
  else
    let pruned := s.prune options now
    pruned.evict (fun s => decide (s.liveEntries.length < options.maxSharedSubscriptions)) none
      pruned.liveEntries.length

/-- `makeResultCapacity`: the message where there is no room. -/
def makeResultCapacity (e nextBytes : Nat) :
    State × Option String :=
  if nextBytes > options.maxFrameBytes then (s, some "Query result exceeds maxFrameBytes")
  else if nextBytes > options.maxSharedResultBytes then
    (s, some "Shared query result capacity is full")
  else
    match s.evict (fun s => decide ((nextBytes : Int) ≤
        options.maxSharedResultBytes - (s.resultBytes - (s.entries e).resultBytes))) (some e)
        s.liveEntries.length with
    | (s, true) => (s, none)
    | (s, false) => (s, some "Shared query result capacity is full")

/-- `this.entries.get(key)`. -/
def entry? (key : QueryKey) : Option Nat :=
  s.liveEntries.find? fun e => (s.entries e).key = key

/-- A new entry, under the next number. -/
def addEntry (key : QueryKey) : State :=
  { s with
    entries := update s.entries s.entryCount
      { key, identity := options.identity key, generation := s.fresh options }
    entryCount := s.entryCount + 1
    outbox := { s.outbox with generations := s.outbox.generations + 1 } }

/-- `entryFor`; no entry where it throws. -/
def entryFor (key : QueryKey) (now : Int) :
    State × Option Nat :=
  match s.entry? key with
  | some e => (s, some e)
  | none =>
    match s.makeEntryCapacity options now with
    | (s, true) => (s.addEntry options key, some s.entryCount)
    | (s, false) => (s, none)

/-! ## Evaluations -/

/-- Raise the version the entry has to reach. -/
def raiseDirty (e version : Nat) : State :=
  s.setEntry e { s.entries e with dirtyVersion := max (s.entries e).dirtyVersion version }

/-- Submit an evaluation of the entry. -/
def submit (e : Nat) : State :=
  { s with
    entries := update s.entries e
      { s.entries e with evaluation := some s.evaluationCount }
    evaluations := update s.evaluations s.evaluationCount
      { entry := e, wasInitialized := (s.entries e).initialized, phase := .queued }
    evaluationCount := s.evaluationCount + 1
    evaluatingEntries := s.evaluatingEntries + 1 }

/-- `ensureCurrent`, of an entry that is not removed: the evaluation to await, if any. -/
def ensureCurrent (e target : Nat) : State × Option Nat :=
  let raised := s.raiseDirty e target
  let entry := raised.entries e
  if entry.initialized ∧ entry.commitVersion ≥ target then (raised, none)
  else
    match entry.evaluation with
    | some t => (raised, some t)
    | none => (raised.submit e, some raised.evaluationCount)

/-- What `installEvaluation` returns. -/
inductive InstallOutcome where
  /-- There was no room; the listeners the removed entry had. -/
  | overflowed (message : String) (listeners : List Nat)
  | installed (previousVersion : Option Nat) (forceReset : Bool)

/-- `installEvaluation`. -/
def installEvaluation (e : Nat)
    (evaluated : QueryEvaluation) (now : Int) : State × InstallOutcome :=
  let resultBytes := options.byteLength evaluated.encoded
  match s.makeResultCapacity options e resultBytes with
  | (s, some message) => (s.removeEntry e, .overflowed message (s.entries e).listeners)
  | (s, none) =>
    let entry := s.entries e
    let installed := installResult s.records e entry s.history evaluated resultBytes
      (s.fresh options) now
    ({ s with
        entries := update s.entries e installed.entry
        history := installed.history
        resultBytes := s.resultBytes + (resultBytes - entry.resultBytes)
        records := s.records + 1
        outbox := { s.outbox with
          generations := s.outbox.generations + if installed.forceReset then 1 else 0 } },
      .installed installed.previousVersion installed.forceReset)

/-! ## Deliveries and reports -/

/-- `deliverQuery`, called for a listener; the delivery gets the next number. -/
def deliverTo (l : Nat) (positiveResume forceReset : Bool) :
    State :=
  let listener := s.outbox.listeners l
  { s with
    outbox := s.outbox.begin options l
      (deliverQuery s.history listener.entry (s.entries listener.entry) listener.authEpoch
        listener.cursor positiveResume forceReset) }

/-- `deliverInstalled`: one delivery to each listener, all started in the same turn. -/
def deliverInstalled (e : Nat) (forceReset : Bool) :
    State × List Nat :=
  let listeners := (s.entries e).listeners
  (listeners.foldl (fun s l => s.deliverTo options l false forceReset) s,
    List.range' s.outbox.deliveryCount listeners.length)

/-- The send that reports a failure to a listener. -/
def reportSend (kind : ReportKind) (outcome : Outcome) (listener : QueryListener) : Send :=
  match kind with
  | .error => .error outcome
  | .revocation nextAuthEpoch => .revocation (nextAuthEpoch.getD listener.authEpoch) outcome
  | .rotation nextAuthEpoch => .revocation nextAuthEpoch outcome

/-- Before `rotateAuth` and `revoke` tell a listener, they detach it; the other reports are
about an entry that was removed. -/
def reportDetach (kind : ReportKind) (l : Nat) (now : Int) : State :=
  match kind with
  | .revocation (some _) => s.detach l now
  | .rotation _ => s.detach l now
  | _ => s

/-- The turn of a report for a query listener. -/
def tellQuery (r l : Nat) (report : Report)
    (rest : List Binding) (now : Int) : State :=
  let s := s.reportDetach report.kind l now
  { s with
    outbox := s.outbox.beginSend options l
      (reportSend report.kind report.outcome (s.outbox.listeners l))
    reports := s.reports.set r
      { report with left := rest, waiting := some (.delivery s.outbox.deliveryCount) } }

/-- Change an event listener. -/
def setEvent (m : Nat) (listener : EventListener) : State :=
  { s with
    events := { s.events with listeners := update s.events.listeners m listener } }

/-- An event listener whose subscription ends: `rotateAuth` only waits for the deliveries already
queued, `revoke` queues the outcome. -/
def toldEvent (report : Report) (listener : EventListener) : EventListener :=
  match report.kind with
  | .rotation _ => listener
  | _ => listener.enqueue (.error report.outcome)

/-- The turn of a report for an event listener. -/
def tellEvent (r m : Nat) (report : Report) (rest : List Binding) : State :=
  let detached := s.detachEvent m
  let told := toldEvent report (detached.events.listeners m)
  { detached.setEvent m told with
    reports := detached.reports.set r
      { report with left := rest, waiting := some (.works m told.queued) } }

/-- The next turn of a report. -/
def reportNext (r : Nat) (now : Int) : State :=
  match s.reports[r]? with
  | some report =>
    match report.left with
    | .query l :: rest => s.tellQuery options r l report rest now
    | .event m :: rest => s.tellEvent r m report rest
    | [] => s
  | none => s

/-- Start a report under the next number; it tells its first listener in the same turn. -/
def report (kind : ReportKind) (outcome : Outcome)
    (listeners : List Binding) (now : Int) : State :=
  reportNext options
    { s with reports := s.reports ++ [{ kind, outcome, left := listeners, waiting := none }] }
    s.reports.length now

/-- `failEntry`: the report it starts, if any. -/
def failEntry (e : Nat) (error : Thrown) :
    State × Option Nat :=
  if (s.entries e).removed then (s, none)
  else
    let outcome := errorOutcome error
    let kind := if isAuthFailure outcome then ReportKind.revocation none else .error
    ((s.removeEntry e).report options kind outcome ((s.entries e).listeners.map .query) 0,
      some (s.removeEntry e).reports.length)

/-! ## The turns of an evaluation -/

section

variable (t : Nat)

/-- The executor starts the work of an evaluation. -/
def startEvaluation : Option State :=
  let e := (s.evaluations t).entry
  let entry := s.entries e
  if (s.evaluations t).phase ≠ .queued then none
  else if entry.removed then
    some (s.setPhase t (.threw (unavailableError "Subscription entry was evicted")))
  else if !entry.initialized || entry.commitVersion < entry.dirtyVersion then
    some ((s.setEntry e { entry with evaluationGeneration := entry.evaluationGeneration + 1 }).setPhase
      t (.running (entry.evaluationGeneration + 1)))
  else some (s.setPhase t (.finished none))

/-- Whether a failure may end the phase: the executor rejects queued work, and the query
evaluator may reject. -/
def mayFail : EvaluationPhase → Bool
  | .queued => true
  | .running _ => true
  | _ => false

/-- The executor rejects an evaluation, or `evaluateQuery` rejects. -/
def failEvaluation (error : Thrown) : Option State :=
  if mayFail (s.evaluations t).phase then some (s.setPhase t (.threw error)) else none

/-- The end of `evaluateOnce`: the entry has to reach the newest version. -/
def closeEvaluation : State :=
  let e := (s.evaluations t).entry
  let raised := s.raiseDirty e s.highWater
  if (raised.entries e).removed then
    raised.setPhase t (.threw (unavailableError "Subscription entry was evicted"))
  else raised.setPhase t (.finished none)

/-- The turn after `installEvaluation` returned. -/
def afterInstall (outcome : InstallOutcome) :
    State :=
  match outcome with
  | .overflowed message [] => s.setPhase t (.threw (overloadedError message))
  | .overflowed message (l :: rest) =>
    (s.report options .error (overloadOutcome message) ((l :: rest).map .query) 0).setPhase t
      (.reporting s.reports.length)
  | .installed none _ => s.setPhase t (.delivering [])
  | .installed (some _) forceReset =>
    let delivered := s.deliverInstalled options (s.evaluations t).entry forceReset
    delivered.1.setPhase t (.delivering delivered.2)

/-- `evaluateQuery` returned: the version is checked and the result installed, if the entry
still waits for this evaluation and the version is the high-water. -/
def evaluated (result : Result)
    (readSet : List String) (commitVersion : Nat) (now : Int) : Option State :=
  let e := (s.evaluations t).entry
  match (s.evaluations t).phase with
  | .running evaluationGeneration =>
    match encodeExecution result readSet commitVersion with
    | .error _ => some (s.setPhase t (.threw (.foreign "encode")))
    | .ok evaluation =>
      if commitVersion > s.highWater then
        some (s.setPhase t (.threw futureCommit))
      else
        match s.publication.compareAndInstall commitVersion with
        | .error error => some (s.setPhase t (.threw error))
        | .ok current =>
          if !current || (s.entries e).removed ||
              (s.entries e).evaluationGeneration != evaluationGeneration then
            some (s.closeEvaluation t)
          else
            let installed := s.installEvaluation options e evaluation now
            some (installed.1.afterInstall options t installed.2)
  | _ => none

/-- The handler of a rejected execution. -/
def catchEvaluation : Option State :=
  let evaluation := s.evaluations t
  match evaluation.phase with
  | .threw error =>
    if !evaluation.wasInitialized then
      some ((s.removeEntry evaluation.entry).setPhase t (.finished (some error)))
    else if (s.entries evaluation.entry).listeners.isEmpty then
      some ((s.removeEntry evaluation.entry).setPhase t (.finished none))
    else
      match s.failEntry options evaluation.entry error with
      | (s, some r) => some (s.setPhase t (.reporting r))
      | (s, none) => some (s.setPhase t (.finished none))
  | _ => none

/-- The end of `evaluateOnce`, after the deliveries or the reports it awaits. -/
def finishEvaluation : Option State :=
  match (s.evaluations t).phase with
  | .delivering deliveries =>
    if deliveries.all fun d => (s.outbox.deliveries d).settled then some (s.closeEvaluation t) else none
  | .reporting r => if s.reported r then some (s.setPhase t (.finished none)) else none
  | _ => none

/-- `release`: the entry forgets the evaluation. -/
def releaseEntry (now : Int) : State :=
  let e := (s.evaluations t).entry
  let entry := s.entries e
  let owned := entry.evaluation == some t
  let sleeps := entry.listeners.isEmpty && entry.initialized && entry.dormantAtMs.isNone
  { s with
    entries := update s.entries e
      { entry with
        evaluation := if owned then none else entry.evaluation
        dormantAtMs := if sleeps then some now else entry.dormantAtMs }
    evaluatingEntries := s.evaluatingEntries - if owned then 1 else 0
    dormantEntries := s.dormantEntries + if sleeps then 1 else 0 }

/-- The handler of a settled execution: release, and start the next evaluation if the entry
fell behind meanwhile. -/
def release (now : Int) : Option State :=
  let e := (s.evaluations t).entry
  match (s.evaluations t).phase with
  | .finished none =>
    let released := (s.releaseEntry t now).setPhase t (.settled none)
    let entry := released.entries e
    if !entry.removed && entry.commitVersion < entry.dirtyVersion then
      match released.ensureCurrent e entry.dirtyVersion with
      | (s, some newer) => some (s.setPhase t (.chained newer))
      | (s, none) => some s
    else some released
  | .finished (some error) => some ((s.releaseEntry t now).setPhase t (.settled (some error)))
  | _ => none

/-- The evaluation that was started in turn settles. -/
def finishChain : Option State :=
  match (s.evaluations t).phase with
  | .chained newer =>
    match (s.evaluations newer).phase with
    | .settled error => some (s.setPhase t (.settled error))
    | _ => none
  | _ => none

end

/-! ## Subscriptions -/

/-- `assertSubscriptionIdentity`. -/
def identityFree (subscriber id : Nat) : Bool :=
  decide (0 < id) && decide (id ≤ maxSafeInteger) && ((s.bySubscriber subscriber).lookup id).isNone

variable (c : Nat)

section

variable (call : SubscribeCall)

/-- Replace a `subscribeQuery` call. -/
def setCall : State :=
  { s with calls := s.calls.set c call }

/-- The outer handler of `subscribeQuery`: the call rejects. -/
def rejectCall : State :=
  let entry := s.entries call.entry
  let unused := entry.listeners.isEmpty && !entry.initialized && entry.evaluation.isNone
  (if unused then s.removeEntry call.entry else s).setCall c { call with phase := .finished false }

/-- The head of the loop of `subscribeQuery`. -/
def awaitCurrent : State :=
  if (s.entries call.entry).removed then s.rejectCall c call
  else
    let ensured := s.ensureCurrent call.entry s.highWater
    ensured.1.setCall c { call with phase := .waiting ensured.2 }

/-- `entryFor` and the head of the loop, under a call that is recorded. -/
def enterCall (now : Int) :
    State :=
  match s.entryFor options call.key now with
  | (s, some e) => s.awaitCurrent c { call with entry := e }
  | (s, none) => s.rejectCall c call

/-- `subscribeQuery`, up to its first await. -/
def subscribeQuery (subscriber id : Nat) (address : String)
    (args : JsValue) (policyScopeFingerprint : String) (authEpoch : Nat)
    (cursor : Option SubscriptionCursor) (now : Int) : State :=
  if !decide (authEpoch ≤ maxSafeInteger) || !s.identityFree subscriber id then s
  else
    match Wire.stableEncode args with
    | .error _ => s
    | .ok encodedArgs =>
      let key : QueryKey := { address, encodedArgs, policyScopeFingerprint }
      match s.entryFor options key now with
      | (s, none) => s
      | (s, some e) =>
        awaitCurrent
          { s with
            calls := s.calls ++
              [{ subscriber, id, key, authEpoch, cursor, entry := e, phase := .waiting none }] }
          s.calls.length
          { subscriber, id, key, authEpoch, cursor, entry := e, phase := .waiting none }

/-- How an awaited `ensureCurrent` settled, if it has. -/
def awaited : Option Nat → Option (Option Thrown)
  | none => some none
  | some t =>
    match (s.evaluations t).phase with
    | .settled error => some error
    | _ => none

/-- Attach the listener of a call and start its first delivery. -/
def establish : State :=
  let attached := s.attach
    { subscriber := call.subscriber, id := call.id, entry := call.entry
      authEpoch := call.authEpoch, cursor := call.cursor }
  (attached.deliverTo options s.outbox.listenerCount true false).setCall c
    { call with phase := .delivering s.outbox.listenerCount s.outbox.deliveryCount }

end

/-- The turn of `subscribeQuery` after `ensureCurrent` settled. -/
def resumeSubscribe (now : Int) : Option State :=
  match s.calls[c]? with
  | some call =>
    match call.phase with
    | .waiting evaluation =>
      match s.awaited evaluation with
      | none => none
      | some (some _) => some (s.rejectCall c call)
      | some none =>
        match s.publication.compareAndInstall (s.entries call.entry).commitVersion with
        | .error _ => some (s.rejectCall c call)
        | .ok current =>
          if (s.entries call.entry).removed then some (s.enterCall options c call now)
          else if !current then some (s.awaitCurrent c call)
          else if !s.identityFree call.subscriber call.id then some (s.rejectCall c call)
          else some (s.establish options c call)
    | _ => none
  | none => none

/-- The turn of `subscribeQuery` after its first delivery settled. -/
def finishSubscribe (now : Int) : Option State :=
  match s.calls[c]? with
  | some call =>
    match call.phase with
    | .delivering l d =>
      match (s.outbox.deliveries d).state with
      | .succeeded => some (s.setCall c { call with phase := .finished true })
      | .failed => some ((s.detach l now).rejectCall c call)
      | _ => none
    | _ => none
  | none => none

/-- `unsubscribe`. -/
def unsubscribe (subscriber id : Nat) (now : Int) : State :=
  match (s.bySubscriber subscriber).lookup id with
  | some binding => s.detachBinding binding now
  | none => s

/-- `disconnect`. -/
def disconnect (subscriber : Nat) (now : Int) : State :=
  ((s.bySubscriber subscriber).map Prod.snd).foldl (fun s binding => s.detachBinding binding now) s

/-- `reset`. -/
def reset (options : ReactiveOptions) (s : State) (subscriber id : Nat)
    (source : SubscriptionCursor) : State :=
  match (s.bySubscriber subscriber).lookup id with
  | none => s
  -- only query subscriptions have reset cursors
  | some (.event _) => s
  | some (.query l) =>
    let listener := s.outbox.listeners l
    { s with
      outbox := s.outbox.begin options l
        [resetTransition (s.entries listener.entry) listener.authEpoch source] }

/-! ## Event subscriptions -/

/-- `subscribeEvent`, up to its first await. -/
def subscribeEvent (subscriber id : Nat) (table : String)
    (matches_ : Nat → JsValue → Except Thrown Bool) (authEpoch : Nat) : State :=
  if !decide (authEpoch ≤ maxSafeInteger) || !s.identityFree subscriber id then s
  else
    { s.attachEvent
        (openEvent subscriber id table matches_ authEpoch (s.fresh options) s.highWater) with
      outbox := { s.outbox with generations := s.outbox.generations + 1 } }

/-- The handler of a `subscribeEvent` whose reset could not be sent. -/
def failSubscribeEvent (m : Nat) : Option State :=
  let listener := s.events.listeners m
  if listener.call = .failed then
    some ((s.setEvent m { listener with call := .finished }).detachEvent m)
  else none

/-- A delivery of an event listener settles. -/
def settleEvent (m : Nat) (failed : Bool) : Option State :=
  let listener := s.events.listeners m
  (if failed then listener.sendFailed else listener.sent).map (s.setEvent m)

/-! ## Convergence and revocation -/

/-- Replace a `converge` call. -/
def setConvergence (convergence : Convergence) : State :=
  { s with convergences := s.convergences.set c convergence }

/-- Whether `converge` skips a binding. -/
def skipsBinding (convergence : Convergence) (l : Nat) : Bool :=
  let listener := s.outbox.listeners l
  decide (listener.entry ∈ convergence.entries) ||
    decide ((s.bySubscriber convergence.subscriber).lookup listener.id ≠ some (.query l)) ||
    listener.cursor.any fun cursor => decide (cursor.commitVersion ≥ convergence.minimumVersion)

/-- The next turn of a `converge` call: an entry, or else a binding. -/
def convergeNext (convergence : Convergence) :
    Option State :=
  match convergence.entriesLeft with
  | e :: rest =>
    let raised := s.raiseDirty e convergence.minimumVersion
    let left := { convergence with entriesLeft := rest }
    if (raised.entries e).removed then some (raised.setConvergence c { left with wait := .ready })
    else
      match raised.ensureCurrent e convergence.minimumVersion with
      | (s, none) => some (s.setConvergence c { left with wait := .ready })
      | (s, some t) => some (s.setConvergence c { left with wait := .evaluation e t })
  | [] =>
    match convergence.bindingsLeft.dropWhile (s.skipsBinding convergence) with
    | [] => none
    | l :: rest =>
      some ((s.deliverTo options l false false).setConvergence c
        { convergence with bindingsLeft := rest, wait := .delivery s.outbox.deliveryCount })

/-- The continuation of a `converge` call. -/
def resumeConverge : Option State :=
  match s.convergences[c]? with
  | none => none
  | some convergence =>
    match convergence.wait with
    | .ready => s.convergeNext options c convergence
    | .delivery d =>
      if (s.outbox.deliveries d).settled then s.convergeNext options c convergence else none
    | .report r => if s.reported r then s.convergeNext options c convergence else none
    | .evaluation e t =>
      match s.awaited (some t) with
      | none => none
      | some none => s.convergeNext options c convergence
      | some (some error) =>
        match s.failEntry options e error with
        | (s, some r) => some (s.setConvergence c { convergence with wait := .report r })
        | (s, none) => some (s.setConvergence c { convergence with wait := .ready })

/-- What a `converge` call has to do: the entries behind the version, and the bindings. -/
def convergenceFor (subscriber minimumVersion : Nat) : Convergence :=
  let bindings := (s.bySubscriber subscriber).filterMap fun binding => binding.2.query?
  let entries := ((bindings.map fun l => (s.outbox.listeners l).entry).filter fun e =>
    (s.entries e).commitVersion < minimumVersion).eraseDups
  { subscriber, minimumVersion, entries, entriesLeft := entries, bindingsLeft := bindings
    wait := .ready }

/-- Record a `converge` call. -/
def addConvergence (convergence : Convergence) : State :=
  { s with convergences := s.convergences ++ [convergence] }

/-- `converge`, up to its first await. -/
def converge (subscriber minimumVersion : Nat) : State :=
  if minimumVersion > s.highWater then s
  else
    let convergence := s.convergenceFor subscriber minimumVersion
    let called := s.addConvergence convergence
    (called.convergeNext options s.convergences.length convergence).getD called

/-- The epoch of a binding. -/
def bindingEpoch : Binding → Nat
  | .query l => (s.outbox.listeners l).authEpoch
  | .event m => (s.events.listeners m).authEpoch

variable (subscriber nextAuthEpoch : Nat)

/-- What `rotateAuth` and `revoke` have in common, up to their first await. -/
def endBindings
    (kind : ReportKind) (outcome : Outcome) (now : Int) : State :=
  let bindings := (s.bySubscriber subscriber).map Prod.snd
  if !decide (nextAuthEpoch ≤ maxSafeInteger) ||
      bindings.any fun binding => decide (nextAuthEpoch ≤ s.bindingEpoch binding) then s
  else s.report options kind outcome bindings now

/-- `revoke`. -/
def revoke
    (outcome : Outcome) (now : Int) : State :=
  s.endBindings options subscriber nextAuthEpoch (.revocation (some nextAuthEpoch)) outcome now

/-- `rotateAuth`. -/
def rotateAuth
    (now : Int) : State :=
  s.endBindings options subscriber nextAuthEpoch (.rotation nextAuthEpoch)
    (authOutcome .authStale "Authentication changed") now

/-- The continuation of a report. -/
def resumeReport (r : Nat) (now : Int) : Option State :=
  match s.reports[r]? with
  | some report =>
    if report.left.isEmpty || !report.waiting.all s.waited then none
    else some (s.reportNext options r now)
  | none => none

/-! ## Publications -/

/-- `reserve`, by the writer. -/
def reserve (bytes : Nat) (now : Int) : State :=
  match s.publication.reserve bytes now with
  | .ok (publication, _) => { s with publication }
  | .error _ => s

/-- `resize`, of the open reservation. -/
def resize (bytes : Nat) : Option State := do
  let id ← s.publication.openReservation
  match s.publication.resizeSlot id bytes with
  | .ok publication => some { s with publication }
  | .error _ => some s

/-- `cancel`, of the open reservation. -/
def cancel : Option State := do
  let id ← s.publication.openReservation
  match s.publication.cancelSlot id with
  | .ok publication => some { s with publication }
  | .error _ => none

/-- `commit`, of the open reservation. -/
def commit (published : ReactiveCommit) : Option State := do
  let id ← s.publication.openReservation
  match s.publication.commitSlot id published with
  | .ok publication =>
    some { s with
      publication
      commits := update s.commits publication.committedHighWater published }
  | .error _ => none

/-- `dependencies.affected`: the live entries that read one of the keys. -/
def affected (writeKeys : List String) : List Nat :=
  s.liveEntries.filter fun e => (s.entries e).readSet.any fun key => key ∈ writeKeys

/-- The turn of `processPublication` for one affected entry. -/
def revalidate (version : Nat) (s : State) (e : Nat) : State :=
  if (s.entries e).removed || (s.entries e).commitVersion ≥ version then s
  else ((s.raiseDirty e version).ensureCurrent e version).1

/-- `publishEvent`: the row meets the listeners its table has. -/
def publishEvent (commitVersion : Nat) (s : State) (event : ReactiveEvent) : State :=
  (s.events.states event.table).foldl (fun s m =>
    s.setEvent m ((s.events.listeners m).offer commitVersion event.row)) s

/-- `scheduleEvents`. -/
def scheduleEvents (commitVersion : Nat) (events : List ReactiveEvent) : State :=
  events.foldl (publishEvent commitVersion) s

/-- `processPublication`. -/
def processPublication (version : Nat) (commit : ReactiveCommit) : State :=
  let revalidated := (s.affected commit.writeKeys).foldl (revalidate version) s
  let scheduled := revalidated.scheduleEvents version commit.events
  { scheduled with processed := scheduled.processed ++ [version] }

/-- The microtask of the publication. -/
def publish : Option State := do
  let (publication, slot) ← s.publication.startScheduled
  let processed := { s with publication }.processPublication slot.version
    (slot.value.getD ⟨[], []⟩)
  return { processed with publication := processed.publication.handedOff }

/-- The processing of a slot settles; where it succeeds, dormant entries are pruned before. -/
def settle (id : Nat) (failed : Bool) (now : Int) :
    Option State := do
  let slot ← s.publication.slot? id
  if slot.state = .processing ∧ s.publication.scheduled ≠ some id then
    let pruned := if failed then s else s.prune options now
    some { pruned with publication := pruned.publication.settle slot failed }
  else none

end State

/-! ## The machine -/

/-- One turn. -/
inductive Event where
  | reserve (bytes : Nat) (now : Int)
  | resize (bytes : Nat)
  | cancel
  | commit (writeKeys : List String) (events : List ReactiveEvent := [])
  | publish
  | settle (slot : Nat) (failed : Bool) (now : Int)
  | subscribeQuery (subscriber id : Nat) (address : String) (args : JsValue)
      (policyScopeFingerprint : String) (authEpoch : Nat) (cursor : Option SubscriptionCursor)
      (now : Int)
  | resumeSubscribe (call : Nat) (now : Int)
  | finishSubscribe (call : Nat) (now : Int)
  | unsubscribe (subscriber id : Nat) (now : Int)
  | disconnect (subscriber : Nat) (now : Int)
  | reset (subscriber id : Nat) (source : SubscriptionCursor)
  | converge (subscriber minimumVersion : Nat)
  | resumeConverge (call : Nat)
  | revoke (subscriber nextAuthEpoch : Nat) (outcome : Outcome) (now : Int)
  | rotateAuth (subscriber nextAuthEpoch : Nat) (now : Int)
  | subscribeEvent (subscriber id : Nat) (table : String)
      (matches_ : Nat → JsValue → Except Thrown Bool) (authEpoch : Nat)
  | failSubscribeEvent (listener : Nat)
  | settleEvent (listener : Nat) (failed : Bool)
  | resumeReport (report : Nat) (now : Int)
  | startEvaluation (evaluation : Nat)
  | failEvaluation (evaluation : Nat) (error : Thrown)
  | evaluated (evaluation : Nat) (result : Result) (readSet : List String) (commitVersion : Nat)
      (now : Int)
  | catchEvaluation (evaluation : Nat)
  | finishEvaluation (evaluation : Nat)
  | release (evaluation : Nat) (now : Int)
  | finishChain (evaluation : Nat)
  | sent (listener : Nat)
  | sendFailed (listener : Nat)
  | resumeDelivery (delivery : Nat)
  | prune (now : Int)
  | close

/-- The step of an event, if it can happen. -/
def step (options : ReactiveOptions) (s : State) : Event → Option State
  | .reserve bytes now => some (s.reserve bytes now)
  | .resize bytes => s.resize bytes
  | .cancel => s.cancel
  | .commit writeKeys events => s.commit ⟨writeKeys, events⟩
  | .publish => s.publish
  | .settle slot failed now => s.settle options slot failed now
  | .subscribeQuery subscriber id address args fingerprint authEpoch cursor now =>
    some (s.subscribeQuery options subscriber id address args fingerprint authEpoch cursor now)
  | .resumeSubscribe call now => s.resumeSubscribe options call now
  | .finishSubscribe call now => s.finishSubscribe call now
  | .unsubscribe subscriber id now => some (s.unsubscribe subscriber id now)
  | .disconnect subscriber now => some (s.disconnect subscriber now)
  | .reset subscriber id source => some (s.reset options subscriber id source)
  | .converge subscriber minimumVersion => some (s.converge options subscriber minimumVersion)
  | .resumeConverge call => s.resumeConverge options call
  | .revoke subscriber nextAuthEpoch outcome now =>
    some (s.revoke options subscriber nextAuthEpoch outcome now)
  | .rotateAuth subscriber nextAuthEpoch now =>
    some (s.rotateAuth options subscriber nextAuthEpoch now)
  | .subscribeEvent subscriber id table matches_ authEpoch =>
    some (s.subscribeEvent options subscriber id table matches_ authEpoch)
  | .failSubscribeEvent m => s.failSubscribeEvent m
  | .settleEvent m failed => s.settleEvent m failed
  | .resumeReport report now => s.resumeReport options report now
  | .startEvaluation t => s.startEvaluation t
  | .failEvaluation t error => s.failEvaluation t error
  | .evaluated t result readSet commitVersion now =>
    s.evaluated options t result readSet commitVersion now
  | .catchEvaluation t => s.catchEvaluation options t
  | .finishEvaluation t => s.finishEvaluation t
  | .release t now => s.release t now
  | .finishChain t => s.finishChain t
  | .sent l => (s.outbox.sent options l).map fun outbox => { s with outbox }
  | .sendFailed l => (s.outbox.sendFailed options l).map fun outbox => { s with outbox }
  | .resumeDelivery d => (s.outbox.resume options d).map fun outbox => { s with outbox }
  | .prune now => some (s.prune options now)
  | .close => some { s with publication := s.publication.close }

/-- Small settings under which runs can be followed by hand. -/
def sampleOptions : ReactiveOptions where
  maxSharedSubscriptions := 8
  maxSharedResultBytes := 1000
  maxFrameBytes := 100
  resume :=
    { maxTransitionsPerStream := 4, maxBytesPerStream := 200, maxAgeMs := 60000, maxBytes := 500 }
  publication := { maxItems := 8, maxBytes := 1000 }
  initialVersion := 0
  nextGeneration := fun n => if n = 0 then "g0" else if n = 1 then "g1" else "g2"
  identity := fun _ => "notes"
  byteLength := fun _ => 1
  nextGeneration_bounded := by
    intro n
    split
    · decide
    · split <;> decide
  identity_bounded := fun _ => by decide

end Reactive

end AckerDB
