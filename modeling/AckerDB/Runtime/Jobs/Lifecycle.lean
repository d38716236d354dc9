import AckerDB.Runtime.Jobs.Machine

/-!
# The lifecycle of a Job

What the transactions of the runner do to the tables, change by change, and the structure every
change keeps.

* `Change` — admission, claim, settlement, retry, suspension, journal, reopening, reschedule,
  retention;
* `Consistent` — the numbers of the runs of a Job, its latest run, and the lease it holds in each
  state of the Job;
* `Change.consistent` — every change keeps the tables consistent.
-/

namespace AckerDB.Jobs

open RowTable

/-! ## Writes of rows that exist -/

namespace Tables

/-- The tables with a Job changed. -/
def setJob (t : Tables) (id : Nat) (change : JobRow → JobRow) : Tables :=
  { t with jobs := t.jobs.patch JobRow.id id change }

/-- The tables with a run changed. -/
def setRun (t : Tables) (id : Nat) (change : JobRunRow → JobRunRow) : Tables :=
  { t with runs := t.runs.patch JobRunRow.id id change }

variable {t : Tables} {id : Nat} {after : Tables}

theorem patchJob_eq_some {change : JobRow → JobRow} (h : t.patchJob id change = some after) :
    (∃ job, t.jobById id = some job) ∧ after = t.setJob id change := by
  unfold patchJob at h
  split at h
  · rename_i hsome
    cases h
    exact ⟨Option.isSome_iff_exists.1 hsome, rfl⟩
  · cases h

theorem patchRun_eq_some {change : JobRunRow → JobRunRow} (h : t.patchRun id change = some after) :
    (∃ run, t.runById id = some run) ∧ after = t.setRun id change := by
  unfold patchRun at h
  split at h
  · rename_i hsome
    cases h
    exact ⟨Option.isSome_iff_exists.1 hsome, rfl⟩
  · cases h

theorem mem_of_jobById {job : JobRow} (h : t.jobById id = some job) :
    job ∈ t.jobs.rows ∧ job.id = id := mem_of_byId h

theorem mem_of_runById {run : JobRunRow} (h : t.runById id = some run) :
    run ∈ t.runs.rows ∧ run.id = id := mem_of_byId h

theorem mem_of_byNumber {number : Nat} {run : JobRunRow} (h : t.byNumber id number = some run) :
    run ∈ t.runs.rows ∧ run.jobId = id ∧ run.number = number := by
  have hfound := List.find?_some h
  simp only [decide_eq_true_eq] at hfound
  exact ⟨List.mem_of_find?_eq_some h, hfound⟩

@[simp] theorem setRun_jobs (change : JobRunRow → JobRunRow) : (t.setRun id change).jobs = t.jobs :=
  rfl

@[simp] theorem setJob_runs (change : JobRow → JobRow) : (t.setJob id change).runs = t.runs := rfl

end Tables

/-! ## Changes -/

/-- The lease of a claim. -/
def leaseRun (options : Options) (now : Millis) (count : Nat) (run : JobRunRow) : JobRunRow :=
  { run with leaseToken := some ⟨now, count⟩, leaseUntil := some (now + options.leaseMs) }

/-- The run a claim creates. -/
def openedRun (options : Options) (job : JobRow) (now : Millis) (count : Nat) : Nat → JobRunRow :=
  freshRun job now ⟨now, count⟩ (now + options.leaseMs)

/-- The end of a run, if it is running. -/
def endRun (t : Tables) (run : Option JobRunRow) (outcome : TerminalOutcome) (now : Millis)
    (stamp : Option Millis) : Tables :=
  match run with
  | some run => if run.state = .running then t.setRun run.id (settleRun outcome now stamp) else t
  | none => t

/-- The end of a Job and of its current run, before the next occurrence is minted. -/
def settledTables (t : Tables) (job : JobRow) (outcome : TerminalOutcome) (now : Millis)
    (stamp : Option Millis) : Tables :=
  (endRun t (t.latestRun job) outcome now stamp).setJob job.id (settleJob outcome now stamp)

/-- A run that gives up its lease. -/
def unleaseRun (run : JobRunRow) : JobRunRow := { run with leaseToken := none, leaseUntil := none }

/-- A Job that sleeps. -/
def suspendJob (wakeAt : Millis) (job : JobRow) : JobRow :=
  { job with state := .pending, nextRunAt := wakeAt, nextRunTrigger := none }

/-- A Job whose journal was written. -/
def journalJob (text : StepsText) (job : JobRow) : JobRow := { job with stepsJson := some text }

/-- A Job that is given another run. -/
def reopenJob (state : JobState) (trigger : JobRunTrigger) (clears : Bool) (now : Millis)
    (job : JobRow) : JobRow :=
  { job with
    state := state
    nextRunTrigger := some trigger
    stepsJson := if clears then some (.entries []) else job.stepsJson
    nextRunAt := now
    settledAt := none
    deleteAfter := none }

/-- **What a transaction does**, other than the deletion a caller asks for.  A Job that is settled
existed when the transaction began: its number is below the horizon. -/
inductive Change (options : Options) (horizon : Nat) : Tables → Tables → Prop
  | admitted (t : Tables) (job : Admission) : job.parentJobId = none →
      Change options horizon t (insertJob t job)
  | opened {t : Tables} {job : JobRow} (now : Millis) (count : Nat) :
      job ∈ t.jobs.rows → job.state = .pending ∨ job.state = .retrying →
      suspendedRun t job = none → claimable options t job = true →
      Change options horizon t (({ t with runs := t.runs.insert (openedRun options job now count) } :
        Tables).setJob job.id (claimJob (job.runCount + 1)))
  | resumed {t : Tables} {job : JobRow} {run : JobRunRow} (now : Millis) (count : Nat) :
      job ∈ t.jobs.rows → suspendedRun t job = some run → claimable options t job = true →
      Change options horizon t ((t.setRun run.id (leaseRun options now count)).setJob job.id
        (claimJob run.number))
  | settled {t : Tables} {job : JobRow} (outcome : TerminalOutcome) (now : Millis)
      (stamp : Option Millis) : job ∈ t.jobs.rows → job.live = true → job.id < horizon →
      Change options horizon t (mintRepeat options (settledTables t job outcome now stamp) job now)
  | retried {t : Tables} {job : JobRow} {run : JobRunRow} (error : JobError)
      (now nextRetryAt : Millis) (stamp : Option Millis) : job ∈ t.jobs.rows → run ∈ t.runs.rows → run.jobId = job.id →
      run.state = .running →
      Change options horizon t ((t.setRun run.id (failRun error now stamp)).setJob job.id
        (retryJob nextRetryAt))
  | suspended {t : Tables} {job : JobRow} {run : JobRunRow} (wakeAt : Millis) :
      job ∈ t.jobs.rows → run ∈ t.runs.rows → run.jobId = job.id → run.state = .running →
      Change options horizon t ((t.setRun run.id unleaseRun).setJob job.id (suspendJob wakeAt))
  | recorded {t : Tables} {job : JobRow} {entry : StepEntry} {text : StepsText} :
      job ∈ t.jobs.rows → appendEntry options job.stepsJson entry = .ok text →
      Change options horizon t (t.setJob job.id (journalJob text))
  | reopened {t : Tables} {job : JobRow} (state : JobState) (trigger : JobRunTrigger)
      (clears : Bool) (now : Millis) : job ∈ t.jobs.rows → job.state.isTerminal = true →
      state = .pending ∨ state = .retrying →
      Change options horizon t (t.setJob job.id (reopenJob state trigger clears now))
  | restamped {t : Tables} {run : JobRunRow} (stamp : Option Millis) : run ∈ t.runs.rows →
      run.state ≠ .running →
      Change options horizon t (t.setRun run.id fun run => { run with deleteAfter := stamp })
  | rescheduled {t : Tables} {job : JobRow} (dueAt : Millis) : job ∈ t.jobs.rows →
      job.state = .pending ∨ job.state = .retrying →
      Change options horizon t (t.setJob job.id fun job => { job with nextRunAt := dueAt })
  | reaped {t : Tables} {id : Nat} :
      (∀ job ∈ t.jobs.rows, job.id = id → job.deleteAfter.isSome = true) →
      Change options horizon t (t.deleteWithRuns id)
  | expired {t : Tables} {id : Nat} :
      (∀ run ∈ t.runs.rows, run.id = id → ∀ job ∈ t.jobs.rows, job.id = run.jobId →
        job.runCount ≠ run.number) →
      Change options horizon t { t with runs := t.runs.delete JobRunRow.id id }

/-- The changes of one transaction. -/
abbrev Changes (options : Options) (horizon : Nat) : Tables → Tables → Prop :=
  Relation.ReflTransGen (Change options horizon)

/-! ## Consistent tables -/

/-- What the state of a Job says of its latest run. -/
def Current (job : JobRow) (run : JobRunRow) : Prop :=
  match job.state with
  | .running => run.state = .running ∧ run.leaseToken.isSome = true
  | .pending => run.state = .running → run.leaseToken = none ∧ run.leaseUntil = none ∧
      job.nextRunTrigger = none
  | _ => run.state ≠ .running

/-- What a Job says of one of its runs. -/
structure Fits (job : JobRow) (run : JobRunRow) : Prop where
  older : run.number ≠ job.runCount → run.state ≠ .running
  current : run.number = job.runCount → Current job run
  settled : run.state ≠ .running → run.leaseToken = none
  live : run.state = .running → run.deleteAfter = none

/-- **The structure of the tables.** -/
structure Consistent (t : Tables) : Prop where
  jobs : t.jobs.Valid JobRow.id
  runs : t.runs.Valid JobRunRow.id
  owner : ∀ run ∈ t.runs.rows, ∃ job ∈ t.jobs.rows, job.id = run.jobId ∧ 1 ≤ run.number ∧
    run.number ≤ job.runCount
  number : ∀ run ∈ t.runs.rows, ∀ other ∈ t.runs.rows, run.jobId = other.jobId →
    run.number = other.number → run = other
  latest : ∀ job ∈ t.jobs.rows, 0 < job.runCount →
    ∃ run ∈ t.runs.rows, run.jobId = job.id ∧ run.number = job.runCount
  fits : ∀ job ∈ t.jobs.rows, ∀ run ∈ t.runs.rows, run.jobId = job.id → Fits job run
  opened : ∀ job ∈ t.jobs.rows, job.state = .running → 0 < job.runCount
  jobIds : (t.jobs.rows.map JobRow.id).Nodup
  runIds : (t.runs.rows.map JobRunRow.id).Nodup

theorem consistent_empty : Consistent {} where
  jobs := ⟨by simp, by simp⟩
  runs := ⟨by simp, by simp⟩
  jobIds := by simp
  runIds := by simp
  owner := by simp
  number := by simp
  latest := by simp
  fits := by simp
  opened := by simp

variable {options : Options} {horizon : Nat} {t : Tables}

/-- A Job that ends mints one more at most. -/
theorem mintRepeat_induct {P : Tables → Prop} {job : JobRow} {now : Millis} (hkept : P t)
    (hminted : ∀ job, P (insertJob t job)) : P (mintRepeat options t job now) := by
  unfold mintRepeat
  split
  · exact hkept
  split
  · split
    · exact hkept
    · exact hminted _
  · exact hkept

namespace Consistent

variable {job : JobRow} {run : JobRunRow}
variable {changeRun : JobRunRow → JobRunRow} {change : JobRow → JobRow}

section

variable (h : Consistent t)
include h

/-- **One Job and one of its runs are changed.** -/
theorem update {id runId : Nat} (hjob : job ∈ t.jobs.rows) (hid : job.id = id)
    (hkeep : ∀ row, (change row).id = row.id) (hcount : (change job).runCount = job.runCount)
    (hkeepRun : ∀ run, (changeRun run).id = run.id ∧ (changeRun run).jobId = run.jobId ∧
      (changeRun run).number = run.number)
    (howner : ∀ run ∈ t.runs.rows, run.id = runId → run.jobId = id)
    (hfits : ∀ run ∈ t.runs.rows, run.jobId = id →
      Fits (change job) (if run.id = runId then changeRun run else run))
    (hopened : (change job).state = .running → 0 < job.runCount) :
    Consistent ((t.setRun runId changeRun).setJob id change) := by
  have honly : ∀ row ∈ t.jobs.rows, row.id = id → row = job :=
    fun row hrow hsame => h.jobs.distinct row hrow job hjob (hsame.trans hid.symm)
  have hjobs : ∀ row ∈ ((t.setRun runId changeRun).setJob id change).jobs.rows,
      ∃ old ∈ t.jobs.rows, row.id = old.id ∧ row.runCount = old.runCount ∧
        (old = job ∧ row = change job ∨ old.id ≠ id ∧ row = old) := by
    intro row hrow
    obtain ⟨old, hold, rfl⟩ := mem_patch.1 hrow
    by_cases hsame : old.id = id
    · have heq := honly old hold hsame
      subst heq
      exact ⟨old, hold, by rw [if_pos hsame, hkeep], by rw [if_pos hsame, hcount],
        .inl ⟨rfl, by rw [if_pos hsame]⟩⟩
    · exact ⟨old, hold, by rw [if_neg hsame], by rw [if_neg hsame],
        .inr ⟨hsame, by rw [if_neg hsame]⟩⟩
  have hruns : ∀ run ∈ ((t.setRun runId changeRun).setJob id change).runs.rows,
      ∃ old ∈ t.runs.rows, run = (if old.id = runId then changeRun old else old) ∧
        run.id = old.id ∧ run.jobId = old.jobId ∧ run.number = old.number := by
    intro run hrun
    obtain ⟨old, hold, rfl⟩ := mem_patch.1 hrun
    refine ⟨old, hold, rfl, ?_⟩
    by_cases hsame : old.id = runId
    · rw [if_pos hsame]
      exact hkeepRun old
    · rw [if_neg hsame]
      exact ⟨rfl, rfl, rfl⟩
  have hjobsBack : ∀ old ∈ t.jobs.rows,
      ∃ row ∈ ((t.setRun runId changeRun).setJob id change).jobs.rows,
        row.id = old.id ∧ row.runCount = old.runCount := by
    intro old hold
    refine ⟨_, mem_patch.2 ⟨old, hold, rfl⟩, ?_⟩
    by_cases hsame : old.id = id
    · have heq := honly old hold hsame
      subst heq
      rw [if_pos hsame]
      exact ⟨hkeep _, hcount⟩
    · rw [if_neg hsame]
      exact ⟨rfl, rfl⟩
  have hjobIds : (((t.setRun runId changeRun).setJob id change).jobs.rows.map JobRow.id).Nodup := by
    simp only [Tables.setJob, Tables.setRun, map_patch hkeep]
    exact h.jobIds
  have hrunIds :
      (((t.setRun runId changeRun).setJob id change).runs.rows.map JobRunRow.id).Nodup := by
    simp only [Tables.setJob, Tables.setRun, map_patch fun run => (hkeepRun run).1]
    exact h.runIds
  refine ⟨h.jobs.patch hkeep, h.runs.patch fun run => (hkeepRun run).1, ?_, ?_, ?_, ?_, ?_,
    hjobIds, hrunIds⟩
  · intro run hrun
    obtain ⟨old, hold, -, -, hjobId, hnumber⟩ := hruns run hrun
    obtain ⟨parent, hparent, hparentId, hpos, hle⟩ := h.owner old hold
    obtain ⟨row, hrow, hrowId, hrowCount⟩ := hjobsBack parent hparent
    exact ⟨row, hrow, by rw [hrowId, hparentId, hjobId], by rw [hnumber]; exact hpos,
      by rw [hnumber, hrowCount]; exact hle⟩
  · intro run hrun other hother hjobId hnumber
    obtain ⟨a, ha, hrunEq, -, hajob, hanumber⟩ := hruns run hrun
    obtain ⟨b, hb, hotherEq, -, hbjob, hbnumber⟩ := hruns other hother
    have hsame := h.number a ha b hb (by rw [← hajob, ← hbjob, hjobId])
      (by rw [← hanumber, ← hbnumber, hnumber])
    rw [hrunEq, hotherEq, hsame]
  · intro row hrow hpos
    obtain ⟨old, hold, hrowId, hrowCount, -⟩ := hjobs row hrow
    obtain ⟨run, hrun, hrunJob, hrunNumber⟩ := h.latest old hold (by rw [← hrowCount]; exact hpos)
    refine ⟨_, mem_patch.2 ⟨run, hrun, rfl⟩, ?_⟩
    by_cases hsame : run.id = runId
    · rw [if_pos hsame]
      exact ⟨by rw [(hkeepRun run).2.1, hrunJob, hrowId],
        by rw [(hkeepRun run).2.2, hrunNumber, hrowCount]⟩
    · rw [if_neg hsame]
      exact ⟨by rw [hrunJob, hrowId], by rw [hrunNumber, hrowCount]⟩
  · intro row hrow run hrun hjobId
    obtain ⟨old, hold, hrowId, -, hcase⟩ := hjobs row hrow
    obtain ⟨before, hbefore, hrunEq, -, hbeforeJob, -⟩ := hruns run hrun
    have hbeforeId : before.jobId = old.id := by rw [← hbeforeJob, hjobId, hrowId]
    rcases hcase with ⟨rfl, rfl⟩ | ⟨hne, rfl⟩
    · rw [hrunEq]
      exact hfits before hbefore (hbeforeId.trans hid)
    have hother : before.id ≠ runId := by
      intro hsame
      exact hne (hbeforeId.symm.trans (howner before hbefore hsame))
    rw [hrunEq, if_neg hother]
    exact h.fits row hold before hbefore hbeforeId
  · intro row hrow hrunning
    obtain ⟨old, hold, -, hrowCount, hcase⟩ := hjobs row hrow
    rcases hcase with ⟨rfl, rfl⟩ | ⟨-, rfl⟩
    · rw [hrowCount]
      exact hopened hrunning
    · exact h.opened row hold hrunning

/-- Only a Job is changed. -/
theorem updateJob (hjob : job ∈ t.jobs.rows) (hkeep : ∀ row, (change row).id = row.id)
    (hcount : (change job).runCount = job.runCount)
    (hfits : ∀ run ∈ t.runs.rows, run.jobId = job.id → Fits (change job) run)
    (hopened : (change job).state = .running → 0 < job.runCount) :
    Consistent (t.setJob job.id change) := by
  have hnone : t.setRun t.runs.next (fun run => run) = t := by
    simp [Tables.setRun, patch]
  have hupdate := h.update hjob rfl hkeep hcount (fun run => ⟨rfl, rfl, rfl⟩)
    (fun run hrun hnext => absurd hnext (Nat.ne_of_lt (h.runs.below run hrun)))
    (fun run hrun hown => by simpa using hfits run hrun hown) hopened
  rwa [hnone] at hupdate

section

variable (hjob : job ∈ t.jobs.rows) (hrun : run ∈ t.runs.rows) (hown : run.jobId = job.id)
include hjob hrun hown

/-- Only a run is changed. -/
theorem updateRun
    (hkeepRun : ∀ run, (changeRun run).id = run.id ∧ (changeRun run).jobId = run.jobId ∧
      (changeRun run).number = run.number) (hfits : Fits job (changeRun run)) :
    Consistent (t.setRun run.id changeRun) := by
  have hnone : ∀ t : Tables, t.setJob job.id (fun row => row) = t := by
    intro t
    simp [Tables.setJob, patch]
  have hsame : ∀ other ∈ t.runs.rows, other.id = run.id → other = run :=
    fun other hother hid => h.runs.distinct other hother run hrun hid
  rw [← hnone (t.setRun run.id changeRun)]
  refine h.update hjob rfl (fun _ => rfl) rfl hkeepRun ?_ ?_ (h.opened job hjob)
  · intro other hother hid
    rw [hsame other hother hid]
    exact hown
  intro other hother hotherOwn
  split
  · rename_i hid
    rw [hsame other hother hid]
    exact hfits
  · exact h.fits job hjob other hother hotherOwn

/-- The run numbered `runCount`, and it alone, can be running. -/
theorem number_of_running (hrunning : run.state = .running) : run.number = job.runCount := by
  by_contra hne
  exact (h.fits job hjob run hrun hown).older hne hrunning

theorem eq_of_running {other : JobRunRow} (hrunning : run.state = .running)
    (hother : other ∈ t.runs.rows) (hotherOwn : other.jobId = job.id)
    (hotherRunning : other.state = .running) : other = run := by
  apply h.number other hother run hrun (hotherOwn.trans hown.symm)
  rw [h.number_of_running hjob hother hotherOwn hotherRunning,
    h.number_of_running hjob hrun hown hrunning]

theorem latestRun_of_running (hrunning : run.state = .running) :
    t.latestRun job = some run := by
  have hnumber := h.number_of_running hjob hrun hown hrunning
  obtain ⟨-, -, -, hpos, -⟩ := h.owner run hrun
  rw [Tables.latestRun, if_neg (by omega)]
  cases hfound : t.byNumber job.id job.runCount with
  | none =>
    have hnone := List.find?_eq_none.1 hfound run hrun
    exact absurd (decide_eq_true ⟨hown, hnumber⟩) hnone
  | some found =>
    obtain ⟨hmem, hfoundJob, hfoundNumber⟩ := Tables.mem_of_byNumber hfound
    rw [h.number found hmem run hrun (hfoundJob.trans hown.symm)
      (hfoundNumber.trans hnumber.symm)]

end

end

theorem mem_of_latestRun (hfound : t.latestRun job = some run) :
    run ∈ t.runs.rows ∧ run.jobId = job.id ∧ run.number = job.runCount := by
  unfold Tables.latestRun at hfound
  split_ifs at hfound
  · exact Tables.mem_of_byNumber hfound

end Consistent

/-! ## Every change keeps them consistent -/

theorem Fits.of_settled {job : JobRow} {run : JobRunRow} (hsettled : run.state ≠ .running)
    (hlease : run.leaseToken = none) (hstate : job.state ≠ .running) : Fits job run where
  older := fun _ => hsettled
  current := by
    intro _
    unfold Current
    cases hjob : job.state with
    | running => exact absurd hjob hstate
    | pending => exact fun hrunning => absurd hrunning hsettled
    | retrying | completed | failed | canceled => exact hsettled
  settled := fun _ => hlease
  live := fun hrunning => absurd hrunning hsettled

/-- Whatever happens to the Job, a settled run that is not the latest one fits it. -/
theorem Fits.older_of {job after : JobRow} {run : JobRunRow} (h : Fits job run)
    (hcount : after.runCount = job.runCount) (hne : run.number ≠ job.runCount) :
    Fits after run where
  __ := h
  older := fun _ => h.older hne
  current := fun heq => absurd (heq.trans hcount) hne

namespace Consistent

variable {job : JobRow} {change : JobRow → JobRow}

section

variable (h : Consistent t)

include h

theorem admitted (job : Admission) : Consistent (insertJob t job) := by
  have hnew : ∀ run ∈ t.runs.rows, run.jobId ≠ t.jobs.next := by
    intro run hrun heq
    obtain ⟨parent, hparent, hparentId, -, -⟩ := h.owner run hrun
    exact absurd (hparentId.trans heq) (Nat.ne_of_lt (h.jobs.below parent hparent))
  refine ⟨h.jobs.insert fun n => rfl, h.runs, ?_, h.number, ?_, ?_, ?_,
    h.jobs.nodup_insert (fun n => rfl) h.jobIds, h.runIds⟩
  · intro run hrun
    obtain ⟨parent, hparent, hrest⟩ := h.owner run hrun
    exact ⟨parent, mem_insert.2 (.inl hparent), hrest⟩
  · intro row hrow hpos
    rcases mem_insert.1 hrow with hrow | rfl
    · exact h.latest row hrow hpos
    · exact absurd hpos (Nat.lt_irrefl 0)
  · intro row hrow run hrun hown
    rcases mem_insert.1 hrow with hrow | rfl
    · exact h.fits row hrow run hrun hown
    · exact absurd hown (hnew run hrun)
  · intro row hrow hrunning
    rcases mem_insert.1 hrow with hrow | rfl
    · exact h.opened row hrow hrunning
    · cases hrunning

theorem deleteWithRuns (id : Nat) : Consistent (t.deleteWithRuns id) := by
  have hjobs : ∀ job, job ∈ (t.deleteWithRuns id).jobs.rows ↔ job ∈ t.jobs.rows ∧ job.id ≠ id :=
    fun job => mem_delete
  have hruns : ∀ run, run ∈ (t.deleteWithRuns id).runs.rows ↔
      run ∈ t.runs.rows ∧ run.jobId ≠ id := by
    intro run
    simp [Tables.deleteWithRuns, mem_deleteWhere]
  refine ⟨h.jobs.deleteWhere, h.runs.deleteWhere, ?_, ?_, ?_, ?_, ?_,
    nodup_deleteWhere h.jobIds, nodup_deleteWhere h.runIds⟩
  · intro run hrun
    obtain ⟨hold, hne⟩ := (hruns run).1 hrun
    obtain ⟨job, hjob, hid, hrest⟩ := h.owner run hold
    exact ⟨job, (hjobs job).2 ⟨hjob, by rw [hid]; exact hne⟩, hid, hrest⟩
  · intro run hrun other hother
    exact h.number run ((hruns run).1 hrun).1 other ((hruns other).1 hother).1
  · intro job hjob hpos
    obtain ⟨hold, hne⟩ := (hjobs job).1 hjob
    obtain ⟨run, hrun, hown, hnumber⟩ := h.latest job hold hpos
    exact ⟨run, (hruns run).2 ⟨hrun, by rw [hown]; exact hne⟩, hown, hnumber⟩
  · intro job hjob run hrun
    exact h.fits job ((hjobs job).1 hjob).1 run ((hruns run).1 hrun).1
  · intro job hjob
    exact h.opened job ((hjobs job).1 hjob).1

theorem expired {id : Nat}
    (hold : ∀ run ∈ t.runs.rows, run.id = id → ∀ job ∈ t.jobs.rows, job.id = run.jobId →
      job.runCount ≠ run.number) :
    Consistent { t with runs := t.runs.delete JobRunRow.id id } := by
  have hruns : ∀ run, run ∈ (t.runs.delete JobRunRow.id id).rows ↔
      run ∈ t.runs.rows ∧ run.id ≠ id := fun run => mem_delete
  refine ⟨h.jobs, h.runs.deleteWhere, ?_, ?_, ?_, ?_, h.opened, h.jobIds,
    nodup_deleteWhere h.runIds⟩
  · intro run hrun
    exact h.owner run ((hruns run).1 hrun).1
  · intro run hrun other hother
    exact h.number run ((hruns run).1 hrun).1 other ((hruns other).1 hother).1
  · intro job hjob hpos
    obtain ⟨run, hrun, hown, hnumber⟩ := h.latest job hjob hpos
    have hkept : run.id ≠ id := fun hid => hold run hrun hid job hjob hown.symm hnumber.symm
    exact ⟨run, (hruns run).2 ⟨hrun, hkept⟩, hown, hnumber⟩
  · intro job hjob run hrun
    exact h.fits job hjob run ((hruns run).1 hrun).1

/-- A run of a pending Job that still runs is suspended. -/
theorem suspended {run : JobRunRow} (hjob : job ∈ t.jobs.rows) (hrun : run ∈ t.runs.rows) (hown : run.jobId = job.id)
    (hpending : job.state = .pending) (hrunning : run.state = .running) :
    suspendedRun t job = some run ∧ run.leaseToken = none ∧ run.leaseUntil = none := by
  have hcurrent := (h.fits job hjob run hrun hown).current
    (h.number_of_running hjob hrun hown hrunning)
  simp only [Current, hpending] at hcurrent
  obtain ⟨htoken, huntil, htrigger⟩ := hcurrent hrunning
  have hfound := h.latestRun_of_running hjob hrun hown hrunning
  have hpos : job.runCount ≠ 0 := by
    intro hzero
    rw [Tables.latestRun, if_pos hzero] at hfound
    cases hfound
  rw [Tables.latestRun, if_neg hpos] at hfound
  refine ⟨?_, htoken, huntil⟩
  simp [suspendedRun, hpending, htrigger, Nat.pos_of_ne_zero hpos, hfound, hrunning]

/-- The runs of a Job a claim opens are all settled, unless one of them is suspended. -/
theorem settled_of_openable (hjob : job ∈ t.jobs.rows)
    (hstate : job.state = .pending ∨ job.state = .retrying) (hnone : suspendedRun t job = none) :
    ∀ run ∈ t.runs.rows, run.jobId = job.id → run.state ≠ .running := by
  intro run hrun hown hrunning
  rcases hstate with hstate | hstate
  · rw [(h.suspended hjob hrun hown hstate hrunning).1] at hnone
    cases hnone
  have hcurrent := (h.fits job hjob run hrun hown).current
    (h.number_of_running hjob hrun hown hrunning)
  simp only [Current, hstate] at hcurrent
  exact hcurrent hrunning

theorem openedFresh (now : Millis) (count : Nat) (hjob : job ∈ t.jobs.rows)
    (hstate : job.state = .pending ∨ job.state = .retrying) (hnone : suspendedRun t job = none) :
    Consistent (({ t with runs := t.runs.insert (openedRun options job now count) } :
      Tables).setJob job.id (claimJob (job.runCount + 1))) := by
  have hsettled := h.settled_of_openable hjob hstate hnone
  have honly : ∀ row ∈ t.jobs.rows, row.id = job.id → row = job :=
    fun row hrow hsame => h.jobs.distinct row hrow job hjob hsame
  have hjobIds :
      ((t.setJob job.id (claimJob (job.runCount + 1))).jobs.rows.map JobRow.id).Nodup := by
    have hkeep : ∀ row, (claimJob (job.runCount + 1) row).id = row.id := fun _ => rfl
    simp only [Tables.setJob, map_patch hkeep]
    exact h.jobIds
  refine ⟨h.jobs.patch fun _ => rfl, h.runs.insert fun _ => rfl, ?_, ?_, ?_, ?_, ?_,
    hjobIds, h.runs.nodup_insert (fun _ => rfl) h.runIds⟩
  · intro run hrun
    rcases mem_insert.1 hrun with hrun | rfl
    · obtain ⟨parent, hparent, hparentId, hpos, hle⟩ := h.owner run hrun
      refine ⟨_, mem_patch.2 ⟨parent, hparent, rfl⟩, ?_⟩
      by_cases hsame : parent.id = job.id
      · have heq := honly parent hparent hsame
        subst heq
        rw [if_pos rfl]
        exact ⟨hparentId, hpos, Nat.le_succ_of_le hle⟩
      · rw [if_neg hsame]
        exact ⟨hparentId, hpos, hle⟩
    · exact ⟨_, mem_patch.2 ⟨job, hjob, (if_pos rfl).symm⟩, rfl, Nat.succ_pos _,
        Nat.le_refl _⟩
  · intro run hrun other hother hown hnumber
    have hbound : ∀ run ∈ t.runs.rows, run.jobId = job.id → run.number ≤ job.runCount := by
      intro run hrun hrunJob
      obtain ⟨parent, hparent, hparentId, -, hle⟩ := h.owner run hrun
      rwa [honly parent hparent (hparentId.trans hrunJob)] at hle
    rcases mem_insert.1 hrun with hrun | rfl
    · rcases mem_insert.1 hother with hother | rfl
      · exact h.number run hrun other hother hown hnumber
      · have hle := hbound run hrun hown
        exact absurd hnumber (Nat.ne_of_lt (Nat.lt_succ_of_le hle))
    rcases mem_insert.1 hother with hother | rfl
    · have hle := hbound other hother hown.symm
      exact absurd hnumber.symm (Nat.ne_of_lt (Nat.lt_succ_of_le hle))
    · rfl
  · intro row hrow hpos
    obtain ⟨old, hold, rfl⟩ := mem_patch.1 hrow
    by_cases hsame : old.id = job.id
    · refine ⟨_, mem_insert.2 (.inr rfl), ?_⟩
      rw [if_pos hsame]
      exact ⟨hsame.symm, rfl⟩
    · rw [if_neg hsame] at hpos ⊢
      obtain ⟨run, hrun, hrest⟩ := h.latest old hold hpos
      exact ⟨run, mem_insert.2 (.inl hrun), hrest⟩
  · intro row hrow run hrun hown
    obtain ⟨old, hold, rfl⟩ := mem_patch.1 hrow
    by_cases hsame : old.id = job.id
    · have heq := honly old hold hsame
      subst heq
      rw [if_pos rfl] at hown ⊢
      rcases mem_insert.1 hrun with hrun | rfl
      · have hbefore := h.fits old hold run hrun hown
        obtain ⟨parent, hparent, hparentId, -, hle⟩ := h.owner run hrun
        rw [honly parent hparent (hparentId.trans hown)] at hle
        refine ⟨fun _ => hsettled run hrun hown, fun heq => ?_, hbefore.settled, hbefore.live⟩
        simp only [claimJob] at heq
        omega
      · exact ⟨fun hne => absurd rfl hne, fun _ => ⟨rfl, rfl⟩, fun hne => absurd rfl hne,
          fun _ => rfl⟩
    rw [if_neg hsame] at hown ⊢
    rcases mem_insert.1 hrun with hrun | rfl
    · exact h.fits old hold run hrun hown
    · exact absurd hown.symm hsame
  · intro row hrow hrunning
    obtain ⟨old, hold, rfl⟩ := mem_patch.1 hrow
    by_cases hsame : old.id = job.id
    · rw [if_pos hsame]
      exact Nat.succ_pos _
    · rw [if_neg hsame] at hrunning ⊢
      exact h.opened old hold hrunning

section

variable (hjob : job ∈ t.jobs.rows)
include hjob

/-- **A Job is changed together with its running run.** -/
theorem updateRunning {run : JobRunRow} (hrun : run ∈ t.runs.rows) (hown : run.jobId = job.id)
    (hrunning : run.state = .running) {changeRun : JobRunRow → JobRunRow}
    (hkeep : ∀ row, (change row).id = row.id) (hcount : (change job).runCount = job.runCount)
    (hkeepRun : ∀ run, (changeRun run).id = run.id ∧ (changeRun run).jobId = run.jobId ∧
      (changeRun run).number = run.number) (hfits : Fits (change job) (changeRun run)) :
    Consistent ((t.setRun run.id changeRun).setJob job.id change) := by
  have hsame : ∀ other ∈ t.runs.rows, other.id = run.id → other = run :=
    fun other hother hid => h.runs.distinct other hother run hrun hid
  refine h.update hjob rfl hkeep hcount hkeepRun ?_ ?_ ?_
  · intro other hother hid
    rw [hsame other hother hid]
    exact hown
  · intro other hother hotherOwn
    by_cases hid : other.id = run.id
    · rw [if_pos hid, hsame other hother hid]
      exact hfits
    rw [if_neg hid]
    apply (h.fits job hjob other hother hotherOwn).older_of hcount
    intro hnumber
    have heq := h.number other hother run hrun (hotherOwn.trans hown.symm)
      (hnumber.trans (h.number_of_running hjob hrun hown hrunning).symm)
    exact hid (congrArg JobRunRow.id heq)
  intro _
  obtain ⟨-, -, -, hpos, -⟩ := h.owner run hrun
  rw [h.number_of_running hjob hrun hown hrunning] at hpos
  exact hpos

/-- **A Job without a running run moves to a state that has none.** -/
theorem updateSettled (hsettled : ∀ run ∈ t.runs.rows, run.jobId = job.id → run.state ≠ .running)
    (hkeep : ∀ row, (change row).id = row.id) (hcount : (change job).runCount = job.runCount)
    (hstate : (change job).state ≠ .running) :
    Consistent (t.setJob job.id change) := by
  apply h.updateJob hjob hkeep hcount
  · intro run hrun hown
    have hstill := hsettled run hrun hown
    exact .of_settled hstill ((h.fits job hjob run hrun hown).settled hstill) hstate
  · exact fun hrunning => absurd hrunning hstate

/-- **A Job is changed in what its runs do not depend on.** -/
theorem updateRest (hkeep : ∀ row, (change row).id = row.id)
    (hcount : (change job).runCount = job.runCount) (hstate : (change job).state = job.state)
    (htrigger : (change job).nextRunTrigger = job.nextRunTrigger) :
    Consistent (t.setJob job.id change) := by
  apply h.updateJob hjob hkeep hcount
  · intro run hrun hown
    obtain ⟨holder, hcurrent, hsettled, hlive⟩ := h.fits job hjob run hrun hown
    refine ⟨fun hne => holder (by rwa [← hcount]), fun heq => ?_, hsettled, hlive⟩
    have hbefore := hcurrent (heq.trans hcount)
    unfold Current at hbefore ⊢
    rwa [hstate, htrigger]
  · intro hrunning
    exact h.opened job hjob (hstate.symm.trans hrunning)

/-- The runs of a terminal Job are settled. -/
theorem settled_of_terminal (hterminal : job.state.isTerminal = true) :
    ∀ run ∈ t.runs.rows, run.jobId = job.id → run.state ≠ .running := by
  intro run hrun hown hrunning
  have hcurrent := (h.fits job hjob run hrun hown).current
    (h.number_of_running hjob hrun hown hrunning)
  unfold Current at hcurrent
  cases hstate : job.state <;> simp [hstate, hrunning, JobState.isTerminal] at hcurrent hterminal

end

theorem settled {job : JobRow} (outcome : TerminalOutcome) (now : Millis)
    (stamp : Option Millis) (hjob : job ∈ t.jobs.rows) :
    Consistent (settledTables t job outcome now stamp) := by
  have hstate : (settleJob outcome now stamp job).state ≠ .running := by
    cases outcome <;> exact fun hrunning => by cases hrunning
  unfold settledTables endRun
  cases hfound : t.latestRun job with
  | none =>
    refine h.updateSettled hjob ?_ (fun _ => rfl) rfl hstate
    intro run hrun hown hrunning
    rw [h.latestRun_of_running hjob hrun hown hrunning] at hfound
    cases hfound
  | some =>
    obtain ⟨hrun, hown, -⟩ := mem_of_latestRun hfound
    dsimp only
    split
    · rename_i hrunning
      refine h.updateRunning hjob hrun hown hrunning (fun _ => rfl) rfl
        (fun _ => ⟨rfl, rfl, rfl⟩) (.of_settled ?_ rfl hstate)
      cases outcome <;> exact fun hrunning => by cases hrunning
    rename_i hsettled
    refine h.updateSettled hjob ?_ (fun _ => rfl) rfl hstate
    intro other hother hotherOwn hrunning
    have hlatest := h.latestRun_of_running hjob hother hotherOwn hrunning
    rw [hfound] at hlatest
    cases hlatest
    exact hsettled hrunning

theorem minted (job : JobRow) (now : Millis) :
    Consistent (mintRepeat options t job now) :=
  mintRepeat_induct h h.admitted

end

end Consistent

theorem suspendedRun_eq_some {job : JobRow} {run : JobRunRow} (h : suspendedRun t job = some run) :
    job.state = .pending ∧ t.byNumber job.id job.runCount = some run ∧ run.state = .running := by
  unfold suspendedRun at h
  split at h
  · rename_i hcond
    obtain ⟨hfound, hrunning⟩ := Option.filter_eq_some_iff.1 h
    exact ⟨hcond.1, hfound, of_decide_eq_true hrunning⟩
  · cases h

/-- **Every change keeps the tables consistent.** -/
theorem Change.consistent {after : Tables} (h : Consistent t)
    (hchange : Change options horizon t after) : Consistent after := by
  cases hchange with
  | admitted job => exact h.admitted job
  | opened now count hjob hstate hnone => exact h.openedFresh now count hjob hstate hnone
  | @resumed job run _ _ hjob hfound =>
    obtain ⟨hstate, hnumber, hrunning⟩ := suspendedRun_eq_some hfound
    obtain ⟨hrun, hown, hlatest⟩ := Tables.mem_of_byNumber hnumber
    refine h.updateRunning hjob hrun hown hrunning (fun _ => rfl) hlatest
      (fun _ => ⟨rfl, rfl, rfl⟩) ?_
    exact ⟨fun hne => absurd rfl hne, fun _ => ⟨hrunning, rfl⟩, fun hne => absurd hrunning hne,
      (h.fits job hjob run hrun hown).live⟩
  | settled outcome now stamp hjob => exact (h.settled outcome now stamp hjob).minted _ now
  | retried _ _ _ _ hjob hrun hown hrunning =>
    refine h.updateRunning hjob hrun hown hrunning (fun _ => rfl) rfl
      (fun _ => ⟨rfl, rfl, rfl⟩) ?_
    exact .of_settled (fun hstate => by cases hstate) rfl (fun hstate => by cases hstate)
  | @suspended job run _ hjob hrun hown hrunning =>
    refine h.updateRunning hjob hrun hown hrunning (fun _ => rfl) rfl
      (fun _ => ⟨rfl, rfl, rfl⟩) ?_
    exact ⟨fun hne => absurd (h.number_of_running hjob hrun hown hrunning) hne,
      fun _ _ => ⟨rfl, rfl, rfl⟩, fun _ => rfl, (h.fits job hjob run hrun hown).live⟩
  | recorded hjob | rescheduled _ hjob => exact h.updateRest hjob (fun _ => rfl) rfl rfl rfl
  | reopened _ _ _ _ hjob hterminal hstate =>
    refine h.updateSettled hjob (h.settled_of_terminal hjob hterminal) (fun _ => rfl) rfl ?_
    rcases hstate with rfl | rfl <;> exact fun hrunning => by cases hrunning
  | @restamped run _ hrun hsettled =>
    obtain ⟨job, hjob, hid, -, -⟩ := h.owner run hrun
    refine h.updateRun hjob hrun hid.symm (fun _ => ⟨rfl, rfl, rfl⟩) ?_
    have hbefore := h.fits job hjob run hrun hid.symm
    exact { hbefore with live := fun hrunning => absurd hrunning hsettled }
  | reaped => exact h.deleteWithRuns _
  | expired hold => exact h.expired hold

theorem Changes.consistent {after : Tables} (h : Consistent t)
    (hchanges : Changes options horizon t after) : Consistent after := by
  induction hchanges with
  | refl => exact h
  | tail _ hlast ih => exact hlast.consistent ih

end AckerDB.Jobs
