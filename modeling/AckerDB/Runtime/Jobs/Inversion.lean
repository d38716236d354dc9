import AckerDB.Runtime.Jobs.Lifecycle

/-!
# The transactions, change by change

Every transaction of the runner, other than `delete`, is a sequence of changes.

* `settleFailureIn_changes`, `openRun_change`, `recoverRuns_changes`, … — one lemma per transaction;
* `Held` — a Job and a run in the hands of a settlement, possibly as they were read before.
-/

namespace AckerDB.Jobs

open List Tables

variable {options : Options} {horizon : Nat} {t after : Tables}

variable {now : Millis} {job : JobRow} {run : JobRunRow} {outcome : TerminalOutcome}
  {clock : Readings} {notification : Notification} {state : JobState} {page : Option JobCursor}
  {id : Nat} {notifications : List Notification} {claimed : ClaimedRun} {entry : StepEntry}

/-! ## Admissions -/

theorem enqueueWith_changes {name : String} {args : JsValue} {enqueue : EnqueueOptions}
    {trigger : JobTrigger} {handle : JobHandle}
    (h : enqueueWith options t name args enqueue trigger now = .ok (after, handle)) :
    after = t ∨ ∃ job : Admission, job.parentJobId = none ∧ after = insertJob t job := by
  unfold enqueueWith at h
  split at h
  · cases h
  obtain ⟨validated, -, h⟩ := Except.bind_eq_ok.1 h
  obtain ⟨argsJson, -, h⟩ := Except.bind_eq_ok.1 h
  dsimp only at h
  split at h
  · cases h
    exact .inl rfl
  split at h
  · cases h
  · cases h
    exact .inr ⟨_, rfl, rfl⟩

/-- Nothing but Jobs was admitted. -/
def Admitted (t after : Tables) : Prop :=
  Relation.ReflTransGen (fun before next => ∃ job : Admission, job.parentJobId = none ∧
    next = insertJob before job) t after

theorem Admitted.changes (h : Admitted t after) : Changes options horizon t after := by
  induction h with
  | refl => exact .refl
  | tail _ hlast ih =>
    obtain ⟨job, hparent, rfl⟩ := hlast
    exact ih.tail (.admitted _ job hparent)

theorem Admitted.runs (h : Admitted t after) : after.runs = t.runs := by
  induction h with
  | refl => rfl
  | tail _ hlast ih =>
    obtain ⟨job, -, rfl⟩ := hlast
    exact ih

theorem Admitted.mem (h : Admitted t after) (hjob : job ∈ t.jobs.rows) :
    job ∈ after.jobs.rows := by
  induction h with
  | refl => exact hjob
  | tail _ hlast ih =>
    obtain ⟨admission, -, rfl⟩ := hlast
    exact RowTable.mem_insert.2 (.inl ih)

variable {writes : List EnqueueCall}

theorem applyWrites_admitted (h : applyWrites options t writes = .ok after) : Admitted t after := by
  induction writes generalizing t with
  | nil =>
    cases h
    exact .refl
  | cons call rest ih =>
    obtain ⟨⟨next, handle⟩, hnext, hrest⟩ := Except.bind_eq_ok.1 h
    rcases enqueueWith_changes hnext with rfl | hadmitted
    · exact ih hrest
    · exact .head hadmitted (ih hrest)

theorem activateIn_admitted {declared : List (String × Job)}
    (h : activateIn options now t declared = some after) : Admitted t after := by
  induction declared generalizing t with
  | nil =>
    cases h
    exact .refl
  | cons entry rest ih =>
    obtain ⟨name, definition⟩ := entry
    unfold activateIn at h
    split at h
    · exact ih h
    split at h
    · exact ih h
    dsimp only at h
    split at h
    · exact ih h
    split at h
    · exact .head ⟨_, rfl, rfl⟩ (ih h)
    · exact ih h
    · cases h

/-! ## Settlements -/

/-- The same Job, as far as its identity goes. -/
structure SameJob (job current : JobRow) : Prop where
  id : job.id = current.id
  name : job.name = current.name
  argsJson : job.argsJson = current.argsJson
  argsHash : job.argsHash = current.argsHash
  key : job.key = current.key
  scheduledAt : job.scheduledAt = current.scheduledAt

theorem SameJob.refl (job : JobRow) : SameJob job job := ⟨rfl, rfl, rfl, rfl, rfl, rfl⟩

theorem mintRepeat_congr {current : JobRow} (h : SameJob job current) (now : Millis) :
    mintRepeat options t job now = mintRepeat options t current now := by
  unfold mintRepeat
  rw [h.id, h.name, h.argsJson, h.argsHash, h.key, h.scheduledAt]

/-- **The Job and its running run.** -/
structure Held (t : Tables) (job : JobRow) (run : JobRunRow) : Prop where
  current : ∃ current ∈ t.jobs.rows, SameJob job current
  mem : run ∈ t.runs.rows
  owner : run.jobId = job.id
  running : run.state = .running

theorem Held.of_admitted (h : Held t job run) (hadmitted : Admitted t after) : Held after job run := by
  obtain ⟨current, hcurrent, hsame⟩ := h.current
  exact ⟨⟨current, hadmitted.mem hcurrent, hsame⟩, by rw [hadmitted.runs]; exact h.mem, h.owner,
    h.running⟩

theorem Consistent.live_of_running (h : Consistent t) (hjob : job ∈ t.jobs.rows)
    (hrun : run ∈ t.runs.rows) (hown : run.jobId = job.id) (hrunning : run.state = .running) :
    job.live = true := by
  cases hterminal : job.state.isTerminal with
  | true => exact absurd hrunning (h.settled_of_terminal hjob hterminal run hrun hown)
  | false => simp [JobRow.live, hterminal]

theorem settleJobIn_inv {run : Option JobRunRow}
    (h : settleJobIn options t job run outcome now = some after) :
    let stamp := retentionStamp (options.definition job.name) outcome now
    after = mintRepeat options ((endRun t run outcome now stamp).setJob job.id
      (settleJob outcome now stamp)) job now := by
  have hlast : ∀ first : Tables, ((first.patchJob job.id (settleJob outcome now
      (retentionStamp (options.definition job.name) outcome now))).bind fun t =>
        some (mintRepeat options t job now)) = some after →
      after = mintRepeat options (first.setJob job.id (settleJob outcome now
        (retentionStamp (options.definition job.name) outcome now))) job now := by
    intro first hfirst
    obtain ⟨second, hsecond, hmint⟩ := Option.bind_eq_some_iff.1 hfirst
    cases hmint
    rw [(patchJob_eq_some hsecond).2]
  cases run with
  | none => exact hlast t h
  | some =>
    simp only [settleJobIn, endRun] at h ⊢
    split at h
    · rename_i hrunning
      obtain ⟨first, hfirst, hrest⟩ := Option.bind_eq_some_iff.1 h
      rw [if_pos hrunning, hlast first hrest, (patchRun_eq_some hfirst).2]
    · rename_i hsettled
      rw [if_neg hsettled, hlast t h]

section

variable (h : Consistent t)
include h

theorem settleJobIn_eq (hheld : Held t job run)
    (hsettle : settleJobIn options t job (some run) outcome now = some after) :
    ∃ current ∈ t.jobs.rows, SameJob job current ∧ current.live = true ∧
      after = mintRepeat options (settledTables t current outcome now
        (retentionStamp (options.definition job.name) outcome now)) current now := by
  obtain ⟨current, hcurrent, hsame⟩ := hheld.current
  have hown := hheld.owner.trans hsame.id
  refine ⟨current, hcurrent, hsame, h.live_of_running hcurrent hheld.mem hown hheld.running, ?_⟩
  rw [settleJobIn_inv hsettle, mintRepeat_congr hsame, settledTables, ← hsame.id,
    h.latestRun_of_running hcurrent hheld.mem hown hheld.running]

theorem settleJobIn_change (hheld : Held t job run) (hold : job.id < horizon)
    (hsettle : settleJobIn options t job (some run) outcome now = some after) :
    Change options horizon t after := by
  obtain ⟨current, hcurrent, hsame, hlive, rfl⟩ := settleJobIn_eq h hheld hsettle
  exact .settled outcome now _ hcurrent hlive (by rw [← hsame.id]; exact hold)

theorem settleFailureIn_change (hheld : Held t job run) (hold : job.id < horizon) {error : JobError}
    (hsettle : settleFailureIn options t job run error clock = some (after, notification)) :
    Change options horizon t after := by
  unfold settleFailureIn at hsettle
  dsimp only at hsettle
  split at hsettle
  · simp only [Option.bind_eq_bind, Option.bind_eq_some_iff] at hsettle
    obtain ⟨first, hfirst, second, hsecond, hpair⟩ := hsettle
    cases hpair
    obtain ⟨-, rfl⟩ := patchRun_eq_some hfirst
    obtain ⟨-, rfl⟩ := patchJob_eq_some hsecond
    obtain ⟨current, hcurrent, hsame⟩ := hheld.current
    rw [hsame.id]
    exact .retried error clock.now _ _ hcurrent hheld.mem (hheld.owner.trans hsame.id) hheld.running
  simp only [Option.bind_eq_bind, Option.bind_eq_some_iff] at hsettle
  obtain ⟨settled, hsettled, hpair⟩ := hsettle
  cases hpair
  exact settleJobIn_change h hheld hold hsettled

theorem settleSuccessIn_change (hheld : Held t job run) (hold : job.id < horizon) {value : JsValue}
    (hsettle : settleSuccessIn options t job run value clock = some (after, notification)) :
    Change options horizon t after := by
  unfold settleSuccessIn at hsettle
  split at hsettle
  · exact settleFailureIn_change h hheld hold hsettle
  simp only [Option.bind_eq_bind, Option.bind_eq_some_iff] at hsettle
  obtain ⟨settled, hsettled, hpair⟩ := hsettle
  cases hpair
  exact settleJobIn_change h hheld hold hsettled

theorem settleOutcomeIn_change (hheld : Held t job run) (hold : job.id < horizon)
    {outcome : HandlerOutcome}
    (hsettle : settleOutcomeIn options t job run outcome clock = some (after, notification)) :
    Change options horizon t after := by
  cases outcome with
  | value => exact settleSuccessIn_change h hheld hold hsettle
  | error => exact settleFailureIn_change h hheld hold hsettle

end

/-! ## The claim -/

theorem mem_dueIn {limit : Nat} (h : job ∈ t.dueIn state now limit page) :
    job ∈ t.jobs.rows ∧ job.state = state ∧ job.nextRunAt ≤ now ∧
      page.all (fun cursor => cursor.precedes job) = true := by
  have hmem := mem_of_mem_take h
  simpa using hmem

theorem mem_due {limit : Nat} (h : job ∈ t.due now limit page) :
    job ∈ t.jobs.rows ∧ (job.state = .pending ∨ job.state = .retrying) ∧ job.nextRunAt ≤ now ∧
      page.all (fun cursor => cursor.precedes job) = true := by
  have hmem := mem_of_mem_take h
  rw [Keyset.mem_orderBy, mem_append] at hmem
  rcases hmem with hmem | hmem
  · obtain ⟨hjob, hstate, hrest⟩ := mem_dueIn hmem
    exact ⟨hjob, .inl hstate, hrest⟩
  · obtain ⟨hjob, hstate, hrest⟩ := mem_dueIn hmem
    exact ⟨hjob, .inr hstate, hrest⟩

theorem claimScan_eq_some {fuel : Nat} (h : claimScan options t now fuel page = some job) :
    job ∈ t.jobs.rows ∧ (job.state = .pending ∨ job.state = .retrying) ∧ job.nextRunAt ≤ now ∧
      claimable options t job = true := by
  induction fuel generalizing page with
  | zero => cases h
  | succ fuel ih =>
    unfold claimScan at h
    dsimp only at h
    split at h
    · rename_i found hfound
      cases h
      obtain ⟨hjob, hstate, hdue, -⟩ := mem_due (mem_of_find?_eq_some hfound)
      exact ⟨hjob, hstate, hdue, find?_some hfound⟩
    · split_ifs at h
      · exact ih h

theorem mem_setJob_self {job : JobRow} {change : JobRow → JobRow} (hjob : job ∈ t.jobs.rows) :
    change job ∈ (t.setJob job.id change).jobs.rows :=
  RowTable.mem_patch.2 ⟨job, hjob, (if_pos rfl).symm⟩

variable {change : JobRunRow → JobRunRow}

theorem mem_setRun_self (hrun : run ∈ t.runs.rows) :
    change run ∈ (t.setRun run.id change).runs.rows :=
  RowTable.mem_patch.2 ⟨run, hrun, (if_pos rfl).symm⟩

/-- What `openRun` leaves. -/
structure Opened (options : Options) (t : Tables) (job : JobRow) (now : Millis) (count : Nat)
    (after : Tables) (run : JobRunRow) : Prop where
  change : ∀ horizon, Change options horizon t after
  held : Held after job run
  token : run.leaseToken = some ⟨now, count⟩

theorem openRun_opened {count : Nat} (hjob : job ∈ t.jobs.rows)
    (hstate : job.state = .pending ∨ job.state = .retrying)
    (hclaimable : claimable options t job = true)
    (h : openRun options t job now count = some (after, run)) :
    Opened options t job now count after run := by
  unfold openRun at h
  split at h
  · rename_i suspended hsuspended
    simp only [Option.bind_eq_bind, Option.bind_eq_some_iff] at h
    obtain ⟨first, hfirst, second, hsecond, hpair⟩ := h
    cases hpair
    obtain ⟨-, rfl⟩ := patchRun_eq_some hfirst
    obtain ⟨-, rfl⟩ := patchJob_eq_some hsecond
    obtain ⟨-, hnumber, hrunning⟩ := suspendedRun_eq_some hsuspended
    obtain ⟨hrun, hown, -⟩ := mem_of_byNumber hnumber
    refine ⟨fun _ => .resumed now count hjob hsuspended hclaimable, ⟨⟨_, mem_setJob_self hjob, ?_⟩, ?_, hown,
      hrunning⟩, rfl⟩
    · exact ⟨rfl, rfl, rfl, rfl, rfl, rfl⟩
    · exact mem_setRun_self hrun
  rename_i hnone
  simp only [Option.bind_eq_bind, Option.bind_eq_some_iff] at h
  obtain ⟨second, hsecond, hpair⟩ := h
  cases hpair
  obtain ⟨-, rfl⟩ := patchJob_eq_some hsecond
  refine ⟨fun _ => .opened now count hjob hstate hnone hclaimable, ⟨⟨_, mem_setJob_self hjob, ?_⟩, ?_, rfl,
    rfl⟩, rfl⟩
  · exact ⟨rfl, rfl, rfl, rfl, rfl, rfl⟩
  · exact RowTable.mem_insert.2 (.inr rfl)

variable {inline : InlineRun}

theorem runMutationJob_changes (h : Consistent t) (hheld : Held t job run) (hold : job.id < horizon)
    (hrun : runMutationJob options t job run inline = some (after, notification)) :
    Changes options horizon t after := by
  unfold runMutationJob at hrun
  split at hrun
  · exact .single (settleFailureIn_change h hheld hold hrun)
  · exact .single (settleFailureIn_change h hheld hold hrun)
  rename_i written _ hwritten
  split at hrun
  · exact .single (settleFailureIn_change h hheld hold hrun)
  have hadmitted := applyWrites_admitted hwritten
  have hwrites : Changes options horizon t written := hadmitted.changes
  exact hwrites.tail (settleSuccessIn_change (hwrites.consistent h)
    (hheld.of_admitted hadmitted) hold hrun)

theorem claimIn_changes (h : Consistent t) {count : Nat} {result : ClaimTxResult}
    (hjob : job ∈ t.jobs.rows) (hstate : job.state = .pending ∨ job.state = .retrying)
    (hclaimable : claimable options t job = true)
    (hclaim : claimIn options t job now count inline = some (after, result)) :
    Changes options t.jobs.next t after := by
  simp only [claimIn, Option.bind_eq_bind, Option.bind_eq_some_iff] at hclaim
  obtain ⟨⟨opened, run⟩, hopen, hclaim⟩ := hclaim
  have hopened := openRun_opened hjob hstate hclaimable hopen
  split at hclaim
  · obtain ⟨⟨settled, notification⟩, hrun, hpair⟩ := Option.bind_eq_some_iff.1 hclaim
    cases hpair
    have hchange := hopened.change t.jobs.next
    exact .head hchange (runMutationJob_changes (hchange.consistent h) hopened.held
      (h.jobs.below job hjob) hrun)
  · cases hclaim
    exact .single (hopened.change _)

/-! ## Recovery -/

theorem mintRepeat_runs :
    (mintRepeat options t job now).runs = t.runs :=
  mintRepeat_induct (P := (·.runs = t.runs)) rfl fun _ => rfl

theorem mem_setRun_of_ne (hrun : run ∈ t.runs.rows) (hne : run.id ≠ id) :
    run ∈ (t.setRun id change).runs.rows :=
  RowTable.mem_patch.2 ⟨run, hrun, (if_neg hne).symm⟩

/-- A failure settles one run, and leaves the others as they are. -/
theorem settleFailureIn_mem {other : JobRunRow} {error : JobError}
    (hsettle : settleFailureIn options t job run error clock = some (after, notification))
    (hother : other ∈ t.runs.rows) (hne : other.id ≠ run.id) : other ∈ after.runs.rows := by
  unfold settleFailureIn at hsettle
  dsimp only at hsettle
  split at hsettle
  · simp only [Option.bind_eq_bind, Option.bind_eq_some_iff] at hsettle
    obtain ⟨first, hfirst, second, hsecond, hpair⟩ := hsettle
    cases hpair
    obtain ⟨-, rfl⟩ := patchRun_eq_some hfirst
    obtain ⟨-, rfl⟩ := patchJob_eq_some hsecond
    exact mem_setRun_of_ne hother hne
  simp only [Option.bind_eq_bind, Option.bind_eq_some_iff] at hsettle
  obtain ⟨settled, hsettled, hpair⟩ := hsettle
  cases hpair
  rw [settleJobIn_inv hsettled, mintRepeat_runs, endRun]
  split
  · exact mem_setRun_of_ne hother hne
  · exact hother

variable {inProcess : List Nat}

theorem recoverRuns_changes (h : Consistent t) {runs : List (JobRunRow × Readings)}
    (hmem : ∀ entry ∈ runs, entry.1 ∈ t.runs.rows ∧ entry.1.state = .running ∧
      entry.1.jobId < horizon) (hnodup : (runs.map fun entry => entry.1.id).Nodup)
    (hrecover : recoverRuns options inProcess t runs = some (after, notifications)) :
    Changes options horizon t after := by
  induction runs generalizing t notifications with
  | nil =>
    cases hrecover
    exact .refl
  | cons entry rest ih =>
    obtain ⟨run, clock⟩ := entry
    obtain ⟨hfresh, hnodup⟩ := nodup_cons.1 hnodup
    have hrest : ∀ entry ∈ rest, entry.1 ∈ t.runs.rows ∧ entry.1.state = .running ∧
        entry.1.jobId < horizon :=
      fun entry hentry => hmem entry (mem_cons_of_mem _ hentry)
    unfold recoverRuns at hrecover
    split at hrecover
    · exact ih h hrest hnodup hrecover
    split at hrecover
    · exact ih h hrest hnodup hrecover
    rename_i job hjob
    simp only [Option.bind_eq_bind, Option.bind_eq_some_iff] at hrecover
    obtain ⟨⟨settled, notification⟩, hsettle, ⟨last, delivered⟩, htail, hpair⟩ := hrecover
    cases hpair
    obtain ⟨hjobMem, hjobId⟩ := mem_of_jobById hjob
    obtain ⟨hrun, hrunning, hbelow⟩ := hmem (run, clock) mem_cons_self
    have hheld : Held t job run := ⟨⟨job, hjobMem, .refl job⟩, hrun, hjobId.symm, hrunning⟩
    have hchange := settleFailureIn_change h hheld (by rw [hjobId]; exact hbelow) hsettle
    refine .head hchange (ih (hchange.consistent h) ?_ hnodup htail)
    intro other hother
    obtain ⟨hold, hstill⟩ := hrest other hother
    refine ⟨settleFailureIn_mem hsettle hold ?_, hstill⟩
    intro hsame
    exact hfresh (mem_map.2 ⟨other, hother, hsame⟩)

theorem recoverIn_changes (h : Consistent t) {clock : Nat → Readings}
    (hrecover : recoverIn options t inProcess now clock = some (after, notifications)) :
    Changes options t.jobs.next t after := by
  have hexpired : ∀ run ∈ t.expiredLeases now options.claimBatchSize,
      run ∈ t.runs.rows ∧ run.state = .running ∧ run.jobId < t.jobs.next := by
    intro run hrun
    have hmem := mem_of_mem_take hrun
    rw [Keyset.mem_orderBy, mem_filter] at hmem
    obtain ⟨job, hjob, hid, -⟩ := h.owner run hmem.1
    exact ⟨hmem.1, (of_decide_eq_true hmem.2).1, by rw [← hid]; exact h.jobs.below job hjob⟩
  have hids : ((t.expiredLeases now options.claimBatchSize).map JobRunRow.id).Nodup := by
    refine Nodup.sublist ((take_sublist _ _).map _) ?_
    refine (((Keyset.orderBy_perm _ _).map JobRunRow.id).nodup_iff).2 ?_
    exact h.runIds.sublist (filter_sublist.map _)
  refine recoverRuns_changes h ?_ ?_ hrecover
  · intro entry hentry
    obtain ⟨⟨run, index⟩, hpair, rfl⟩ := mem_map.1 hentry
    apply hexpired run
    rw [(mem_zipIdx' hpair).2]
    exact getElem_mem _
  rw [map_map]
  have heq : ((fun entry : JobRunRow × Readings => entry.1.id) ∘ fun (x : JobRunRow × Nat) =>
      (x.1, clock x.2)) = JobRunRow.id ∘ Prod.fst := rfl
  rw [heq, ← map_map, zipIdx_map_fst]
  exact hids

/-! ## Retention -/

theorem reapJobs_changes {jobs : List JobRow}
    (hstamps : ∀ job ∈ jobs, ∀ row ∈ t.jobs.rows, row.id = job.id → row.deleteAfter.isSome = true) :
    Changes options horizon t (reapJobs t jobs) := by
  induction jobs generalizing t with
  | nil => exact .refl
  | cons job rest ih =>
    refine .head (.reaped (hstamps job mem_cons_self)) (ih ?_)
    intro other hother row hrow
    exact hstamps other (mem_cons_of_mem _ hother) row (RowTable.mem_delete.1 hrow).1

theorem reapRuns_changes (h : Consistent t) {runs : List JobRunRow}
    (hruns : ∀ run ∈ runs, ∀ row ∈ t.runs.rows, row.id = run.id → row = run) :
    Changes options horizon t (reapRuns t runs) := by
  induction runs generalizing t with
  | nil => exact .refl
  | cons run rest ih =>
    have hrest : ∀ other ∈ rest, ∀ row ∈ t.runs.rows, row.id = other.id → row = other :=
      fun other hother => hruns other (mem_cons_of_mem _ hother)
    unfold reapRuns
    split
    · exact ih h hrest
    rename_i hkept
    have hchange : Change options horizon t { t with runs := t.runs.delete JobRunRow.id run.id } := by
      apply Change.expired
      intro row hrow hid job hjob hown hlatest
      rw [hruns run mem_cons_self row hrow hid] at hown hlatest
      apply hkept
      have hfound := h.jobs.byId_eq hjob
      rw [jobById, ← hown, hfound]
      exact decide_eq_true hlatest
    refine .head hchange (ih (hchange.consistent h) ?_)
    intro other hother row hrow
    exact hrest other hother row (RowTable.mem_delete.1 hrow).1

theorem reapIn_changes (h : Consistent t) :
    Changes options horizon t (reapIn options t now).1 := by
  have hjobs : Changes options horizon t (reapJobs t (t.expiredJobs now options.claimBatchSize)) := by
    apply reapJobs_changes
    intro job hjob row hrow hid
    have hmem := mem_of_mem_take hjob
    rw [Keyset.mem_orderBy, mem_filter] at hmem
    rw [h.jobs.distinct row hrow job hmem.1 hid]
    exact ((Option.any_eq_true_iff_get _ _).1 hmem.2).1
  have hconsistent := hjobs.consistent h
  refine hjobs.trans (reapRuns_changes hconsistent ?_)
  intro run hrun row hrow hid
  have hmem := mem_of_mem_take hrun
  rw [Keyset.mem_orderBy, mem_filter] at hmem
  exact hconsistent.runs.distinct row hrow run hmem.1 hid

/-! ## The transitions a caller asks for -/

theorem cancelIn_changes (h : Consistent t)
    (hcancel : cancelIn options t id now = some (after, state)) :
    Changes options t.jobs.next t after := by
  simp only [cancelIn, Option.bind_eq_bind, Option.bind_eq_some_iff] at hcancel
  obtain ⟨job, hjob, hcancel⟩ := hcancel
  obtain ⟨hmem, -⟩ := mem_of_jobById hjob
  split at hcancel
  · cases hcancel
    exact .refl
  rename_i hlive
  obtain ⟨settled, hsettle, hpair⟩ := Option.bind_eq_some_iff.1 hcancel
  cases hpair
  have hchange : Change options t.jobs.next t (mintRepeat options (settledTables t job .canceled now
      (retentionStamp (options.definition job.name) .canceled now)) job now) :=
    .settled .canceled now _ hmem (by simpa [JobRow.live] using hlive)
      (h.jobs.below job hmem)
  rw [settleJobIn_inv hsettle]
  exact .single hchange

theorem reopen_changes (h : Consistent t) {trigger : JobRunTrigger} {clears : Bool}
    (hjob : job ∈ t.jobs.rows) (hterminal : job.state.isTerminal = true)
    (hstate : state = .pending ∨ state = .retrying)
    (hreopen : reopen options t job state trigger clears now = some after) :
    Changes options horizon t after := by
  have hlast : ∀ first : Tables, job ∈ first.jobs.rows →
      first.patchJob job.id (reopenJob state trigger clears now) = some after →
      Change options horizon first after := by
    intro first hfirst hpatch
    rw [(patchJob_eq_some hpatch).2]
    exact .reopened state trigger clears now hfirst hterminal hstate
  cases hprevious : t.latestRun job with
  | none =>
    simp only [reopen, hprevious] at hreopen
    exact .single (hlast t hjob hreopen)
  | some previous =>
    obtain ⟨hmem, hown, -⟩ := Consistent.mem_of_latestRun hprevious
    cases hsettledAt : previous.settledAt with
    | none =>
      simp only [reopen, hprevious, hsettledAt] at hreopen
      exact .single (hlast t hjob hreopen)
    | some =>
      simp only [reopen, hprevious, hsettledAt] at hreopen
      obtain ⟨first, hfirst, hrest⟩ := Option.bind_eq_some_iff.1 hreopen
      rw [(patchRun_eq_some hfirst).2] at hrest
      have hsettled := h.settled_of_terminal hjob hterminal previous hmem hown
      exact .head (.restamped _ hmem hsettled) (.single (hlast _ hjob hrest))

theorem retryIn_changes (h : Consistent t) (hretry : retryIn options t id now = some after) :
    Changes options horizon t after := by
  obtain ⟨job, hjob, hretry⟩ := Option.bind_eq_some_iff.1 hretry
  split at hretry
  · rename_i hfailed
    exact reopen_changes h (mem_of_jobById hjob).1 (by rw [hfailed]; rfl) (.inr rfl) hretry
  · cases hretry

theorem forceRunAgainIn_changes (h : Consistent t)
    (hforce : forceRunAgainIn options t id now = some after) : Changes options horizon t after := by
  obtain ⟨job, hjob, hforce⟩ := Option.bind_eq_some_iff.1 hforce
  split at hforce
  · rename_i hterminal
    exact reopen_changes h (mem_of_jobById hjob).1 hterminal (.inl rfl) hforce
  · cases hforce

theorem runAgainIn_admitted (hagain : runAgainIn options t id now = some after) : Admitted t after := by
  obtain ⟨job, -, hagain⟩ := Option.bind_eq_some_iff.1 hagain
  split at hagain
  · split at hagain
    · cases hagain
    split at hagain
    · rename_i hok
      cases hagain
      rcases enqueueWith_changes hok with rfl | hadmitted
      · exact .refl
      · exact .single hadmitted
    · cases hagain
  · cases hagain

theorem rescheduleIn_changes {dueAt : Millis} (hreschedule : rescheduleIn t id dueAt = some after) :
    Changes options horizon t after := by
  obtain ⟨job, hjob, hreschedule⟩ := Option.bind_eq_some_iff.1 hreschedule
  obtain ⟨hmem, rfl⟩ := mem_of_jobById hjob
  split at hreschedule
  · rename_i hstate
    rw [(patchJob_eq_some hreschedule).2]
    exact .single (.rescheduled dueAt hmem hstate)
  · cases hreschedule

/-! ## The steps of a run -/

theorem owned_eq_true (h : owned t claimed = true) :
    ∃ run, t.runById claimed.runId = some run ∧ run.state = .running ∧
      run.leaseToken = some claimed.leaseToken := by
  unfold owned at h
  cases hrun : t.runById claimed.runId with
  | none =>
    rw [hrun] at h
    cases h
  | some run =>
    rw [hrun] at h
    exact ⟨run, rfl, of_decide_eq_true h⟩

/-- What `appendIn` does. -/
theorem appendIn_inv (h : appendIn options t claimed entry = some after) :
    owned t claimed = true ∧ ∃ job text, t.jobById claimed.jobId = some job ∧
      appendEntry options job.stepsJson entry = .ok text ∧
      after = t.setJob claimed.jobId (journalJob text) := by
  unfold appendIn at h
  by_cases howned : owned t claimed = true
  · obtain ⟨-, -, h⟩ := Option.bind_eq_some_iff.1 h
    obtain ⟨job, hjob, h⟩ := Option.bind_eq_some_iff.1 h
    refine ⟨howned, job, ?_⟩
    split at h
    · cases h
    · rename_i text htext
      exact ⟨text, hjob, htext, (patchJob_eq_some h).2⟩
  · simp [howned, guard] at h

theorem appendIn_change (h : appendIn options t claimed entry = some after) :
    Change options horizon t after := by
  obtain ⟨-, job, text, hjob, htext, rfl⟩ := appendIn_inv h
  obtain ⟨hmem, hid⟩ := mem_of_jobById hjob
  rw [← hid]
  exact .recorded hmem htext

theorem stepIn_changes (h : stepIn options t claimed writes entry = some after) :
    owned t claimed = true ∧ ∃ written, Admitted t written ∧
      appendIn options written claimed entry = some after := by
  unfold stepIn at h
  by_cases howned : owned t claimed = true
  · obtain ⟨-, -, h⟩ := Option.bind_eq_some_iff.1 h
    split at h
    · cases h
    · rename_i written hwritten
      exact ⟨howned, written, applyWrites_admitted hwritten, h⟩
  · simp [howned, guard] at h

/-- The run of the claim belongs to the Job of the claim. -/
def ClaimedRun.Placed (claimed : ClaimedRun) (t : Tables) : Prop :=
  ∀ run ∈ t.runs.rows, run.id = claimed.runId → run.jobId = claimed.jobId

theorem sleepIn_changes {wakeAt : Millis} (hplaced : claimed.Placed t)
    (h : sleepIn options t claimed entry wakeAt = some after) :
    Changes options horizon t after := by
  obtain ⟨recorded, happend, hrest⟩ := Option.bind_eq_some_iff.1 h
  obtain ⟨unleased, hunleased, hlast⟩ := Option.bind_eq_some_iff.1 hrest
  have hrecorded : Change options horizon t recorded := appendIn_change happend
  obtain ⟨howned, job, text, hjob, -, rfl⟩ := appendIn_inv happend
  obtain ⟨run, hrun, hrunning, -⟩ := owned_eq_true howned
  obtain ⟨hmem, hid⟩ := mem_of_runById hrun
  obtain ⟨hjobMem, hjobId⟩ := mem_of_jobById hjob
  rw [(patchRun_eq_some hunleased).2] at hlast
  rw [(patchJob_eq_some hlast).2]
  refine .head hrecorded (.single ?_)
  have hjournal := @mem_setJob_self t job (journalJob text) hjobMem
  rw [hjobId] at hjournal
  have hsuspended : Change options horizon (t.setJob claimed.jobId (journalJob text))
      (((t.setJob claimed.jobId (journalJob text)).setRun run.id unleaseRun).setJob
        (journalJob text job).id (suspendJob wakeAt)) :=
    .suspended wakeAt hjournal hmem ((hplaced run hmem hid).trans hjobId.symm) hrunning
  rw [hid, show (journalJob text job).id = claimed.jobId from hjobId] at hsuspended
  exact hsuspended

theorem settleIn_inv {outcome : HandlerOutcome} {notification : Option Notification}
    (h : settleIn options t claimed outcome clock = some (after, notification)) :
    after = t ∨ owned t claimed = true ∧ ∃ run job told, t.runById claimed.runId = some run ∧
      t.jobById claimed.jobId = some job ∧ run.state = .running ∧
      settleOutcomeIn options t job run outcome clock = some (after, told) := by
  unfold settleIn at h
  split at h
  · rename_i run job hrun hjob
    split at h
    · rename_i hcond
      obtain ⟨⟨settled, told⟩, hsettle, hpair⟩ := Option.bind_eq_some_iff.1 h
      cases hpair
      refine .inr ⟨?_, run, job, told, hrun, hjob, hcond.1, hsettle⟩
      rw [owned, hrun]
      exact decide_eq_true hcond
    · cases h
      exact .inl rfl
  · cases h
    exact .inl rfl

theorem settleIn_changes (h : Consistent t) {outcome : HandlerOutcome}
    {notification : Option Notification} (hplaced : claimed.Placed t)
    (hsettle : settleIn options t claimed outcome clock = some (after, notification)) :
    Changes options t.jobs.next t after := by
  rcases settleIn_inv hsettle with rfl | ⟨-, run, job, told, hrun, hjob, hrunning, hsettle⟩
  · exact .refl
  obtain ⟨hmem, hid⟩ := mem_of_runById hrun
  obtain ⟨hjobMem, hjobId⟩ := mem_of_jobById hjob
  have hheld : Held t job run :=
    ⟨⟨job, hjobMem, .refl job⟩, hmem, (hplaced run hmem hid).trans hjobId.symm, hrunning⟩
  exact .single (settleOutcomeIn_change h hheld (h.jobs.below job hjobMem) hsettle)

theorem commitIn_changes {call : StepCall} {run : StepRun} (hplaced : claimed.Placed t)
    (h : commitIn options t claimed call run = some (after, entry, notifications)) :
    owned t claimed = true ∧ ∀ horizon, Changes options horizon t after := by
  obtain ⟨recorded, -, h⟩ := Option.bind_eq_some_iff.1 h
  have hplain : ∀ recorded, appendIn options t claimed recorded = some after →
      owned t claimed = true ∧ ∀ horizon, Changes options horizon t after :=
    fun recorded happend => ⟨(appendIn_inv happend).1, fun _ => .single (appendIn_change happend)⟩
  split at h
  · obtain ⟨slept, hsleep, hpair⟩ := Option.bind_eq_some_iff.1 h
    cases hpair
    obtain ⟨first, happend, -⟩ := Option.bind_eq_some_iff.1 hsleep
    exact ⟨(appendIn_inv happend).1, fun _ => sleepIn_changes hplaced hsleep⟩
  split at h
  · split at h
    · obtain ⟨stepped, hstep, hpair⟩ := Option.bind_eq_some_iff.1 h
      cases hpair
      obtain ⟨howned, written, hadmitted, happend⟩ := stepIn_changes hstep
      exact ⟨howned, fun _ => hadmitted.changes.tail (appendIn_change happend)⟩
    · cases h
  · obtain ⟨appended, happend, hpair⟩ := Option.bind_eq_some_iff.1 h
    cases hpair
    exact hplain _ happend

end AckerDB.Jobs
