import AckerDB.Runtime.Jobs.Structure

/-!
# Retention of Jobs

What a reap pass deletes: a page of expired Jobs with their runs, then a page of expired runs
except those that are the latest of a Job.

* `mem_reapJobs`, `mem_reapRuns` — the rows that the two sweeps leave;
* `Retains` — the latest runs and the outcomes a dedupe would return stay, and what has expired
  goes sooner or later;
* `reap_retains_iff` — this is so unless a page holds nothing but latest runs.
-/

namespace AckerDB.Jobs

open List

variable {options : Options} {t : Tables} {now : Millis}

/-- The run is the one its Job's outcome is read from. -/
def Tables.isLatest (t : Tables) (run : JobRunRow) : Bool :=
  (t.jobById run.jobId).any fun job => job.runCount = run.number

/-- The stamp has passed. -/
def expired (deleteAfter : Option Millis) (now : Millis) : Bool :=
  deleteAfter.any fun stamp => stamp ≤ now

/-! ## The two sweeps -/

theorem mem_reapJobs {jobs : List JobRow} :
    (∀ row, row ∈ (reapJobs t jobs).jobs.rows ↔
      row ∈ t.jobs.rows ∧ ∀ job ∈ jobs, row.id ≠ job.id) ∧
    ∀ run, run ∈ (reapJobs t jobs).runs.rows ↔
      run ∈ t.runs.rows ∧ ∀ job ∈ jobs, run.jobId ≠ job.id := by
  induction jobs generalizing t with
  | nil => simp [reapJobs]
  | cons job rest ih =>
    rw [reapJobs]
    refine ⟨fun row => ?_, fun run => ?_⟩
    · rw [ih.1, Tables.deleteWithRuns, RowTable.mem_delete, forall_mem_cons, and_assoc]
    · rw [ih.2, Tables.deleteWithRuns, RowTable.mem_deleteWhere, forall_mem_cons, and_assoc,
        decide_eq_false_iff_not]

theorem jobs_reapRuns (t : Tables) (runs : List JobRunRow) : (reapRuns t runs).jobs = t.jobs := by
  induction runs generalizing t with
  | nil => rfl
  | cons run rest ih =>
    rw [reapRuns]
    split
    · exact ih t
    · exact ih _

theorem mem_reapRuns {runs : List JobRunRow} (row : JobRunRow) :
    row ∈ (reapRuns t runs).runs.rows ↔
      row ∈ t.runs.rows ∧ ∀ run ∈ runs, t.isLatest run = false → row.id ≠ run.id := by
  induction runs generalizing t with
  | nil => simp [reapRuns]
  | cons run rest ih =>
    rw [reapRuns, forall_mem_cons]
    split
    · next hlatest =>
      have hlatest : t.isLatest run = true := hlatest
      simp [ih, hlatest]
    · next hhistory =>
      have hhistory : t.isLatest run = false := eq_false_of_ne_true hhistory
      rw [ih, RowTable.mem_delete, and_assoc]
      exact and_congr_right fun _ => and_congr_left fun _ => by simp [hhistory]

variable {job : JobRow} {limit : Nat}

theorem mem_expiredJobs (h : job ∈ t.expiredJobs now limit) :
    job ∈ t.jobs.rows ∧ expired job.deleteAfter now = true := by
  have hmem := mem_of_mem_take h
  rwa [Keyset.mem_orderBy, mem_filter] at hmem

theorem mem_expiredRuns {run : JobRunRow} (h : run ∈ t.expiredRuns now limit) :
    run ∈ t.runs.rows ∧ expired run.deleteAfter now = true := by
  have hmem := mem_of_mem_take h
  rwa [Keyset.mem_orderBy, mem_filter] at hmem

/-- A page is empty only when nothing has expired. -/
theorem expiredJobs_ne_nil (hlimit : 0 < limit) (hjob : job ∈ t.jobs.rows)
    (hexpired : expired job.deleteAfter now = true) :
    t.expiredJobs now limit ≠ [] := by
  rw [Tables.expiredJobs, Ne, take_eq_nil_iff, not_or]
  exact ⟨by omega, ne_nil_of_mem (Keyset.mem_orderBy.2 (mem_filter.2 ⟨hjob, hexpired⟩))⟩

/-! ## What a pass keeps -/

/-- The stamps of the store are those its definitions give. -/
def Stamped (options : Options) (t : Tables) : Prop :=
  ∀ job ∈ t.jobs.rows, ∀ stamp, job.deleteAfter = some stamp → ∃ outcome settledAt,
    job.state = TerminalOutcome.jobState outcome ∧ job.settledAt = some settledAt ∧
      retentionStamp (options.definition job.name) outcome settledAt = some stamp

/-- **What is asked of a reap pass.** -/
structure Retains (options : Options) (t : Tables) (now : Millis) : Prop where
  /-- The latest run of a Job stays as long as the Job. -/
  latest : ∀ run ∈ t.runs.rows, ∀ job ∈ (reapIn options t now).1.jobs.rows, job.id = run.jobId →
    job.runCount = run.number → run ∈ (reapIn options t now).1.runs.rows
  /-- An outcome that a dedupe would return stays. -/
  outcome : ∀ name argsHash definition dedupe job, options.definition name = some definition →
    definition.dedupe = some dedupe → dedupeJob t dedupe name argsHash now = some job →
    job.state.isTerminal = true → job ∈ (reapIn options t now).1.jobs.rows
  /-- Where something may go, something goes. -/
  progress : ((∃ job ∈ t.jobs.rows, expired job.deleteAfter now = true) ∨
      ∃ run ∈ t.runs.rows, expired run.deleteAfter now = true ∧ t.isLatest run = false) →
    (∃ job ∈ t.jobs.rows, job ∉ (reapIn options t now).1.jobs.rows) ∨
      ∃ run ∈ t.runs.rows, run ∉ (reapIn options t now).1.runs.rows

section

variable (hjobs : t.jobs.Valid JobRow.id)

include hjobs

theorem reap_latest (hruns : t.runs.Valid JobRunRow.id) {run : JobRunRow} (hrun : run ∈ t.runs.rows)
    (hjob : job ∈ (reapIn options t now).1.jobs.rows) (hid : job.id = run.jobId)
    (hlatest : job.runCount = run.number) : run ∈ (reapIn options t now).1.runs.rows := by
  rw [reapIn] at hjob ⊢
  generalize t.expiredJobs now options.claimBatchSize = page at hjob ⊢
  rw [jobs_reapRuns] at hjob
  obtain ⟨hrow, hkept⟩ := (mem_reapJobs.1 job).1 hjob
  rw [mem_reapRuns, mem_reapJobs.2]
  refine ⟨⟨hrun, hid ▸ hkept⟩, fun other hother hhistory heq => ?_⟩
  obtain ⟨hmem, -⟩ := mem_expiredRuns hother
  cases hruns.distinct run hrun other ((mem_reapJobs.2 other).1 hmem).1 heq
  rw [Tables.isLatest, Tables.jobById] at hhistory
  cases hfound : (reapJobs t page).jobs.byId JobRow.id run.jobId with
  | none => exact RowTable.byId_eq_none hfound job hjob hid
  | some found =>
    obtain ⟨hmem, hsame⟩ := RowTable.mem_of_byId hfound
    cases hjobs.distinct job hrow found ((mem_reapJobs.1 found).1 hmem).1 (hid.trans hsame.symm)
    simp [hfound, hlatest] at hhistory

/-- A Job that is deleted has expired. -/
theorem mem_reapIn (hjob : job ∈ t.jobs.rows) (hkept : expired job.deleteAfter now = false) :
    job ∈ (reapIn options t now).1.jobs.rows := by
  rw [reapIn]
  rw [jobs_reapRuns, mem_reapJobs.1]
  refine ⟨hjob, fun other hother hid => ?_⟩
  obtain ⟨hmem, hexpired⟩ := mem_expiredJobs hother
  cases hjobs.distinct job hjob other hmem hid
  exact Bool.false_ne_true (hkept.symm.trans hexpired)

end

omit t now in
/-- The stamp of an outcome is not before the end of its window. -/
theorem not_insideWindow {definition : Job} {dedupe : Dedupe} {outcome : TerminalOutcome}
    {settledAt stamp now : Millis} {job : JobRow} (hdedupe : definition.dedupe = some dedupe)
    (hstamp : retentionStamp (some definition) outcome settledAt = some stamp) (hnow : stamp ≤ now)
    (hsettled : job.settledAt = some settledAt) :
    (outcome.jobState = .completed → insideWindow dedupe.completed job now = false) ∧
      (outcome.jobState = .failed → insideWindow dedupe.failed job now = false) := by
  have hlonger {a b : JobWindow} (hwindow : window (a.longer b) settledAt = some stamp) :
      insideWindow b job now = false := by
    cases a <;> cases b <;> simp_all [JobWindow.longer, window, insideWindow]
    intro _
    exact le_trans (by simp [← hwindow]) hnow
  cases outcome <;> simp only [retentionStamp, hdedupe] at hstamp
  · exact ⟨fun _ => hlonger hstamp, by simp [TerminalOutcome.jobState]⟩
  · exact ⟨by simp [TerminalOutcome.jobState], fun _ => hlonger hstamp⟩
  · simp [TerminalOutcome.jobState]

/-- A settled Job that a dedupe returns is inside of its window. -/
theorem mem_of_dedupeJob {dedupe : Dedupe} {name argsHash : String}
    (h : dedupeJob t dedupe name argsHash now = some job)
    (hterminal : job.state.isTerminal = true) :
    job ∈ t.jobs.rows ∧ job.name = name ∧
      (job.state = .completed ∧ insideWindow dedupe.completed job now = true ∨
        job.state = .failed ∧ insideWindow dedupe.failed job now = true) := by
  have hnewest {state : JobState} {window : JobWindow} {found : JobRow}
      (hfound : (t.newestSettledFor name argsHash state).filter
        (fun job => insideWindow window job now) = some found) :
      found ∈ t.jobs.rows ∧ found.name = name ∧ found.state = state ∧
        insideWindow window found now = true := by
    obtain ⟨hhead, hinside⟩ := Option.filter_eq_some_iff.1 hfound
    have hmem := mem_of_mem_head? hhead
    rw [Keyset.mem_orderBy, mem_filter, decide_eq_true_iff] at hmem
    exact ⟨hmem.1, hmem.2.1, hmem.2.2.2, hinside⟩
  unfold dedupeJob at h
  split at h
  · next live hlive =>
    cases h
    have hsome := find?_some hlive
    simp [JobRow.live, hterminal] at hsome
  · dsimp only at h
    split at h
    · next a b ha hb =>
      split at h <;> cases h
      · obtain ⟨hmem, hname, hstate, hinside⟩ := hnewest hb
        exact ⟨hmem, hname, .inr ⟨hstate, hinside⟩⟩
      · obtain ⟨hmem, hname, hstate, hinside⟩ := hnewest ha
        exact ⟨hmem, hname, .inl ⟨hstate, hinside⟩⟩
    · next a ha _ =>
      cases h
      obtain ⟨hmem, hname, hstate, hinside⟩ := hnewest ha
      exact ⟨hmem, hname, .inl ⟨hstate, hinside⟩⟩
    · obtain ⟨hmem, hname, hstate, hinside⟩ := hnewest h
      exact ⟨hmem, hname, .inr ⟨hstate, hinside⟩⟩

theorem reap_outcome (hjobs : t.jobs.Valid JobRow.id) (hstamped : Stamped options t)
    {name argsHash : String} {definition : Job} {dedupe : Dedupe}
    (hdefinition : options.definition name = some definition)
    (hdedupe : definition.dedupe = some dedupe)
    (hjob : dedupeJob t dedupe name argsHash now = some job)
    (hterminal : job.state.isTerminal = true) : job ∈ (reapIn options t now).1.jobs.rows := by
  obtain ⟨hmem, rfl, hinside⟩ := mem_of_dedupeJob hjob hterminal
  refine mem_reapIn hjobs hmem (eq_false_of_ne_true fun hexpired => ?_)
  obtain ⟨stamp, hstamp, hnow⟩ := (Option.any_eq_true _ _).1 hexpired
  obtain ⟨outcome, settledAt, hstate, hsettled, hretention⟩ := hstamped job hmem stamp hstamp
  rw [hdefinition] at hretention
  have hoff := not_insideWindow hdedupe hretention (of_decide_eq_true hnow) hsettled
  rw [← hstate] at hoff
  rcases hinside with ⟨hstate, hinside⟩ | ⟨hstate, hinside⟩
  · exact Bool.false_ne_true ((hoff.1 hstate).symm.trans hinside)
  · exact Bool.false_ne_true ((hoff.2 hstate).symm.trans hinside)

/-! ## What a pass deletes -/

/-- **The page is stuck**: no Job has expired, and the page of expired runs holds only latest
runs, while another expired run is history. -/
structure Blocked (options : Options) (t : Tables) (now : Millis) : Prop where
  jobs : ∀ job ∈ t.jobs.rows, expired job.deleteAfter now = false
  page : ∀ run ∈ t.expiredRuns now options.claimBatchSize, t.isLatest run = true
  history : ∃ run ∈ t.runs.rows, expired run.deleteAfter now = true ∧ t.isLatest run = false

/-- Without expired Jobs only the second sweep does anything. -/
theorem reapIn_of_no_jobs (h : ∀ job ∈ t.jobs.rows, expired job.deleteAfter now = false) :
    (reapIn options t now).1 = reapRuns t (t.expiredRuns now options.claimBatchSize) := by
  have hpage : t.expiredJobs now options.claimBatchSize = [] := by
    refine eq_nil_iff_forall_not_mem.2 fun job hjob => ?_
    obtain ⟨hmem, hexpired⟩ := mem_expiredJobs hjob
    exact Bool.false_ne_true ((h job hmem).symm.trans hexpired)
  rw [reapIn, hpage]
  rfl

theorem reap_progress (hlimit : 0 < options.claimBatchSize) (h : ¬Blocked options t now)
    (hdue : (∃ job ∈ t.jobs.rows, expired job.deleteAfter now = true) ∨
      ∃ run ∈ t.runs.rows, expired run.deleteAfter now = true ∧ t.isLatest run = false) :
    (∃ job ∈ t.jobs.rows, job ∉ (reapIn options t now).1.jobs.rows) ∨
      ∃ run ∈ t.runs.rows, run ∉ (reapIn options t now).1.runs.rows := by
  by_cases hjobs : ∃ job ∈ t.jobs.rows, expired job.deleteAfter now = true
  · obtain ⟨job, hjob, hexpired⟩ := hjobs
    obtain ⟨first, hfirst⟩ := exists_mem_of_ne_nil _ (expiredJobs_ne_nil hlimit hjob hexpired)
    refine .inl ⟨first, (mem_expiredJobs hfirst).1, fun hkept => ?_⟩
    rw [reapIn] at hkept
    rw [jobs_reapRuns, mem_reapJobs.1] at hkept
    exact hkept.2 first hfirst rfl
  · have hnone : ∀ job ∈ t.jobs.rows, expired job.deleteAfter now = false := fun job hjob =>
      eq_false_of_ne_true fun hexpired => hjobs ⟨job, hjob, hexpired⟩
    have hpage : ¬∀ run ∈ t.expiredRuns now options.claimBatchSize, t.isLatest run = true :=
      fun hpage => h ⟨hnone, hpage, hdue.resolve_left hjobs⟩
    simp only [not_forall] at hpage
    obtain ⟨run, hrun, hlatest⟩ := hpage
    refine .inr ⟨run, (mem_expiredRuns hrun).1, fun hkept => ?_⟩
    rw [reapIn_of_no_jobs hnone, mem_reapRuns] at hkept
    exact hkept.2 run hrun (eq_false_of_ne_true hlatest) rfl

/-- **Retention.**  In a store with distinct ids whose stamps its definitions gave, a reap pass
keeps every latest run and every outcome a dedupe would return; and it deletes something where
something may go exactly when its page of runs is not stuck. -/
theorem reap_retains_iff (hlimit : 0 < options.claimBatchSize) (hjobs : t.jobs.Valid JobRow.id)
    (hruns : t.runs.Valid JobRunRow.id) (hstamped : Stamped options t) :
    Retains options t now ↔ ¬Blocked options t now := by
  constructor
  · rintro hretains ⟨hnone, hpage, hhistory⟩
    have hsame : (reapIn options t now).1 = _ := reapIn_of_no_jobs hnone
    rcases hretains.progress (.inr hhistory) with ⟨job, hjob, hgone⟩ | ⟨run, hrun, hgone⟩
    · rw [hsame, jobs_reapRuns] at hgone
      exact hgone hjob
    · rw [hsame, mem_reapRuns] at hgone
      refine hgone ⟨hrun, fun other hother hhistory => ?_⟩
      exact absurd (hpage other hother) (by simp [hhistory])
  · intro hfree
    exact ⟨fun run hrun job hjob => reap_latest hjobs hruns hrun hjob,
      fun _ _ _ _ _ => reap_outcome hjobs hstamped, reap_progress hlimit hfree⟩

/-- A Job of the mailer before its first run. -/
def mail : Admission where
  name := "mail"
  argsJson := .null
  argsHash := "mail"
  key := none
  dueAt := 0
  now := 0
  trigger := .enqueue
  parentJobId := none

/-- The first run of a Job, after it was settled. -/
def firstRun (id : Nat) (deleteAfter : Millis) : JobRunRow :=
  settleRun .canceled 0 (some deleteAfter) (freshRun (mail.row id) 0 ⟨0, id⟩ 30 id)

/-- A reopened Job that was not claimed yet, and a Job in its second run; the first runs of both
have expired. -/
def reopenedStore : Tables where
  jobs := ⟨[{ mail.row 1 with runCount := 1 }, { mail.row 2 with runCount := 2 }], 3⟩
  runs := ⟨[firstRun 1 10, firstRun 2 20,
    freshRun { mail.row 2 with runCount := 1 } 25 ⟨25, 3⟩ 55 3], 4⟩

theorem reap_retains_iff_reopened :
    Retains { mailer with claimBatchSize := 2 } reopenedStore 30 ↔
      ¬Blocked { mailer with claimBatchSize := 2 } reopenedStore 30 :=
  reap_retains_iff (by decide) ⟨by decide +kernel, by decide +kernel⟩
    ⟨by decide +kernel, by decide +kernel⟩ (by simp [Stamped, reopenedStore, Admission.row])

/-- With a page of one run, the latest run of the reopened Job hides the history behind it. -/
theorem history_starves : ¬Retains { mailer with claimBatchSize := 1 } reopenedStore 30 := by
  intro h
  have hjobs : (reapIn { mailer with claimBatchSize := 1 } reopenedStore 30).1.jobs.rows =
      reopenedStore.jobs.rows := by decide +kernel
  have hruns : (reapIn { mailer with claimBatchSize := 1 } reopenedStore 30).1.runs.rows =
      reopenedStore.runs.rows := by decide +kernel
  rcases h.progress (.inr ⟨firstRun 2 20, by decide +kernel, by decide +kernel, by decide +kernel⟩)
    with ⟨job, hjob, hgone⟩ | ⟨run, hrun, hgone⟩
  · exact hgone (hjobs ▸ hjob)
  · exact hgone (hruns ▸ hrun)

end AckerDB.Jobs
