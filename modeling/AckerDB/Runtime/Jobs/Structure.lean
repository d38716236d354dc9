import AckerDB.Runtime.Jobs.Inversion

/-!
# The structure of Jobs and runs

In every state of the runner the runs of a Job are numbered without gaps at the top, only the
latest one can be running, and its lease tells the state of the Job.  A run that has been settled
stays so, and a handler that lost its lease changes nothing.

* `RunsKept` — what any sequence of changes does to the runs that exist;
* `Sound` — consistent tables, and handlers with distinct leases;
* `jobs_structure` — the structure in every state.
-/

namespace AckerDB.Jobs

open List

variable {options : Options} {horizon : Nat} {t u after : Tables}

variable {run : JobRunRow} {claimed : ClaimedRun} {number : Nat} {s s' : State} {job : JobRow}
  {e : Event}

/-! ## Runs keep their settlement -/

/-- A run of the later tables is new, or an earlier run that has not been unsettled. -/
structure RunsKept (t after : Tables) : Prop where
  next : t.runs.next ≤ after.runs.next
  old : ∀ run ∈ after.runs.rows, t.runs.next ≤ run.id ∨ ∃ before ∈ t.runs.rows,
    before.id = run.id ∧ before.jobId = run.jobId ∧
      (before.state ≠ .running → run.state = before.state)

theorem RunsKept.of_eq (h : after.runs = t.runs) : RunsKept t after := by
  refine ⟨by rw [h], fun run hrun => .inr ⟨run, by rw [← h]; exact hrun, rfl, rfl, fun _ => rfl⟩⟩

theorem RunsKept.trans (h : RunsKept t u) (h' : RunsKept u after) : RunsKept t after := by
  refine ⟨h.next.trans h'.next, fun run hrun => ?_⟩
  rcases h'.old run hrun with hnew | ⟨middle, hmiddle, hid, hjob, hstate⟩
  · exact .inl (h.next.trans hnew)
  rcases h.old middle hmiddle with hnew | ⟨before, hbefore, hid', hjob', hstate'⟩
  · exact .inl (by rw [← hid]; exact hnew)
  · refine .inr ⟨before, hbefore, hid'.trans hid, hjob'.trans hjob, fun hsettled => ?_⟩
    have heq := hstate' hsettled
    rw [hstate (by rw [heq]; exact hsettled), heq]

theorem RunsKept.deleted {p : JobRunRow → Bool} (h : after.runs = t.runs.deleteWhere p) :
    RunsKept t after := by
  refine ⟨by rw [h]; rfl, fun run hrun => .inr ⟨run, ?_, rfl, rfl, fun _ => rfl⟩⟩
  rw [h] at hrun
  exact (RowTable.mem_deleteWhere.1 hrun).1

/-- A change of one run that is running, or that does not touch its state. -/
theorem RunsKept.setRun (h : Consistent t) (hrun : run ∈ t.runs.rows)
    {change : JobRunRow → JobRunRow} (hid : (change run).id = run.id)
    (hjob : (change run).jobId = run.jobId)
    (hstate : run.state = .running ∨ (change run).state = run.state) :
    RunsKept t (t.setRun run.id change) := by
  refine ⟨Nat.le_refl _, fun row hrow => .inr ?_⟩
  obtain ⟨old, hold, rfl⟩ := RowTable.mem_patch.1 hrow
  by_cases hsame : old.id = run.id
  · have heq := h.runs.distinct old hold run hrun hsame
    subst heq
    rw [if_pos rfl]
    refine ⟨old, hold, hid.symm, hjob.symm, fun hsettled => ?_⟩
    rcases hstate with hrunning | hkept
    · exact absurd hrunning hsettled
    · exact hkept
  · rw [if_neg hsame]
    exact ⟨old, hold, rfl, rfl, fun _ => rfl⟩

theorem endRun_runsKept (h : Consistent t) (job : JobRow) (outcome : TerminalOutcome) (now : Millis)
    (stamp : Option Millis) : RunsKept t (endRun t (t.latestRun job) outcome now stamp) := by
  unfold endRun
  split
  · rename_i run hfound
    split
    · rename_i hrunning
      exact .setRun h (Consistent.mem_of_latestRun hfound).1 rfl rfl (.inl hrunning)
    · exact .of_eq rfl
  · exact .of_eq rfl

theorem Change.runsKept (h : Consistent t) (hchange : Change options horizon t after) :
    RunsKept t after := by
  cases hchange with
  | admitted | recorded | reopened | rescheduled => exact .of_eq rfl
  | opened =>
    refine ⟨Nat.le_succ _, fun run hrun => ?_⟩
    rcases RowTable.mem_insert.1 hrun with hrun | rfl
    · exact .inr ⟨run, hrun, rfl, rfl, fun _ => rfl⟩
    · exact .inl (Nat.le_refl _)
  | resumed _ _ _ hfound =>
    obtain ⟨-, hnumber, hrunning⟩ := suspendedRun_eq_some hfound
    exact (RunsKept.setRun h (Tables.mem_of_byNumber hnumber).1 rfl rfl (.inl hrunning)).trans
      (.of_eq rfl)
  | @settled job outcome now stamp =>
    refine (endRun_runsKept h job outcome now stamp).trans (.of_eq ?_)
    rw [mintRepeat_runs]
    rfl
  | retried _ _ _ _ _ hrun _ hrunning | suspended _ _ hrun _ hrunning =>
    exact (RunsKept.setRun h hrun rfl rfl (.inl hrunning)).trans (.of_eq rfl)
  | restamped _ hrun => exact .setRun h hrun rfl rfl (.inr rfl)
  | reaped | expired => exact .deleted rfl

theorem Changes.runsKept (h : Consistent t) (hchanges : Changes options horizon t after) :
    RunsKept t after := by
  induction hchanges with
  | refl => exact .of_eq rfl
  | tail hfirst hlast ih => exact ih.trans (hlast.runsKept (Changes.consistent h hfirst))

theorem ClaimedRun.Placed.kept (h : claimed.Placed t) (hbelow : claimed.runId < t.runs.next)
    (hkept : RunsKept t after) : claimed.Placed after := by
  intro run hrun hid
  rcases hkept.old run hrun with hnew | ⟨before, hbefore, hbeforeId, hjob, -⟩
  · omega
  · rw [← hjob]
    exact h before hbefore (hbeforeId.trans hid)

/-! ## What an event does -/

/-- The claims of the handlers. -/
def State.claims (s : State) : List ClaimedRun := s.handlers.map fun entry => entry.2.claimed

/-- **Consistent tables, and a claim of its own for every handler.** -/
structure Sound (s : State) : Prop where
  tables : Consistent s.tables
  placed : ∀ claimed ∈ s.claims, claimed.runId < s.tables.runs.next ∧ claimed.Placed s.tables
  counted : ∀ claimed ∈ s.claims, claimed.leaseToken.count ≤ s.leaseCounter
  tokens : (s.claims.map fun claimed => claimed.leaseToken.count).Nodup

/-- What an event does to the tables. -/
def Moves (options : Options) (e : Event) (t after : Tables) : Prop :=
  Changes options t.jobs.next t after ∨ ∃ id, e = .delete id ∧ after = t.deleteWithRuns id

/-- What it does to the claims. -/
def Claims (s s' : State) : Prop :=
  s'.claims = s.claims ∧ s.leaseCounter ≤ s'.leaseCounter ∨ s'.claims = [] ∨
    ∃ claimed, s'.claims = s.claims ++ [claimed] ∧ s'.leaseCounter = s.leaseCounter + 1 ∧
      claimed.leaseToken.count = s.leaseCounter + 1 ∧
      claimed.runId < s'.tables.runs.next ∧ claimed.Placed s'.tables

variable {handlers : List (Nat × Handler)}

theorem claims_updateHandler {change : Handler → Handler}
    (hkeep : ∀ handler, (change handler).claimed = handler.claimed) :
    (updateHandler handlers number change).map (fun entry => entry.2.claimed) =
      handlers.map fun entry => entry.2.claimed := by
  rw [updateHandler, map_map]
  apply map_congr_left
  rintro ⟨other, handler⟩ -
  simp only [Function.comp_apply]
  split
  · exact hkeep handler
  · rfl

theorem mem_of_lookup {handler : Handler} (h : handlers.lookup number = some handler) :
    (number, handler) ∈ handlers := by
  induction handlers with
  | nil => cases h
  | cons entry _ ih =>
    obtain ⟨other, first⟩ := entry
    rw [lookup_cons] at h
    split at h
    · rename_i hsame
      cases h
      rw [beq_iff_eq] at hsame
      rw [hsame]
      exact mem_cons_self
    · exact mem_cons_of_mem _ (ih h)

theorem Sound.placed_of_lookup (h : Sound s) {handler : Handler}
    (hfound : s.handlers.lookup number = some handler) : handler.claimed.Placed s.tables :=
  (h.placed _ (mem_map.2 ⟨_, mem_of_lookup hfound, rfl⟩)).2

/-- The claim that is handed to a handler. -/
theorem claimIn_claimed {now : Millis} {count : Nat} {inline : InlineRun} {page : JobCursor}
    (hjob : job ∈ t.jobs.rows) (hstate : job.state = .pending ∨ job.state = .retrying)
    (hclaimable : claimable options t job = true)
    (hclaim : claimIn options t job now count inline = some (after, .claimed claimed page)) :
    ∃ run, Opened options t job now count after run ∧ claimed.runId = run.id ∧
      claimed.jobId = job.id ∧ claimed.leaseToken = ⟨now, count⟩ ∧
      claimed.stepsJson = job.stepsJson := by
  simp only [claimIn, Option.bind_eq_bind, Option.bind_eq_some_iff] at hclaim
  obtain ⟨⟨opened, run⟩, hopen, hclaim⟩ := hclaim
  have hopened := openRun_opened hjob hstate hclaimable hopen
  split at hclaim
  · obtain ⟨settled, hsettled, hpair⟩ := Option.bind_eq_some_iff.1 hclaim
    cases hpair
  · cases hclaim
    exact ⟨run, hopened, rfl, rfl, rfl, rfl⟩

theorem Opened.placed {now : Millis} {count : Nat} (h : Opened options t job now count after run)
    (hafter : Consistent after) (hrun : claimed.runId = run.id) (hjob : claimed.jobId = job.id) :
    claimed.runId < after.runs.next ∧ claimed.Placed after := by
  refine ⟨by rw [hrun]; exact hafter.runs.below run h.held.mem, fun other hother hid => ?_⟩
  rw [hafter.runs.distinct other hother run h.held.mem (hid.trans hrun), hjob]
  exact h.held.owner

theorem step_spec (h : Sound s) (hstep : step options s e = some s') :
    Moves options e s.tables s'.tables ∧ Claims s s' := by
  have hsame : ∀ tables, Changes options s.tables.jobs.next s.tables tables → ∀ s' : State, s'.tables = tables →
      s'.claims = s.claims → s.leaseCounter ≤ s'.leaseCounter →
      Moves options e s.tables s'.tables ∧ Claims s s' := by
    intro tables hchanges s' htables hclaims hcounter
    rw [htables]
    exact ⟨.inl hchanges, .inl ⟨hclaims, hcounter⟩⟩
  have hor : ∀ result : Option Tables,
      (∀ tables, result = some tables → Changes options s.tables.jobs.next s.tables tables) → ∀ s' : State,
      orElse s result = s' → Moves options e s.tables s'.tables ∧ Claims s s' := by
    intro result hresult s' hs'
    subst hs'
    cases result with
    | none => exact hsame _ .refl _ rfl rfl (Nat.le_refl _)
    | some tables => exact hsame _ (hresult tables rfl) _ rfl rfl (Nat.le_refl _)
  obtain ⟨⟨next, notifications⟩, htransition, rfl⟩ := Option.map_eq_some_iff.1 hstep
  cases e with
  | activate =>
    cases htransition
    exact hor _ (fun tables hok => (activateIn_admitted hok).changes) _ rfl
  | enqueue call =>
    cases htransition
    refine hor _ (fun tables hok => ?_) _ rfl
    obtain ⟨⟨found, handle⟩, hfound, rfl⟩ := Option.map_eq_some_iff.1 hok
    cases henqueue : enqueueWith options s.tables call.name call.args call.enqueue .enqueue
        call.now with
    | error _ =>
      rw [henqueue] at hfound
      cases hfound
    | ok pair =>
      rw [henqueue] at hfound
      cases hfound
      rcases enqueueWith_changes henqueue with rfl | ⟨job, hparent, rfl⟩
      · exact .refl
      · exact .single (.admitted _ job hparent)
  | runAgain =>
    cases htransition
    exact hor _ (fun tables hok => (runAgainIn_admitted hok).changes) _ rfl
  | cancel =>
    simp only [transition] at htransition
    split at htransition
    · rename_i tables hcancel
      cases htransition
      exact hsame tables (cancelIn_changes h.tables hcancel) _ rfl rfl (Nat.le_refl _)
    · rename_i tables _ _ hcancel
      cases htransition
      exact hsame tables (cancelIn_changes h.tables hcancel) _ rfl rfl (Nat.le_refl _)
    · cases htransition
      exact hsame _ .refl _ rfl rfl (Nat.le_refl _)
  | retry =>
    cases htransition
    exact hor _ (fun tables hok => retryIn_changes h.tables hok) _ rfl
  | forceRunAgain =>
    simp only [transition] at htransition
    split at htransition
    · rename_i tables hforce
      cases htransition
      exact hsame tables (forceRunAgainIn_changes h.tables hforce) _ rfl rfl (Nat.le_refl _)
    · cases htransition
      exact hsame _ .refl _ rfl rfl (Nat.le_refl _)
  | delete id =>
    cases htransition
    cases hdelete : deleteIn s.tables id with
    | none => exact hsame _ .refl _ rfl rfl (Nat.le_refl _)
    | some =>
      obtain ⟨job, hjob, hpair⟩ := Option.bind_eq_some_iff.1 hdelete
      cases hpair
      refine ⟨.inr ⟨id, rfl, ?_⟩, .inl ⟨rfl, Nat.le_refl _⟩⟩
      simp only [orElse, (Tables.mem_of_jobById hjob).2]
  | reschedule =>
    cases htransition
    exact hor _ (fun tables hok => rescheduleIn_changes hok) _ rfl
  | recover =>
    simp only [transition] at htransition
    split at htransition
    · rename_i tables told hrecover
      cases htransition
      exact hsame tables (recoverIn_changes h.tables hrecover) _ rfl rfl (Nat.le_refl _)
    · cases htransition
      exact hsame _ .refl _ rfl rfl (Nat.le_refl _)
  | claim =>
    simp only [transition] at htransition
    split at htransition
    · cases htransition
      exact hsame _ .refl _ rfl rfl (Nat.le_refl _)
    rename_i job hscan
    obtain ⟨hjob, hstate, -, hclaimable⟩ := claimScan_eq_some hscan
    split at htransition
    · cases htransition
      exact hsame _ .refl _ rfl rfl (Nat.le_succ _)
    · rename_i tables notification page hclaim
      cases htransition
      exact hsame tables (claimIn_changes h.tables hjob hstate hclaimable hclaim) _ rfl rfl
        (Nat.le_succ _)
    rename_i tables claimed page hclaim
    cases htransition
    have hchanges := claimIn_changes h.tables hjob hstate hclaimable hclaim
    obtain ⟨run, hopened, hrunId, hjobId, htoken, -⟩ :=
      claimIn_claimed hjob hstate hclaimable hclaim
    obtain ⟨hbelow, hplaced⟩ := hopened.placed (hchanges.consistent h.tables) hrunId hjobId
    refine ⟨.inl hchanges, .inr (.inr ⟨claimed, ?_, rfl, by rw [htoken], hbelow, hplaced⟩)⟩
    simp [State.claims]
  | reap =>
    cases htransition
    exact hsame _ (reapIn_changes h.tables) _ rfl rfl (Nat.le_refl _)
  | callStep =>
    simp only [transition] at htransition
    split at htransition
    · cases htransition
    cases htransition
    refine hsame _ .refl _ rfl ?_ (Nat.le_refl _)
    simp only [State.claims]
    apply claims_updateHandler
    exact fun _ => rfl
  | commitStep =>
    simp only [transition] at htransition
    split at htransition
    · cases htransition
    rename_i handler hfound
    split at htransition
    · split at htransition
      · cases htransition
        refine hsame _ .refl _ rfl ?_ (Nat.le_refl _)
        simp only [State.claims]
        apply claims_updateHandler
        exact fun _ => rfl
      rename_i tables entry told hcommit
      cases htransition
      refine hsame tables ((commitIn_changes (h.placed_of_lookup hfound) hcommit).2 _) _ rfl
        ?_ (Nat.le_refl _)
      simp only [State.claims]
      apply claims_updateHandler
      exact fun _ => rfl
    · cases htransition
  | settle =>
    simp only [transition] at htransition
    split at htransition
    · cases htransition
    rename_i handler hfound
    split at htransition
    · cases htransition
      exact hsame _ .refl _ rfl rfl (Nat.le_refl _)
    rename_i tables notification hsettle
    cases htransition
    exact hsame tables (settleIn_changes h.tables (h.placed_of_lookup hfound) hsettle) _ rfl
      rfl (Nat.le_refl _)
  | release =>
    cases htransition
    exact hsame _ .refl _ rfl rfl (Nat.le_refl _)
  | crash =>
    cases htransition
    exact ⟨.inl .refl, .inr (.inl rfl)⟩

theorem Moves.consistent (h : Consistent t) (hmoves : Moves options e t after) :
    Consistent after := by
  rcases hmoves with hchanges | ⟨id, -, rfl⟩
  · exact hchanges.consistent h
  · exact h.deleteWithRuns id

theorem Moves.runsKept (h : Consistent t) (hmoves : Moves options e t after) :
    RunsKept t after := by
  rcases hmoves with hchanges | ⟨id, -, rfl⟩
  · exact hchanges.runsKept h
  · exact .deleted rfl

theorem Sound.step (h : Sound s) (hstep : step options s e = some s') :
    Sound s' := by
  obtain ⟨hmoves, hclaims⟩ := step_spec h hstep
  have hkept := hmoves.runsKept h.tables
  have hplaced : ∀ claimed ∈ s.claims, claimed.runId < s'.tables.runs.next ∧
      claimed.Placed s'.tables := by
    intro claimed hmem
    obtain ⟨hbelow, hplaced⟩ := h.placed claimed hmem
    exact ⟨Nat.lt_of_lt_of_le hbelow hkept.next, hplaced.kept hbelow hkept⟩
  rcases hclaims with ⟨hsame, hcounter⟩ | hnone | ⟨claimed, happend, hcounter, hcount, hbelow, hnew⟩
  · refine ⟨hmoves.consistent h.tables, ?_, ?_, ?_⟩
    · rw [hsame]
      exact hplaced
    · rw [hsame]
      exact fun claimed hmem => (h.counted claimed hmem).trans hcounter
    · rw [hsame]
      exact h.tokens
  · refine ⟨hmoves.consistent h.tables, ?_, ?_, ?_⟩ <;> simp [hnone]
  refine ⟨hmoves.consistent h.tables, ?_, ?_, ?_⟩
  · rw [happend]
    intro other hmem
    rcases mem_append.1 hmem with hmem | hmem
    · exact hplaced other hmem
    · rw [mem_singleton.1 hmem]
      exact ⟨hbelow, hnew⟩
  · rw [happend, hcounter]
    intro other hmem
    rcases mem_append.1 hmem with hmem | hmem
    · exact Nat.le_succ_of_le (h.counted other hmem)
    · rw [mem_singleton.1 hmem, hcount]
  rw [happend, map_append]
  refine Nodup.append h.tokens (nodup_singleton _) ?_
  intro count hmem hnext
  obtain ⟨other, hother, rfl⟩ := mem_map.1 hmem
  have hle := h.counted other hother
  have heq : other.leaseToken.count = claimed.leaseToken.count := mem_singleton.1 hnext
  omega

theorem sound_initial : Sound {} :=
  ⟨consistent_empty, by simp [State.claims], by simp [State.claims], by simp [State.claims]⟩

theorem Reachable.sound (h : Reachable options s) : Sound s :=
  Run.Reachable.induct h sound_initial fun _ _ _ _ hsound _ hstep => hsound.step hstep

/-! ## The structure -/

/-- **The structure of the Jobs and their runs.** -/
structure Structured (t : Tables) : Prop where
  owner : ∀ run ∈ t.runs.rows, ∃ job ∈ t.jobs.rows, job.id = run.jobId
  distinct : ∀ run ∈ t.runs.rows, ∀ other ∈ t.runs.rows, run.jobId = other.jobId →
    run.number = other.number → run = other
  bounded : ∀ job ∈ t.jobs.rows, ∀ run ∈ t.runs.rows, run.jobId = job.id →
    1 ≤ run.number ∧ run.number ≤ job.runCount
  latest : ∀ job ∈ t.jobs.rows, 0 < job.runCount →
    ∃ run ∈ t.runs.rows, run.jobId = job.id ∧ run.number = job.runCount
  single : ∀ job ∈ t.jobs.rows, ∀ run ∈ t.runs.rows, ∀ other ∈ t.runs.rows,
    run.jobId = job.id → other.jobId = job.id → run.state = .running → other.state = .running →
    other = run
  running_latest : ∀ job ∈ t.jobs.rows, ∀ run ∈ t.runs.rows, run.jobId = job.id →
    run.state = .running → run.number = job.runCount
  leased : ∀ job ∈ t.jobs.rows, job.state = .running → ∃ run ∈ t.runs.rows, run.jobId = job.id ∧
    run.number = job.runCount ∧ run.state = .running ∧ run.leaseToken.isSome = true
  suspended : ∀ job ∈ t.jobs.rows, ∀ run ∈ t.runs.rows, run.jobId = job.id →
    job.state = .pending → run.state = .running →
    suspendedRun t job = some run ∧ run.leaseToken = none ∧ run.leaseUntil = none
  terminal : ∀ job ∈ t.jobs.rows, job.state.isTerminal = true →
    ∀ run ∈ t.runs.rows, run.jobId = job.id → run.state ≠ .running

theorem Consistent.bounded (h : Consistent t) (hjob : job ∈ t.jobs.rows) (hrun : run ∈ t.runs.rows)
    (hown : run.jobId = job.id) :
    1 ≤ run.number ∧ run.number ≤ job.runCount := by
  obtain ⟨parent, hparent, hid, hpos, hle⟩ := h.owner run hrun
  rw [h.jobs.distinct parent hparent job hjob (hid.trans hown)] at hle
  exact ⟨hpos, hle⟩

theorem Consistent.leased (h : Consistent t) (hjob : job ∈ t.jobs.rows)
    (hrunning : job.state = .running) : ∃ run ∈ t.runs.rows, run.jobId = job.id ∧
      run.number = job.runCount ∧ run.state = .running ∧ run.leaseToken.isSome = true := by
  obtain ⟨run, hrun, hown, hnumber⟩ := h.latest job hjob (h.opened job hjob hrunning)
  have hcurrent := (h.fits job hjob run hrun hown).current hnumber
  simp only [Current, hrunning] at hcurrent
  exact ⟨run, hrun, hown, hnumber, hcurrent⟩

theorem Consistent.structured (h : Consistent t) : Structured t where
  owner := by
    intro run hrun
    obtain ⟨job, hjob, hid, -, -⟩ := h.owner run hrun
    exact ⟨job, hjob, hid⟩
  distinct := h.number
  bounded := fun _ hjob _ hrun hown => h.bounded hjob hrun hown
  latest := h.latest
  single := fun _ hjob _ hrun _ hother hown hotherOwn hrunning hotherRunning =>
    h.eq_of_running hjob hrun hown hrunning hother hotherOwn hotherRunning
  running_latest := fun _ hjob _ hrun hown hrunning => h.number_of_running hjob hrun hown hrunning
  leased := fun _ hjob hrunning => h.leased hjob hrunning
  suspended := fun _ hjob _ hrun hown hpending hrunning =>
    h.suspended hjob hrun hown hpending hrunning
  terminal := fun _ hjob hterminal => h.settled_of_terminal hjob hterminal

theorem run_runsKept (h : Sound s) {events : List Event}
    (hrun : Run.run (step options) s events = some s') : RunsKept s.tables s'.tables := by
  induction events generalizing s with
  | nil =>
    cases hrun
    exact .of_eq rfl
  | cons _ _ ih =>
    obtain ⟨middle, hstep, hrest⟩ := Option.bind_eq_some_iff.1 hrun
    exact ((step_spec h hstep).1.runsKept h.tables).trans (ih (h.step hstep) hrest)

/-- The handler an event belongs to. -/
def Event.handler : Event → Option Nat
  | .callStep number _ | .commitStep number _ _ | .settle number _ _ | .release number =>
    some number
  | _ => none

/-- **A handler without its lease changes nothing.** -/
theorem stale_unchanged (h : Sound s) {handler : Handler} (hevent : e.handler = some number)
    (hfound : s.handlers.lookup number = some handler) (hstale : handler.owns s.tables = false)
    (hstep : step options s e = some s') :
    s'.tables = s.tables := by
  have hnot : owned s.tables handler.claimed ≠ true := by
    intro howned
    rw [Handler.owns, howned] at hstale
    cases hstale
  obtain ⟨⟨next, notifications⟩, htransition, rfl⟩ := Option.map_eq_some_iff.1 hstep
  cases e with
  | callStep =>
    cases hevent
    simp only [transition, hfound] at htransition
    cases htransition
    rfl
  | commitStep =>
    cases hevent
    simp only [transition, hfound] at htransition
    split at htransition
    · split at htransition
      · cases htransition
        rfl
      · rename_i hcommit
        exact absurd (commitIn_changes (h.placed_of_lookup hfound) hcommit).1 hnot
    · cases htransition
  | settle =>
    cases hevent
    simp only [transition, hfound] at htransition
    split at htransition
    · cases htransition
      rfl
    rename_i hsettle
    cases htransition
    rcases settleIn_inv hsettle with hsame | ⟨howned, -⟩
    · exact hsame
    · exact absurd howned hnot
  | release =>
    cases htransition
    rfl
  | _ => cases hevent

/-- **Jobs and runs keep their structure**, whatever is interleaved; a settled run stays settled,
no two handlers hold one lease, and a handler that lost its lease changes nothing. -/
theorem jobs_structure (options : Options) {s : State} (h : Reachable options s) :
    Structured s.tables ∧
    (∀ events s', Run.run (step options) s events = some s' →
      ∀ run ∈ s.tables.runs.rows, run.state ≠ .running →
      ∀ later ∈ s'.tables.runs.rows, later.id = run.id → later.state = run.state) ∧
    (s.claims.map ClaimedRun.leaseToken).Nodup ∧
    (∀ e s' number handler, step options s e = some s' → e.handler = some number →
      s.handlers.lookup number = some handler → handler.owns s.tables = false →
      s'.tables = s.tables) := by
  have hsound := Reachable.sound h
  refine ⟨hsound.tables.structured, ?_, ?_, ?_⟩
  · intro events s' hrun run hmem hsettled later hlater hid
    have hkept := (run_runsKept hsound hrun).old later hlater
    rcases hkept with hnew | ⟨before, hbefore, hsame, -, hstate⟩
    · have hbelow := hsound.tables.runs.below run hmem
      omega
    · have heq := hsound.tables.runs.distinct before hbefore run hmem (hsame.trans hid)
      subst heq
      exact hstate hsettled
  · apply Nodup.of_map LeaseToken.count
    rw [map_map]
    exact hsound.tokens
  · intro e s' number handler hstep hevent hfound hstale
    exact stale_unchanged hsound hevent hfound hstale hstep

/-- A runner with one recurring Job. -/
def mailer : Options where
  declared := [("mail",
    { kind := .procedure, validateArgs := .ok, argless := true, concurrency := 1, key := none,
      retry := fun _ _ => .null, recurrence := some fun scheduledAt _ => .value (scheduledAt + 10),
      dedupe := none, retention := .forever })]
  maxRunning := 1
  claimBatchSize := 4
  leaseMs := 30
  hashJobArgs := fun _ => "mail"
  journalLength := fun _ => 0
  encodeFailure := fun _ => { code := "internal", text := "not encodable" }

/-- A procedure-kind Job does not use it. -/
def noInline : InlineRun := ⟨[], .error { code := "internal", text := "" }, ⟨0, 0⟩⟩

theorem jobs_structure_mailer :
    ∃ s, Run.run (step mailer) {} [.activate 0, .claim none 10 noInline] = some s ∧ s.tables.runs.rows.length = 1 ∧ Structured s.tables := by
  have hrun : (Run.run (step mailer) {} [.activate 0, .claim none 10 noInline]).map
      (fun s => s.tables.runs.rows.length) = some 1 := by decide +kernel
  obtain ⟨s, hs, hlength⟩ := Option.map_eq_some_iff.1 hrun
  exact ⟨s, hs, hlength, (jobs_structure mailer (Run.reachable_of_run hs)).1⟩

end AckerDB.Jobs
