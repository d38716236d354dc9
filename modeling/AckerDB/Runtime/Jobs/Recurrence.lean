import AckerDB.Runtime.Jobs.Structure

/-!
# The continuity of a recurrence

A repeating definition whose rule always answers a time has a live Job for every identity that has
ever had one settle, as long as nobody deletes a live Job of the identity.

* `Change.hasLive`, `Change.terminal` — one change keeps a live Job, and ends one only if another
  is live afterwards;
* `Minted` — the Jobs a transaction adds, and what their time was computed from;
* `recurrence_continues` — over every run without such a deletion.
-/

namespace AckerDB.Jobs

open RowTable

variable {options : Options} {horizon : Nat} {t u after : Tables}

variable {id : Nat} {change : JobRow → JobRow} {job : JobRow} {now : Millis}

/-! ## Rows of changed tables -/

theorem mem_setJob_inv {row : JobRow} (h : row ∈ (t.setJob id change).jobs.rows) :
    (∃ old ∈ t.jobs.rows, old.id = id ∧ row = change old) ∨ row ∈ t.jobs.rows ∧ row.id ≠ id := by
  obtain ⟨old, hold, rfl⟩ := mem_patch.1 h
  by_cases hsame : old.id = id
  · exact .inl ⟨old, hold, hsame, by rw [if_pos hsame]⟩
  · rw [if_neg hsame]
    exact .inr ⟨hold, hsame⟩

theorem mem_setJob_of_ne {row : JobRow} (h : row ∈ t.jobs.rows) (hne : row.id ≠ id) :
    row ∈ (t.setJob id change).jobs.rows :=
  mem_patch.2 ⟨row, h, (if_neg hne).symm⟩

/-! ## Live Jobs -/

/-- The Job is of the identity. -/
def JobRow.Of (job : JobRow) (name argsHash : String) : Prop :=
  job.name = name ∧ job.argsHash = argsHash

/-- The identity has a live Job. -/
def HasLive (t : Tables) (name argsHash : String) : Prop :=
  ∃ job ∈ t.jobs.rows, job.Of name argsHash ∧ job.live = true

/-- A live Job carries no retention stamp. -/
def LiveKept (t : Tables) : Prop :=
  ∀ job ∈ t.jobs.rows, job.live = true → job.deleteAfter = none

variable {name argsHash : String}

/-- A change of one Job that keeps its identity and leaves it live. -/
theorem HasLive.setJob (h : HasLive t name argsHash)
    (hof : ∀ row, (change row).name = row.name ∧ (change row).argsHash = row.argsHash)
    (hlive : ∀ row ∈ t.jobs.rows, row.id = id → row.live = true → (change row).live = true) :
    HasLive (t.setJob id change) name argsHash := by
  obtain ⟨job, hjob, hjobOf, hjobLive⟩ := h
  by_cases hsame : job.id = id
  · refine ⟨change job, mem_patch.2 ⟨job, hjob, (if_pos hsame).symm⟩, ?_,
      hlive job hjob hsame hjobLive⟩
    rw [JobRow.Of, (hof job).1, (hof job).2]
    exact hjobOf
  · exact ⟨job, mem_setJob_of_ne hjob hsame, hjobOf, hjobLive⟩

theorem HasLive.insertJob (h : HasLive t name argsHash) (job : Admission) :
    HasLive (insertJob t job) name argsHash := by
  obtain ⟨live, hlive, hrest⟩ := h
  exact ⟨live, mem_insert.2 (.inl hlive), hrest⟩

theorem HasLive.mint (h : HasLive t name argsHash) (job : JobRow) (now : Millis) :
    HasLive (mintRepeat options t job now) name argsHash :=
  mintRepeat_induct (P := (HasLive · name argsHash)) h h.insertJob

/-- The rule of the definition always answers a time. -/
def Repeats (options : Options) (name : String) : Prop :=
  ∃ rule, (options.definition name).bind Job.recurrence = some rule ∧
    ∀ scheduledAt now, ∃ dueAt, rule scheduledAt now = .value dueAt

/-- **A settlement mints, unless another Job of the identity is live.** -/
theorem hasLive_mint (hrepeats : Repeats options name) (hof : job.Of name argsHash) (now : Millis) :
    HasLive (mintRepeat options t job now) name argsHash := by
  obtain ⟨rule, hrule, hfinite⟩ := hrepeats
  obtain ⟨dueAt, hdueAt⟩ := hfinite job.scheduledAt now
  obtain ⟨rfl, rfl⟩ := hof
  simp only [mintRepeat, hrule, hdueAt]
  split
  · rename_i hfound
    obtain ⟨live, hlive⟩ := Option.isSome_iff_exists.1 hfound
    have hcond := List.find?_some hlive
    simp only [decide_eq_true_eq] at hcond
    exact ⟨live, List.mem_of_find?_eq_some hlive, ⟨hcond.1, hcond.2.1⟩, hcond.2.2⟩
  · exact ⟨_, mem_insert.2 (.inr rfl), ⟨rfl, rfl⟩, rfl⟩

@[simp] theorem endRun_jobs {run : Option JobRunRow} {outcome : TerminalOutcome}
    {stamp : Option Millis} : (endRun t run outcome now stamp).jobs = t.jobs := by
  unfold endRun
  split
  · split
    · rfl
    · rfl
  · rfl

/-- **No change takes the last live Job of a repeating identity.** -/
theorem Change.hasLive (h : Consistent t) (hkept : LiveKept t) (hrepeats : Repeats options name)
    (hchange : Change options horizon t after) (hlive : HasLive t name argsHash) :
    HasLive after name argsHash := by
  cases hchange with
  | admitted job => exact hlive.insertJob job
  | opened =>
    exact HasLive.setJob (t := ⟨t.jobs, _⟩) hlive (fun _ => ⟨rfl, rfl⟩) fun _ _ _ _ => rfl
  | @settled job _ now _ hjob =>
    obtain ⟨live, hmem, hof, hliveState⟩ := hlive
    by_cases hsame : live.id = job.id
    · rw [h.jobs.distinct live hmem job hjob hsame] at hof
      exact hasLive_mint hrepeats hof now
    refine HasLive.mint ⟨live, ?_, hof, hliveState⟩ job now
    apply mem_setJob_of_ne _ hsame
    rw [endRun_jobs]
    exact hmem
  | resumed | retried | suspended =>
    exact HasLive.setJob (t := t.setRun _ _) hlive (fun _ => ⟨rfl, rfl⟩) fun _ _ _ _ => rfl
  | recorded | rescheduled =>
    exact hlive.setJob (fun _ => ⟨rfl, rfl⟩) fun _ _ _ hstill => hstill
  | reopened _ _ _ _ _ _ hstate =>
    refine hlive.setJob (fun _ => ⟨rfl, rfl⟩) fun _ _ _ _ => ?_
    rcases hstate with rfl | rfl <;> rfl
  | restamped | expired => exact hlive
  | reaped hstamps =>
    obtain ⟨live, hmem, hof, hliveState⟩ := hlive
    refine ⟨live, mem_delete.2 ⟨hmem, fun hid => ?_⟩, hof, hliveState⟩
    have hstamp := hstamps live hmem hid
    rw [hkept live hmem hliveState] at hstamp
    cases hstamp

/-! ## Retention stamps of live Jobs -/

theorem LiveKept.setJob (h : LiveKept t)
    (hchange : ∀ row ∈ t.jobs.rows, row.id = id → (change row).live = true →
      (change row).deleteAfter = none) : LiveKept (t.setJob id change) := by
  intro row hrow hlive
  rcases mem_setJob_inv hrow with ⟨old, hold, hid, rfl⟩ | ⟨hold, -⟩
  · exact hchange old hold hid hlive
  · exact h row hold hlive

theorem LiveKept.insertJob (h : LiveKept t) (job : Admission) : LiveKept (insertJob t job) := by
  intro row hrow hlive
  rcases mem_insert.1 hrow with hrow | rfl
  · exact h row hrow hlive
  · rfl

theorem LiveKept.mint (h : LiveKept t) (job : JobRow) (now : Millis) :
    LiveKept (mintRepeat options t job now) :=
  mintRepeat_induct h h.insertJob

theorem LiveKept.mono (h : LiveKept t) (hsub : ∀ job ∈ after.jobs.rows, job ∈ t.jobs.rows) :
    LiveKept after := fun job hjob => h job (hsub job hjob)

/-- A Job in one of the live states, before and after. -/
theorem live_of_state (h : job.state = .pending ∨ job.state = .retrying) :
    job.live = true := by
  rcases h with h | h
  · rw [JobRow.live, h]
    rfl
  · rw [JobRow.live, h]
    rfl

theorem Change.liveKept (h : Consistent t) (hkept : LiveKept t)
    (hchange : Change options horizon t after) : LiveKept after := by
  -- the one row of an id is the Job the change is about
  have hsame : ∀ {job : JobRow}, job ∈ t.jobs.rows → job.live = true →
      ∀ row ∈ t.jobs.rows, row.id = job.id → row.deleteAfter = none := by
    intro job hjob hlive row hrow hid
    rw [h.jobs.distinct row hrow job hjob hid]
    exact hkept job hjob hlive
  cases hchange with
  | admitted job => exact hkept.insertJob job
  | opened _ _ hjob hstate =>
    have hrows := hsame hjob (live_of_state hstate)
    exact LiveKept.setJob (t := ⟨t.jobs, _⟩) hkept fun row hrow hid _ => hrows row hrow hid
  | resumed _ _ hjob hfound =>
    have hrows := hsame hjob (live_of_state (.inl (suspendedRun_eq_some hfound).1))
    exact LiveKept.setJob (t := t.setRun _ _) hkept fun row hrow hid _ => hrows row hrow hid
  | @settled job outcome now =>
    refine LiveKept.mint (LiveKept.setJob ?_ fun row hrow hid hlive => ?_) job now
    · exact hkept.mono fun row hrow => by rwa [endRun_jobs] at hrow
    · cases outcome <;> cases hlive
  | retried _ _ _ _ hjob hrun hown hrunning | suspended _ hjob hrun hown hrunning =>
    have hrows := hsame hjob (h.live_of_running hjob hrun hown hrunning)
    exact LiveKept.setJob (t := t.setRun _ _) hkept fun row hrow hid _ => hrows row hrow hid
  | recorded | rescheduled => exact hkept.setJob fun row hrow _ hlive => hkept row hrow hlive
  | reopened =>
    exact hkept.setJob fun row hrow hid hlive => rfl
  | restamped | expired => exact hkept
  | reaped => exact hkept.mono fun row hrow => (mem_delete.1 hrow).1

/-! ## Ends of Jobs -/

/-- A terminal Job of the identity. -/
def HasEnded (t : Tables) (name argsHash : String) : Prop :=
  ∃ job ∈ t.jobs.rows, job.Of name argsHash ∧ job.live = false

theorem HasEnded.setJob_inv (h : HasEnded (t.setJob id change) name argsHash)
    (hof : ∀ row, (change row).name = row.name ∧ (change row).argsHash = row.argsHash)
    (hlive : ∀ row ∈ t.jobs.rows, row.id = id → (change row).live = false → row.live = false) :
    HasEnded t name argsHash := by
  obtain ⟨row, hrow, hrowOf, hended⟩ := h
  rcases mem_setJob_inv hrow with ⟨old, hold, hid, rfl⟩ | ⟨hold, -⟩
  · refine ⟨old, hold, ?_, hlive old hold hid hended⟩
    rw [JobRow.Of, (hof old).1, (hof old).2] at hrowOf
    exact hrowOf
  · exact ⟨row, hold, hrowOf, hended⟩

theorem HasEnded.insertJob_inv {job : Admission} (h : HasEnded (insertJob t job) name argsHash) :
    HasEnded t name argsHash := by
  obtain ⟨row, hrow, hrowOf, hended⟩ := h
  rcases mem_insert.1 hrow with hrow | rfl
  · exact ⟨row, hrow, hrowOf, hended⟩
  · cases hended

theorem HasEnded.mint_inv : HasEnded (mintRepeat options t job now) name argsHash →
    HasEnded t name argsHash :=
  mintRepeat_induct (P := fun u => HasEnded u name argsHash → HasEnded t name argsHash) id
    fun _ h => h.insertJob_inv

theorem HasEnded.mono (h : HasEnded after name argsHash)
    (hsub : ∀ job ∈ after.jobs.rows, job ∈ t.jobs.rows) : HasEnded t name argsHash := by
  obtain ⟨row, hrow, hrest⟩ := h
  exact ⟨row, hsub row hrow, hrest⟩

/-- **A change that ends a Job of a repeating identity leaves a live one.** -/
theorem Change.hasEnded (h : Consistent t) (hrepeats : Repeats options name)
    (hchange : Change options horizon t after) (hended : HasEnded after name argsHash) :
    HasEnded t name argsHash ∨ HasLive after name argsHash := by
  cases hchange with
  | admitted => exact .inl hended.insertJob_inv
  | opened =>
    refine .inl (HasEnded.setJob_inv (t := ⟨t.jobs, _⟩) hended (fun _ => ⟨rfl, rfl⟩) ?_)
    exact fun _ _ _ hfalse => by cases hfalse
  | @settled job _ now _ hjob =>
    obtain ⟨row, hrow, hrowOf, hrowEnded⟩ := hended.mint_inv
    rcases mem_setJob_inv hrow with ⟨old, hold, hid, rfl⟩ | ⟨hold, -⟩
    · rw [endRun_jobs] at hold
      have heq := h.jobs.distinct old hold job hjob hid
      subst heq
      exact .inr (hasLive_mint hrepeats hrowOf now)
    · rw [endRun_jobs] at hold
      exact .inl ⟨row, hold, hrowOf, hrowEnded⟩
  | resumed | retried | suspended =>
    refine .inl (HasEnded.setJob_inv (t := t.setRun _ _) hended (fun _ => ⟨rfl, rfl⟩) ?_)
    exact fun _ _ _ hfalse => by cases hfalse
  | recorded | rescheduled =>
    exact .inl (hended.setJob_inv (fun _ => ⟨rfl, rfl⟩) fun _ _ _ hstill => hstill)
  | reopened _ _ _ _ _ _ hstate =>
    refine .inl (hended.setJob_inv (fun _ => ⟨rfl, rfl⟩) fun _ _ _ hfalse => ?_)
    rcases hstate with rfl | rfl <;> cases hfalse
  | restamped | expired => exact .inl hended
  | reaped => exact .inl (hended.mono fun row hrow => (mem_delete.1 hrow).1)

/-- **The continuity of the identity.** -/
structure Continues (t : Tables) (name argsHash : String) : Prop where
  stamps : LiveKept t
  live : HasEnded t name argsHash → HasLive t name argsHash

theorem Changes.continues (h : Consistent t) (hrepeats : Repeats options name)
    (hchanges : Changes options horizon t after) (hcontinues : Continues t name argsHash) :
    Continues after name argsHash ∧ (HasLive t name argsHash → HasLive after name argsHash) := by
  induction hchanges with
  | refl => exact ⟨hcontinues, id⟩
  | tail hfirst hlast ih =>
    obtain ⟨hmiddle, hlive⟩ := ih
    have hconsistent := Changes.consistent h hfirst
    have hkeeps : HasLive _ name argsHash → HasLive _ name argsHash :=
      fun hbefore => hlast.hasLive hconsistent hmiddle.stamps hrepeats hbefore
    refine ⟨⟨hlast.liveKept hconsistent hmiddle.stamps, fun hended => ?_⟩,
      fun hbefore => hkeeps (hlive hbefore)⟩
    rcases hlast.hasEnded hconsistent hrepeats hended with hbefore | hafter
    · exact hkeeps (hmiddle.live hbefore)
    · exact hafter

/-! ## What an occurrence is computed from -/

/-- The time of the Job is what the rule answers for the time its parent was scheduled at. -/
def FromParent (options : Options) (t : Tables) (parentId : Nat) (job : JobRow) : Prop :=
  ∃ parent ∈ t.jobs.rows, parent.id = parentId ∧ parent.Of job.name job.argsHash ∧
    ∃ rule now, (options.definition job.name).bind Job.recurrence = some rule ∧
      rule parent.scheduledAt now = .value job.scheduledAt

/-- The Jobs of the later tables: the earlier ones, with the times they were scheduled at, and new
ones. -/
structure JobsKept (options : Options) (horizon : Nat) (t after : Tables) : Prop where
  next : t.jobs.next ≤ after.jobs.next
  rows : ∀ job ∈ after.jobs.rows,
    (∃ old ∈ t.jobs.rows, SameJob old job ∧ old.parentJobId = job.parentJobId) ∨
    t.jobs.next ≤ job.id ∧ ∀ parentId, job.parentJobId = some parentId →
      parentId < horizon ∧ FromParent options t parentId job

theorem SameJob.trans {a b c : JobRow} (h : SameJob a b) (h' : SameJob b c) : SameJob a c :=
  ⟨h.id.trans h'.id, h.name.trans h'.name, h.argsJson.trans h'.argsJson,
    h.argsHash.trans h'.argsHash, h.key.trans h'.key, h.scheduledAt.trans h'.scheduledAt⟩

theorem JobsKept.of_sub (hnext : t.jobs.next ≤ after.jobs.next)
    (hsub : ∀ job ∈ after.jobs.rows, job ∈ t.jobs.rows) : JobsKept options horizon t after :=
  ⟨hnext, fun job hjob => .inl ⟨job, hsub job hjob, .refl job, rfl⟩⟩

theorem JobsKept.setJob (hjobs : u.jobs = t.jobs)
    (hsame : ∀ row, SameJob row (change row) ∧ row.parentJobId = (change row).parentJobId) :
    JobsKept options horizon t (u.setJob id change) := by
  refine ⟨by rw [← hjobs]; rfl, fun row hrow => .inl ?_⟩
  rw [← hjobs]
  rcases mem_setJob_inv hrow with ⟨old, hold, -, rfl⟩ | ⟨hold, -⟩
  · exact ⟨old, hold, hsame old⟩
  · exact ⟨row, hold, .refl row, rfl⟩

theorem JobsKept.insertJob {job : Admission}
    (hparent : ∀ parentId, job.parentJobId = some parentId →
      parentId < horizon ∧ FromParent options t parentId (job.row t.jobs.next)) :
    JobsKept options horizon t (insertJob t job) := by
  refine ⟨Nat.le_succ _, fun row hrow => ?_⟩
  rcases mem_insert.1 hrow with hrow | rfl
  · exact .inl ⟨row, hrow, .refl row, rfl⟩
  · exact .inr ⟨Nat.le_refl _, hparent⟩

/-- Changed rows first, new Jobs afterwards. -/
theorem JobsKept.after_rows (hnext : u.jobs.next = t.jobs.next)
    (hrows : ∀ job ∈ u.jobs.rows, ∃ old ∈ t.jobs.rows, SameJob old job ∧
      old.parentJobId = job.parentJobId) (h : JobsKept options horizon u after) :
    JobsKept options horizon t after := by
  refine ⟨by rw [← hnext]; exact h.next, fun job hjob => ?_⟩
  rcases h.rows job hjob with ⟨middle, hmiddle, hsame, hparent⟩ | ⟨hnew, hparents⟩
  · obtain ⟨old, hold, hsame', hparent'⟩ := hrows middle hmiddle
    exact .inl ⟨old, hold, hsame'.trans hsame, hparent'.trans hparent⟩
  refine .inr ⟨by rw [← hnext]; exact hnew, fun parentId hid => ?_⟩
  obtain ⟨hbelow, parent, hmem, rfl, hof, rule, now, hrule, hvalue⟩ := hparents parentId hid
  obtain ⟨old, hold, hsame, -⟩ := hrows parent hmem
  refine ⟨hbelow, old, hold, hsame.id, ?_, rule, now, hrule, by rw [hsame.scheduledAt]; exact hvalue⟩
  exact ⟨hsame.name.trans hof.1, hsame.argsHash.trans hof.2⟩

/-- The parents of new Jobs are Jobs of the tables the transaction began with. -/
theorem JobsKept.trans (h : JobsKept options t.jobs.next t u)
    (h' : JobsKept options t.jobs.next u after) : JobsKept options t.jobs.next t after := by
  refine ⟨h.next.trans h'.next, fun job hjob => ?_⟩
  rcases h'.rows job hjob with ⟨middle, hmiddle, hsame, hparent⟩ | ⟨hnew, hparents⟩
  · rcases h.rows middle hmiddle with ⟨old, hold, hsame', hparent'⟩ | ⟨hnew, hparents⟩
    · exact .inl ⟨old, hold, hsame'.trans hsame, hparent'.trans hparent⟩
    refine .inr ⟨by rw [← hsame.id]; exact hnew, fun parentId hid => ?_⟩
    obtain ⟨hbelow, hfrom⟩ := hparents parentId (hparent.trans hid)
    refine ⟨hbelow, ?_⟩
    rw [FromParent, hsame.name, hsame.argsHash, hsame.scheduledAt] at hfrom
    exact hfrom
  refine .inr ⟨h.next.trans hnew, fun parentId hid => ?_⟩
  obtain ⟨hbelow, parent, hmem, rfl, hof, rule, now, hrule, hvalue⟩ := hparents parentId hid
  refine ⟨hbelow, ?_⟩
  rcases h.rows parent hmem with ⟨old, hold, hsame, -⟩ | ⟨hlate, -⟩
  · refine ⟨old, hold, hsame.id, ?_, rule, now, hrule, by rw [hsame.scheduledAt]; exact hvalue⟩
    exact ⟨hsame.name.trans hof.1, hsame.argsHash.trans hof.2⟩
  · omega

theorem mintRepeat_jobsKept {current : JobRow} (hcurrent : current ∈ t.jobs.rows)
    (hsame : SameJob job current) (hbelow : job.id < horizon) :
    JobsKept options horizon t (mintRepeat options t job now) := by
  unfold mintRepeat
  split
  · exact .of_sub (Nat.le_refl _) fun _ hjob => hjob
  rename_i rule hrule
  split
  · rename_i dueAt hdueAt
    split
    · exact .of_sub (Nat.le_refl _) fun _ hjob => hjob
    apply JobsKept.insertJob
    intro parentId hid
    cases hid
    refine ⟨hbelow, current, hcurrent, hsame.id.symm, ⟨hsame.name.symm, hsame.argsHash.symm⟩,
      rule, now, hrule, ?_⟩
    rw [← hsame.scheduledAt]
    exact hdueAt
  · exact .of_sub (Nat.le_refl _) fun _ hjob => hjob

theorem Change.jobsKept (hchange : Change options horizon t after) :
    JobsKept options horizon t after := by
  cases hchange with
  | admitted _ hparent =>
    apply JobsKept.insertJob
    intro parentId hid
    rw [hparent] at hid
    cases hid
  | opened | resumed | retried | suspended | recorded | reopened | rescheduled =>
    exact JobsKept.setJob rfl fun _ => ⟨⟨rfl, rfl, rfl, rfl, rfl, rfl⟩, rfl⟩
  | @settled job outcome now stamp hjob _ hbelow =>
    have hmem : settleJob outcome now stamp job ∈
        (settledTables t job outcome now stamp).jobs.rows := by
      apply mem_setJob_self
      rw [endRun_jobs]
      exact hjob
    have hsame : SameJob job (settleJob outcome now stamp job) := ⟨rfl, rfl, rfl, rfl, rfl, rfl⟩
    have hnext : (settledTables t job outcome now stamp).jobs.next = t.jobs.next := by
      simp only [settledTables, Tables.setJob, patch, endRun_jobs]
    refine JobsKept.after_rows hnext ?_ (mintRepeat_jobsKept hmem hsame hbelow)
    intro row hrow
    rcases mem_setJob_inv hrow with ⟨old, hold, -, rfl⟩ | ⟨hold, -⟩
    · rw [endRun_jobs] at hold
      exact ⟨old, hold, ⟨rfl, rfl, rfl, rfl, rfl, rfl⟩, rfl⟩
    · rw [endRun_jobs] at hold
      exact ⟨row, hold, .refl row, rfl⟩
  | restamped | expired => exact .of_sub (Nat.le_refl _) fun _ hjob => hjob
  | reaped =>
    exact .of_sub (Nat.le_refl _) fun row hrow => (mem_delete.1 hrow).1

theorem Changes.jobsKept (hchanges : Changes options t.jobs.next t after) :
    JobsKept options t.jobs.next t after := by
  induction hchanges with
  | refl => exact .of_sub (Nat.le_refl _) fun _ hjob => hjob
  | tail _ hlast ih => exact ih.trans hlast.jobsKept

theorem Moves.jobsKept {e : Event} (hmoves : Moves options e t after) :
    JobsKept options t.jobs.next t after := by
  rcases hmoves with hchanges | ⟨id, -, rfl⟩
  · exact Changes.jobsKept hchanges
  · exact .of_sub (Nat.le_refl _) fun row hrow => (mem_delete.1 hrow).1

/-! ## Whole runs -/

/-- The event does not delete a live Job of the identity. -/
def Spares (name argsHash : String) (s : State) (e : Event) : Prop :=
  ∀ id, e = .delete id → ∀ job ∈ s.tables.jobs.rows, job.id = id → job.Of name argsHash →
    job.live = false

/-- What is kept along a run that spares the identity. -/
structure Recurring (s : State) (name argsHash : String) : Prop where
  sound : Sound s
  continues : Continues s.tables name argsHash

theorem Recurring.step {s s' : State} {e : Event} (h : Recurring s name argsHash)
    (hrepeats : Repeats options name) (hspares : Spares name argsHash s e)
    (hstep : step options s e = some s') : Recurring s' name argsHash ∧
      (HasLive s.tables name argsHash → HasLive s'.tables name argsHash) := by
  have hsound := h.sound.step hstep
  rcases (step_spec h.sound hstep).1 with hchanges | ⟨id, hevent, htables⟩
  · obtain ⟨hcontinues, hlive⟩ := Changes.continues h.sound.tables hrepeats hchanges h.continues
    exact ⟨⟨hsound, hcontinues⟩, hlive⟩
  have hsub : ∀ job ∈ s'.tables.jobs.rows, job ∈ s.tables.jobs.rows := by
    intro job hjob
    rw [htables] at hjob
    exact (mem_delete.1 hjob).1
  have hlive : HasLive s.tables name argsHash → HasLive s'.tables name argsHash := by
    rintro ⟨job, hjob, hof, hstate⟩
    refine ⟨job, ?_, hof, hstate⟩
    rw [htables]
    refine mem_delete.2 ⟨hjob, fun hid => ?_⟩
    rw [hspares id hevent job hjob hid hof] at hstate
    cases hstate
  exact ⟨⟨hsound, h.continues.stamps.mono hsub,
    fun hended => hlive (h.continues.live (hended.mono hsub))⟩, hlive⟩

theorem recurring_initial : Recurring {} name argsHash := by
  refine ⟨sound_initial, ?_, ?_⟩
  · intro job hjob
    cases hjob
  · rintro ⟨job, hjob, -⟩
    cases hjob

theorem Recurring.run {s s' : State} {events : List Event} (h : Recurring s name argsHash)
    (hrepeats : Repeats options name)
    (hspares : Run.Guarded (Jobs.step options) (Spares name argsHash) s events)
    (hrun : Run.run (Jobs.step options) s events = some s') (hlive : HasLive s.tables name argsHash) :
    HasLive s'.tables name argsHash := by
  induction events generalizing s with
  | nil =>
    cases hrun
    exact hlive
  | cons _ _ ih =>
    obtain ⟨middle, hstep, hrest⟩ := Option.bind_eq_some_iff.1 hrun
    obtain ⟨hmiddle, hkept⟩ := h.step hrepeats hspares.1 hstep
    exact ih hmiddle (hspares.2 middle hstep) hrest (hkept hlive)

/-- **A recurrence does not break.**  In every run that deletes no live Job of the identity, from
any state with an ended Job of it on there is a live one; and a Job that names a parent was
scheduled by the rule from the time its parent was scheduled at, which no event changes. -/
theorem recurrence_continues (options : Options) {name : String} (argsHash : String)
    (hrepeats : Repeats options name) {s : State}
    (h : Run.Reachable (step options) (Spares name argsHash) {} s) :
    (HasEnded s.tables name argsHash → ∀ events s',
      Run.Guarded (step options) (Spares name argsHash) s events →
      Run.run (step options) s events = some s' → HasLive s'.tables name argsHash) ∧
    (∀ e s', step options s e = some s' → ∀ job ∈ s'.tables.jobs.rows,
      (∃ old ∈ s.tables.jobs.rows, old.id = job.id ∧ old.scheduledAt = job.scheduledAt) ∨
      s.tables.jobs.next ≤ job.id ∧ ∀ parentId, job.parentJobId = some parentId →
        FromParent options s.tables parentId job) := by
  have hrecurring : Recurring s name argsHash := by
    induction h with
    | refl => exact recurring_initial
    | step _ hspares hstep ih => exact (ih.step hrepeats hspares hstep).1
  refine ⟨fun hended events s' hspares hrun => ?_, fun e s' hstep job hjob => ?_⟩
  · exact hrecurring.run hrepeats hspares hrun (hrecurring.continues.live hended)
  rcases (step_spec hrecurring.sound hstep).1.jobsKept.rows job hjob with
    ⟨old, hold, hsame, -⟩ | ⟨hnew, hparents⟩
  · exact .inl ⟨old, hold, hsame.id, hsame.scheduledAt⟩
  · exact .inr ⟨hnew, fun parentId hid => (hparents parentId hid).2⟩

/-- The mail Job is run, fails without a retry, and its successor is live. -/
theorem recurrence_continues_mail : ∃ s, Run.run (step mailer) {} [.activate 0,
    .claim none 10 noInline, .settle 0 (.error { code := "internal", text := "" }) ⟨20, 20⟩] =
      some s ∧ HasEnded s.tables "mail" "mail" ∧ HasLive s.tables "mail" "mail" := by
  have hrepeats : Repeats mailer "mail" := ⟨_, rfl, fun scheduledAt _ => ⟨scheduledAt + 10, rfl⟩⟩
  have hrun : (Run.run (step mailer) {} [.activate 0, .claim none 10 noInline,
      .settle 0 (.error { code := "internal", text := "" }) ⟨20, 20⟩]).map (fun s =>
        s.tables.jobs.rows.any fun job => job.name = "mail" ∧ job.argsHash = "mail" ∧
          job.live = false) = some true := by decide +kernel
  obtain ⟨s, hs, hended⟩ := Option.map_eq_some_iff.1 hrun
  have hspares : ∀ events : List Event, (∀ e ∈ events, ∀ id, e ≠ .delete id) →
      ∀ s, Run.Guarded (step mailer) (Spares "mail" "mail") s events := by
    intro events hevents
    apply Run.guarded_of_forall
    intro e he s id hid
    exact absurd hid (hevents e he id)
  have hreach : Run.Reachable (step mailer) (Spares "mail" "mail") {} s :=
    Run.Reachable.refl.run (hspares _ (by simp) {}) hs
  obtain ⟨job, hjob, hcond⟩ := List.any_eq_true.1 hended
  simp only [decide_eq_true_eq] at hcond
  have hhas : HasEnded s.tables "mail" "mail" := ⟨job, hjob, ⟨hcond.1, hcond.2.1⟩, hcond.2.2⟩
  exact ⟨s, hs, hhas, (recurrence_continues mailer "mail" hrepeats hreach).1 hhas [] s trivial rfl⟩

end AckerDB.Jobs
