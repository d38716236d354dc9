import AckerDB.Runtime.Gate

/-!
# The turn that holds a reservation

What each part of a writer turn does after the gate, in terms of what it returns,
what it throws and the state it leaves either way.

* `Held` — until `COMMIT` nothing durable has changed;
* `Recorded` — how a mutation and its record get into the tables;
* `commitWork_spec`, `handOff_spec` — the two halves of a commit;
* `closeHandled_spec`, `recordOutcome_spec` — the handled-error path;
* `cleanup_held`, `cleanup_released` — the handler, with and without a reservation.
-/

namespace AckerDB

open Protocol Turn

namespace Coordinator

open OrderedPublication Except

variable {limits : Limits} {request : CommitRequest} {s t : Writer} {reserved : Option Nat}
  {slot : Nat}

variable {tables : Tables} {ledger : MutationReplayLedger} {identity : IdempotencyIdentity}
  {e : Thrown}

/-! ## Until `COMMIT` -/

/-- Nothing durable has changed since `s`, and the open reservation is the given one. -/
structure Held (s : Writer) (reserved : Option Nat) (t : Writer) : Prop where
  durable : t.db.durable = s.db.durable
  ledger : t.ledger = s.ledger
  wellFormed : t.publication.WellFormed
  reservation : t.publication.openReservation = reserved
  highWater : t.publication.committedHighWater = s.publication.committedHighWater
  committed : t.committed = false
  working : t.transactionOpen = false → t.db.working = none

/-- A transaction is open on a working copy. -/
structure Working (s : Writer) (reserved : Option Nat) (tables : Tables) (t : Writer) : Prop
    extends Held s reserved t where
  quiet : Quiet t
  transactionOpen : t.transactionOpen = true
  copy : t.db.working = some tables

theorem Held.noted (h : Held s reserved t) (e : Thrown) : Held s reserved (noted e t) :=
  { h with }

theorem Held.struck (h : Held s reserved t) (fault : Fault) :
    Held s reserved (struck fault t) := by
  refine { h with durable := ?_, working := ?_ }
  · show (if fault.ends = true then t.db.abandon else t.db).durable = _
    split <;> exact h.durable
  intro hclosed
  show (if fault.ends = true then t.db.abandon else t.db).working = none
  split
  · rfl
  · exact h.working hclosed

theorem Quiet.struck (h : Quiet t) (fault : Fault) : Original fault.error (struck fault t) :=
  Quiet.noted (s := { t with db := if fault.ends then t.db.abandon else t.db }) h fault.error

/-- A statement inside of the transaction. -/
theorem Working.update (h : Working s reserved tables t) (f : Tables → Tables) :
    Working s reserved (f tables) { t with db := t.db.update f } := by
  have hdb : t.db.update f = { t.db with working := some (f tables) } := by
    simp [Database.update, h.copy]
  rw [hdb]
  exact ⟨{ h with
      working := fun hclosed => absurd (h.transactionOpen.symm.trans hclosed) (by simp) }, h.quiet,
    h.transactionOpen, rfl⟩

/-- `BEGIN` opens a transaction on the durable tables. -/
theorem Held.begin (h : Held s reserved t) (hquiet : Quiet t) (hclosed : t.transactionOpen = false) :
    ∃ db, t.db.begin = .ok db ∧
      Working s reserved s.db.durable { t with db, transactionOpen := true } := by
  have hidle := h.working hclosed
  refine ⟨{ t.db with working := some t.db.durable }, by simp [Database.begin, hidle], ?_⟩
  exact ⟨{ h with
      working := fun hclosed => absurd hclosed (by simp) }, hquiet, rfl, congrArg some h.durable⟩

/-- The points of a turn before its outcome is looked at. -/
def workSites : List Site := [.abortBegin, .begin, .work, .abortWork, .rollbackWhen]

/-- The transaction of `work` starts with its writes on the working copy, or a fault strikes. -/
theorem runWork_spec (h : Held s reserved t) (hquiet : Quiet t)
    (hclosed : t.transactionOpen = false) :
    Ensures (runWork request) t
      (fun _ u => Working s reserved (applyWork request s.db.durable) u ∧
        ∀ fault ∈ request.fault, fault.site ∉ workSites)
      (fun e u => (Held s reserved u ∧ Original e u) ∧
        ∃ fault ∈ request.fault, fault.site ∈ workSites) := by
  obtain ⟨db, hbegin, hworking⟩ := h.begin hquiet hclosed
  have hwritten := hworking.update (applyWork request)
  have hbefore : ∀ fault ∈ request.fault, ∀ site ∈ workSites, fault.site = site →
      (Held s reserved (struck fault t) ∧ Original fault.error (struck fault t)) ∧
        ∃ fault ∈ request.fault, fault.site ∈ workSites := by
    rintro fault hfault _ hmem rfl
    exact ⟨⟨h.struck fault, hquiet.struck fault⟩, fault, hfault, hmem⟩
  have hafter : ∀ fault ∈ request.fault, ∀ site ∈ workSites, fault.site = site →
      (Held s reserved (struck fault { t with
        db := db.update (applyWork request), transactionOpen := true }) ∧
        Original fault.error (struck fault { t with
          db := db.update (applyWork request), transactionOpen := true })) ∧
        ∃ fault ∈ request.fault, fault.site ∈ workSites := by
    rintro fault hfault _ hmem rfl
    exact ⟨⟨hwritten.toHeld.struck fault, hwritten.quiet.struck fault⟩, fault, hfault, hmem⟩
  simp only [runWork, ensures_bind, ensures_at, ensures_exec, ensures_modify, hbegin,
    ok.injEq, forall_eq', reduceCtorEq, false_implies, implies_true, and_true]
  refine ⟨fun habort => ⟨fun hopen => ⟨fun hwork => ⟨fun habortWork => ⟨fun hwhen =>
    ⟨hwritten, ?_⟩, ?_⟩, ?_⟩, ?_⟩, ?_⟩, ?_⟩
  · intro fault hfault hmem
    simp only [workSites, List.mem_cons, List.not_mem_nil, or_false] at hmem
    tauto
  · exact fun fault hfault => hafter fault hfault _ (by decide)
  · exact fun fault hfault => hafter fault hfault _ (by decide)
  · exact fun fault hfault => hafter fault hfault _ (by decide)
  · exact fun fault hfault => hbefore fault hfault _ (by decide)
  · exact fun fault hfault => hbefore fault hfault _ (by decide)

/-! ## Recording -/

/-- The tables got the record of the request, if it asks for one. -/
structure Recorded (request : CommitRequest) (ledger : MutationReplayLedger) (before : Tables)
    (row : Option StoredMutation) (after : Tables) : Prop where
  rows : after.mutations = before.mutations ++ row.toList
  pair : row.map (fun row => (row.sessionId, row.requestId)) =
    request.idempotency.map fun id => (id.sessionId, id.requestId)
  completed : ∀ staged ∈ row, request.stageAt ≤ staged.completedAt
  inSequence : before.InSequence → after.InSequence
  ledger : ledger.Matches before → (row.elim ledger ledger.committed).Matches after

variable {row : Option StoredMutation}

/-- The writes of `work` leave the ledger alone. -/
theorem Recorded.of_applyWork {before after : Tables}
    (h : Recorded request ledger (applyWork request before) row after) :
    Recorded request ledger before row after :=
  ⟨h.rows, h.pair, h.completed, fun hsequence => h.inSequence ⟨hsequence.sorted, hsequence.bounded⟩,
    fun hmatches => h.ledger (hmatches.congr rfl rfl rfl rfl)⟩

variable {result : Option Json} {resultBytes : Nat}

/-- A staged row is recorded. -/
theorem recorded_staged (tables : Tables) (allocation : Allocation)
    (hid : request.idempotency = some identity)
    (hstageable : ledger.assertStageable (newRecord limits request identity result resultBytes) =
      .ok ()) :
    let allocated := tables.allocateMutation resultBytes allocation
    let row := ledger.stagedRow allocated (newRecord limits request identity result resultBytes)
      request.stageAt
    Recorded request ledger tables (some row) (allocated.append row) := by
  intro allocated row
  have hfree : ledger.index identity.sessionId identity.requestId = none := by
    unfold MutationReplayLedger.assertStageable at hstageable
    split_ifs at hstageable
    · rename_i hnone
      exact Option.not_isSome_iff_eq_none.1 hnone
  refine ⟨rfl, by rw [hid]; rfl, ?_, ?_, ?_⟩
  · intro staged hstaged
    rw [← Option.mem_some_iff.1 hstaged]
    show request.stageAt ≤ ledger.completedAt request.stageAt
    unfold MutationReplayLedger.completedAt
    split
    · exact le_max_left _ _
    · exact le_rfl
  · intro hsequence
    exact hsequence.append rfl
  · intro hmatches
    exact hmatches.append (show row.sequence = tables.mutationSequence + 1 from rfl) hfree

/-- `stage` appends the row to the working copy, or throws. -/
theorem stage_spec {allocating appending : Site} {allocation : Allocation}
    {record : NewStoredMutation} (h : Working s reserved tables t) :
    Ensures (stage request allocating appending allocation record) t
      (fun row u => s.ledger.assertStageable record = .ok () ∧
        row = s.ledger.stagedRow (tables.allocateMutation record.resultBytes allocation) record
          request.stageAt ∧
        Working s reserved ((tables.allocateMutation record.resultBytes allocation).append row) u ∧
        ∀ fault ∈ request.fault, fault.site ≠ allocating ∧ fault.site ≠ appending)
      (fun e u => (Held s reserved u ∧ Original e u) ∧
        (s.ledger.assertStageable record = .error e ∨
          ∃ fault ∈ request.fault, fault.error = e ∧
            (fault.site = allocating ∨ fault.site = appending))) := by
  have hallocated := h.update fun tables => tables.allocateMutation record.resultBytes allocation
  rw [← h.ledger]
  simp only [stage, ensures_bind, ensures_get, ensures_lift, ensures_at, ensures_modify,
    ensures_pure]
  refine ⟨fun _ hstageable => ⟨fun hallocating => ⟨fun happending => ⟨hstageable, ?_⟩, ?_⟩, ?_⟩, ?_⟩
  · have hcopy : (t.db.update fun tables =>
        tables.allocateMutation record.resultBytes allocation).tables =
        tables.allocateMutation record.resultBytes allocation := by
      rw [Database.tables, hallocated.copy, Option.getD_some]
    rw [hcopy]
    exact ⟨rfl, hallocated.update fun tables => tables.append _, fun fault hfault =>
      ⟨hallocating fault hfault, happending fault hfault⟩⟩
  · intro fault hfault hsite
    exact ⟨⟨hallocated.toHeld.struck fault, hallocated.quiet.struck fault⟩,
      .inr ⟨fault, hfault, rfl, .inr hsite⟩⟩
  · intro fault hfault hsite
    exact ⟨⟨h.toHeld.struck fault, h.quiet.struck fault⟩, .inr ⟨fault, hfault, rfl, .inl hsite⟩⟩
  · intro e herror
    exact ⟨⟨h.toHeld.noted e, h.quiet.noted e⟩, .inl herror⟩

/-! ## The commit -/

/-- `COMMIT` succeeded; the handoff is still to come. -/
structure Committed (request : CommitRequest) (s : Writer) (slot version : Nat)
    (row : Option StoredMutation) (t : Writer) : Prop where
  recorded : Recorded request s.ledger s.db.durable row t.db.durable
  version : t.db.durable.commitVersion = version
  effects : t.db.durable.effects = (applyWork request s.db.durable).effects
  working : t.db.working = none
  ledger : t.ledger = s.ledger
  wellFormed : t.publication.WellFormed
  reservation : t.publication.openReservation = some slot
  highWater : t.publication.committedHighWater = s.publication.committedHighWater
  committed : t.committed = true
  quiet : Quiet t

/-- The version and the record get into the working copy. -/
theorem allocateVersion_spec (h : Working s reserved (applyWork request s.db.durable) t) :
    Ensures (allocateVersion limits request) t
      (fun allocated u => ∃ tables, Working s reserved tables u ∧
        Recorded request s.ledger s.db.durable allocated.2 tables ∧
        tables.commitVersion = allocated.1 ∧
        tables.effects = (applyWork request s.db.durable).effects)
      (fun e u => Held s reserved u ∧ Original e u) := by
  unfold allocateVersion
  cases hid : request.idempotency with
  | some =>
    simp only [ensures_bind, ensures_lift, checkCapacity, ensures_get]
    refine ⟨?_, fun e _ => ⟨h.toHeld.noted e, h.quiet.noted e⟩⟩
    rintro ⟨result, resultBytes⟩ -
    split
    · exact ⟨h.toHeld.noted _, h.quiet.noted _⟩
    split
    · exact ⟨h.toHeld.noted _, h.quiet.noted _⟩
    refine (stage_spec h).mono ?_ (fun _ _ h => h.1)
    rintro row u ⟨hstageable, rfl, hworking, -⟩
    exact ⟨_, hworking, (recorded_staged _ _ hid hstageable).of_applyWork, rfl, rfl⟩
  | none =>
    simp only [ensures_bind, ensures_at, ensures_modify, ensures_get, ensures_pure]
    have hallocated := h.update Tables.allocateCommitVersion
    refine ⟨fun _ => ⟨_, hallocated, ⟨?_, ?_, by simp, ?_, ?_⟩, ?_, rfl⟩,
      fun fault _ _ => ⟨h.toHeld.struck fault, h.quiet.struck fault⟩⟩
    · simp [Tables.allocateCommitVersion, applyWork]
    · rw [hid]
      rfl
    · exact fun hsequence => ⟨hsequence.sorted, hsequence.bounded⟩
    · exact fun hmatches => hmatches.congr rfl rfl rfl rfl
    · rw [Database.tables, hallocated.copy, Option.getD_some]

/-- **The turn up to `COMMIT`.** -/
theorem commitWork_spec {version : Nat}
    (h : Working s (some slot) (applyWork request s.db.durable) t) :
    Ensures (commitWork limits request slot version) t
      (fun allocated u => Committed request s slot version allocated.2 u ∧ allocated.1 = version)
      (fun e u => Held s (some slot) u ∧ Original e u) := by
  simp only [commitWork, ensures_bind, ensures_at, resize, ensures_get, ensures_lift,
    ensures_modify]
  refine ⟨fun _ => ⟨fun _ => ⟨?_, fun e _ => ⟨h.toHeld.noted e, h.quiet.noted e⟩⟩,
    fun fault _ _ => ⟨h.toHeld.struck fault, h.quiet.struck fault⟩⟩,
    fun fault _ _ => ⟨h.toHeld.struck fault, h.quiet.struck fault⟩⟩
  intro publication hresize
  obtain ⟨hwellFormed, hopen, hwater⟩ := h.wellFormed.resizeSlot hresize
  have hresized : Working s (some slot) (applyWork request s.db.durable) { t with publication } :=
    ⟨⟨h.durable, h.ledger, hwellFormed, hopen.trans h.reservation, hwater.trans h.highWater,
      h.committed, h.working⟩, h.quiet, h.transactionOpen, h.copy⟩
  refine (allocateVersion_spec hresized).mono ?_ (fun _ _ h => h)
  rintro ⟨allocated, row⟩ u ⟨tables, hworking, hrecorded, hversion, heffects⟩
  split
  · exact ⟨hworking.toHeld.noted _, hworking.quiet.noted _⟩
  rename_i heq
  simp only [ensures_bind, ensures_at, ensures_exec, ensures_modify, ensures_pure]
  have hstruck : ∀ fault ∈ request.fault, ∀ site, fault.site = site →
      Held s (some slot) (struck fault u) ∧ Original fault.error (struck fault u) :=
    fun fault _ _ _ => ⟨hworking.toHeld.struck fault, hworking.quiet.struck fault⟩
  refine ⟨fun _ => ⟨fun _ => ⟨fun _ => ⟨fun _ => ⟨?_, ?_⟩, fun f hf => hstruck f hf _⟩,
    fun f hf => hstruck f hf _⟩, fun f hf => hstruck f hf _⟩, fun f hf => hstruck f hf _⟩
  · intro db hcommit
    simp only [Database.commit, hworking.copy, ok.injEq] at hcommit
    subst hcommit
    have hversion' := not_not.1 heq
    exact ⟨⟨hrecorded, hversion.trans hversion', heffects, rfl, hworking.ledger,
      hworking.wellFormed, hworking.reservation, hworking.highWater, rfl, hworking.quiet⟩, hversion'⟩
  · intro e herror
    simp [Database.commit, hworking.copy] at herror

/-- The writer between turns: nothing is open, storage and publication are at one version, and the
index is the ledger. -/
structure Resting (s : Writer) : Prop where
  working : s.db.working = none
  wellFormed : s.publication.WellFormed
  reservation : s.publication.openReservation = none
  version : s.db.durable.commitVersion = s.publication.committedHighWater
  ledger : s.ledger.Matches s.db.durable

theorem resting_freshWriter : Resting freshWriter :=
  ⟨rfl, wellFormed_initial _ _, rfl, rfl, MutationReplayLedger.matches_empty⟩

/-- The gate leaves a resting writer resting. -/
theorem Resting.pruning {cutoff : Int} (h : Resting s) (hpruning : Pruning cutoff (begun s) t) :
    Resting t := by
  refine ⟨hpruning.working, ?_, ?_, ?_, hpruning.ledger h.ledger⟩
  · rw [hpruning.publication]
    exact h.wellFormed
  · rw [hpruning.publication]
    exact h.reservation
  · rw [hpruning.publication, hpruning.tables.commitVersion]
    exact h.version

/-- The handoff completes the commit, unless the callback after `COMMIT` throws. -/
theorem handOff_spec {version : Nat} (hs : Resting s)
    (h : Committed request s slot (s.publication.committedHighWater + 1) row t) :
    Ensures (handOff limits request slot version row) t
      (fun result u => Resting u ∧ u.db = t.db ∧ result.replayed = false)
      (fun _ u => (∃ fault ∈ request.fault, fault.site = .afterCommit) ∧ u.committed = true ∧
        u.db.working = none ∧ u.db.durable = t.db.durable ∧
        u.publication.openReservation = some slot) := by
  simp only [handOff, ensures_bind, ensures_at, ensures_modify, ensures_get, ensures_lift,
    ensures_pure]
  refine ⟨fun _ => ⟨?_, ?_⟩, ?_⟩
  · intro publication hcommit
    obtain ⟨hwellFormed, -, hclosed, hwater⟩ := h.wellFormed.commitSlot hcommit
    refine ⟨⟨h.working, hwellFormed, hclosed, ?_, ?_⟩, trivial, trivial⟩
    · rw [h.version, hwater, h.highWater]
    · rw [h.ledger]
      exact h.recorded.ledger hs.ledger
  · intro e herror
    obtain ⟨publication, hcommit⟩ := h.wellFormed.exists_commitSlot h.reservation request.writeKeys
    rw [hcommit] at herror
    cases herror
  · intro fault hfault hsite
    rw [struck_idle fault h.working]
    exact ⟨⟨fault, hfault, hsite⟩, h.committed, h.working, rfl, h.reservation⟩

/-! ## The handled-error path -/

/-- The transaction is rolled back and the reservation given back: that cannot fail. -/
theorem closeHandled_spec (h : Working s (some slot) tables t) :
    Ensures (closeHandled slot) t
      (fun _ u => Held s none u ∧ Quiet u ∧ u.transactionOpen = false) (fun _ _ => False) := by
  simp only [closeHandled, cancel, ensures_bind, ensures_rollback, ensures_modify, ensures_get,
    ensures_lift]
  refine ⟨fun _ => ⟨?_, ?_⟩, fun hnone => ?_⟩
  · intro publication hcancel
    obtain ⟨hwellFormed, -, hclosed, hwater⟩ := h.wellFormed.cancelSlot hcancel
    exact ⟨⟨h.durable, h.ledger, hwellFormed, hclosed, hwater.trans h.highWater, h.committed,
      fun _ => rfl⟩, h.quiet, trivial⟩
  · intro e herror
    obtain ⟨publication, hcancel⟩ := h.wellFormed.exists_cancelSlot h.reservation
    rw [hcancel] at herror
    cases herror
  · rw [h.copy] at hnone
    cases hnone

/-- The statements that store the record of a handled outcome. -/
def recordSites : List Site := [.beginRecord, .allocateRecord, .appendRecord, .commitRecord]

/-- A result can be encoded, fits the ledger and can be stored. -/
def Storable (limits : Limits) (request : CommitRequest) (ledger : MutationReplayLedger) : Prop :=
  (∃ result, recordedResult limits request = .ok result ∧ result.2 ≤ limits.maxResultBytes ∧
    (result.2 : Int) ≤ limits.maxBytes - ledger.byteCount) ∧
    ∀ fault ∈ request.fault, fault.site ∉ recordSites

/-- The outcome of a handled turn can be recorded: its version can be read and, for an idempotent
request, its result can be stored. -/
def Recordable (limits : Limits) (request : CommitRequest) (ledger : MutationReplayLedger) : Prop :=
  (∀ fault ∈ request.fault, fault.site ≠ .readVersion) ∧
    (request.idempotency.isSome → Storable limits request ledger)

/-- What recording a handled outcome leaves: at most a record. -/
structure OutcomeRecorded (request : CommitRequest) (s t : Writer) : Prop where
  resting : Resting t
  recorded : ∃ row, Recorded request s.ledger s.db.durable row t.db.durable
  effects : t.db.durable.effects = s.db.durable.effects

/-- The transaction that stores a record commits it, or a fault strikes. -/
theorem storeRecord_spec (hid : request.idempotency = some identity) (hs : Resting s)
    (h : Held s none t) (hquiet : Quiet t) (hclosed : t.transactionOpen = false)
    (hstageable : s.ledger.assertStageable (newRecord limits request identity result resultBytes) =
      .ok ()) :
    Ensures (storeRecord request (newRecord limits request identity result resultBytes)) t
      (fun _ u => (∀ fault ∈ request.fault, fault.site ∉ recordSites) ∧ OutcomeRecorded request s u)
      (fun e u => (Held s none u ∧ Original e u) ∧
        ∃ fault ∈ request.fault, fault.error = e ∧ fault.site ∈ recordSites) := by
  obtain ⟨db, hbegin, hworking⟩ := h.begin hquiet hclosed
  simp only [storeRecord, ensures_bind, ensures_at, ensures_exec, ensures_modify, ensures_pure,
    hbegin, ok.injEq, forall_eq', reduceCtorEq, false_implies, implies_true, and_true]
  refine ⟨fun hsite => ?_, fun fault hfault hsite =>
    ⟨⟨h.struck fault, hquiet.struck fault⟩, fault, hfault, rfl, by simp [hsite, recordSites]⟩⟩
  refine (stage_spec hworking).mono ?_ ?_
  · rintro row u ⟨-, rfl, hstaged, hsites⟩
    refine ⟨fun hcommitSite => ⟨?_, ?_⟩, fun fault hfault hsite => ⟨⟨hstaged.toHeld.struck fault,
      hstaged.quiet.struck fault⟩, fault, hfault, rfl, by simp [hsite, recordSites]⟩⟩
    · intro committed hcommit
      simp only [Database.commit, hstaged.copy, ok.injEq] at hcommit
      subst hcommit
      have hrecorded := recorded_staged s.db.durable .replay hid hstageable
      refine ⟨?_, ⟨rfl, hstaged.wellFormed, hstaged.reservation, ?_, ?_⟩, ⟨_, hrecorded⟩, rfl⟩
      · intro fault hfault hmem
        simp only [recordSites, List.mem_cons, List.not_mem_nil, or_false] at hmem
        have hallocateSite := hsites fault hfault
        tauto
      · exact hs.version.trans hstaged.highWater.symm
      · rw [hstaged.ledger]
        exact hrecorded.ledger hs.ledger
    · intro e herror
      simp [Database.commit, hstaged.copy] at herror
  rintro e u ⟨hheld, herror | ⟨fault, hfault, rfl, hsite⟩⟩
  · rw [hstageable] at herror
    cases herror
  · refine ⟨hheld, fault, hfault, rfl, ?_⟩
    rcases hsite with hsite | hsite <;> simp [hsite, recordSites]

/-- What a request records about a new pair can be staged. -/
theorem assertStageable_newRecord {result : Option Json × Nat}
    (hresult : recordedResult limits request = .ok result)
    (hfree : ledger.index identity.sessionId identity.requestId = none) :
    ledger.assertStageable (newRecord limits request identity result.1 result.2) = .ok () := by
  have hfits : MutationReplayLedger.fitsDisposition
      (newRecord limits request identity result.1 result.2) = true := by
    unfold recordedResult at hresult
    cases honeTime : request.oneTime with
    | true =>
      rw [if_pos honeTime, ok.injEq] at hresult
      simp [MutationReplayLedger.fitsDisposition, newRecord, honeTime, ← hresult]
    | false =>
      rw [if_neg (by simp [honeTime])] at hresult
      split at hresult
      · rw [ok.injEq] at hresult
        simp [MutationReplayLedger.fitsDisposition, newRecord, honeTime, ← hresult]
      · cases hresult
  have hunseen : (ledger.index (newRecord limits request identity result.1 result.2).sessionId
      (newRecord limits request identity result.1 result.2).requestId).isSome = false := by
    show (ledger.index identity.sessionId identity.requestId).isSome = false
    rw [hfree]
    rfl
  simp [MutationReplayLedger.assertStageable, hfits, hunseen]

/-- What a handled outcome that could not be recorded leaves: nothing durable changed, but the
reservation is already gone. -/
structure Unrecorded (request : CommitRequest) (s t : Writer) : Prop extends Held s none t where
  idle : t.db.working = none
  firstError : ∃ e, t.firstError = some e ∧
    ((∀ fault ∈ request.fault, fault.error ≠ notOpenError) →
      e ≠ notOpenError)

theorem unrecorded_noted (h : Held s none t) (hquiet : Quiet t)
    (hclosed : t.transactionOpen = false)
    (hne : (∀ fault ∈ request.fault, fault.error ≠ notOpenError) →
      e ≠ notOpenError) : Unrecorded request s (noted e t) :=
  ⟨h.noted e, h.working hclosed, e, (hquiet.noted e).1, hne⟩

/-- The inner handler rolls back, unless SQLite did that by itself. -/
theorem rollbackRecord_spec {fault : Fault} (h : Held s none t)
    (horiginal : Original fault.error t) (hfault : fault ∈ request.fault) :
    Ensures (rollbackRecord fault.error) t (fun _ _ => False)
      (fun _ u => Unrecorded request s u) := by
  have hforeign : (∀ fault ∈ request.fault, fault.error ≠ notOpenError) →
      fault.error ≠ notOpenError := fun hforeign => hforeign fault hfault
  rw [rollbackRecord, ensures_bind, ensures_get]
  split
  · simp only [ensures_bind, ensures_rollback, ensures_modify, ensures_throw]
    refine ⟨fun _ => ?_, fun hnone => ?_⟩
    · exact ⟨{ h with working := fun _ => rfl }, rfl, fault.error, horiginal.1, hforeign⟩
    · exact ⟨{ h with
        working := fun _ => hnone }, hnone, fault.error, by simp [noted, horiginal.1], hforeign⟩
  · rename_i hclosed
    exact ⟨h, h.working (by simpa using hclosed), fault.error, horiginal.1, hforeign⟩

/-- The record of a handled outcome is stored, or nothing is. -/
theorem recordHandled_spec (hid : request.idempotency = some identity) (hs : Resting s)
    (h : Held s none t) (hquiet : Quiet t) (hclosed : t.transactionOpen = false)
    (hfree : s.ledger.index identity.sessionId identity.requestId = none) :
    Ensures (recordHandled limits request identity) t
      (fun _ u => Storable limits request s.ledger ∧ OutcomeRecorded request s u)
      (fun _ u => ¬ Storable limits request s.ledger ∧ Unrecorded request s u) := by
  simp only [recordHandled, ensures_bind, ensures_lift, checkCapacity, ensures_get]
  refine ⟨?_, ?_⟩
  · intro result hresult
    split
    · refine ⟨?_, unrecorded_noted h hquiet hclosed (fun _ => by simp [resultTooLarge,
        notOpenError])⟩
      rintro ⟨⟨other, hother, hfits, -⟩, -⟩
      rw [hresult, ok.injEq] at hother
      subst hother
      omega
    split
    · rename_i hsmall hfull
      refine ⟨?_, unrecorded_noted h hquiet hclosed (fun _ => by simp [replayFull,
        notOpenError])⟩
      rintro ⟨⟨other, hother, -, hfits⟩, -⟩
      rw [hresult, ok.injEq] at hother
      subst hother
      rw [h.ledger] at hfull
      omega
    rename_i hsmall hroom
    rw [h.ledger] at hroom
    simp only [ensures_pure, ensures_tryCatch]
    refine (storeRecord_spec hid hs h hquiet hclosed
      (assertStageable_newRecord hresult hfree)).mono ?_ ?_
    · rintro row u ⟨hsites, hrecorded⟩
      exact ⟨⟨⟨result, hresult, by omega, by omega⟩, hsites⟩, hrecorded⟩
    rintro e u ⟨⟨hheld, horiginal⟩, fault, hfault, rfl, hsite⟩
    refine (rollbackRecord_spec hheld horiginal hfault).mono (fun _ _ h => h.elim) ?_
    intro e u hunrecorded
    exact ⟨fun hstorable => hstorable.2 fault hfault hsite, hunrecorded⟩
  intro e herror
  refine ⟨?_, unrecorded_noted h hquiet hclosed ?_⟩
  · rintro ⟨⟨result, hresult, -⟩, -⟩
    rw [herror] at hresult
    cases hresult
  rintro - rfl
  unfold recordedResult at herror
  split at herror
  · cases herror
  · split at herror
    · cases herror
    · cases herror

/-- **The rest of the handled-error path.** -/
theorem recordOutcome_spec (hs : Resting s) (h : Held s none t) (hquiet : Quiet t)
    (hclosed : t.transactionOpen = false) (hfree : ∀ identity ∈ request.idempotency,
      s.ledger.index identity.sessionId identity.requestId = none) :
    Ensures (recordOutcome limits request) t
      (fun _ u => Recordable limits request s.ledger ∧ OutcomeRecorded request s u)
      (fun _ u => ¬ Recordable limits request s.ledger ∧ Unrecorded request s u) := by
  simp only [recordOutcome, ensures_bind, ensures_at]
  refine ⟨fun hread => ?_, ?_⟩
  · cases hid : request.idempotency with
    | some identity =>
      refine (recordHandled_spec hid hs h hquiet hclosed (hfree identity hid)).mono ?_ ?_
      · rintro _ u ⟨hstorable, hrecorded⟩
        exact ⟨⟨hread, fun _ => hstorable⟩, hrecorded⟩
      · rintro _ u ⟨hstorable, hunrecorded⟩
        exact ⟨fun hrecordable => hstorable (hrecordable.2 (by rw [hid]; rfl)), hunrecorded⟩
    | none =>
      refine ⟨⟨hread, by simp [hid]⟩, ?_, ⟨none, ?_⟩, congrArg Tables.effects h.durable⟩
      · refine ⟨h.working hclosed, h.wellFormed, h.reservation, ?_, ?_⟩
        · rw [h.durable, hs.version, h.highWater]
        · rw [h.durable, h.ledger]
          exact hs.ledger
      · rw [h.durable]
        exact ⟨by simp, by rw [hid]; rfl, by simp, id, id⟩
  intro fault hfault hsite
  rw [struck_idle fault (h.working hclosed)]
  exact ⟨fun hrecordable => hrecordable.1 fault hfault hsite,
    unrecorded_noted h hquiet hclosed fun hforeign => hforeign fault hfault⟩

/-! ## The handler -/

/-- Rolling back an open transaction never throws. -/
theorem rollbackOpen_spec (hidle : t.transactionOpen = false → t.db.working = none)
    (hfirst : t.firstError = some e) :
    Ensures rollbackOpen t
      (fun failed u => u.db = t.db.abandon ∧ u.ledger = t.ledger ∧ u.publication = t.publication ∧
        u.firstError = some e ∧ u.rollbackFailed = (t.rollbackFailed || failed))
      (fun _ _ => False) := by
  rw [rollbackOpen, ensures_bind, ensures_get]
  split
  · simp only [ensures_tryCatch, ensures_bind, ensures_rollback, ensures_modify, ensures_pure]
    refine ⟨fun _ => ⟨trivial, trivial, trivial, hfirst, by simp⟩, fun hnone => ?_⟩
    refine ⟨?_, rfl, rfl, by simp [noted, hfirst], by simp⟩
    show t.db = t.db.abandon
    rw [Database.abandon, ← hnone]
  · rename_i hclosed
    have hnone := hidle (by simpa using hclosed)
    exact ⟨by rw [Database.abandon, ← hnone], rfl, rfl, hfirst, by simp⟩

/-- The handler gives back what is held, and throws the error of the turn, or `indeterminate`
where `ROLLBACK` fails. -/
theorem cleanup_held (hs : Resting s) (h : Held s (some slot) t) (horiginal : Original e t) :
    Ensures (cleanup slot e) t (fun _ _ => False)
      (fun e u => Resting u ∧ u.db.durable = s.db.durable ∧
        (Original e u ∨ e = indeterminate ∧ u.rollbackFailed = true)) := by
  rw [cleanup, ensures_bind, ensures_get, if_neg (by simp [h.committed]), ensures_bind]
  refine (rollbackOpen_spec h.working horiginal.1).mono ?_ (fun _ _ h => h.elim)
  rintro failed u ⟨hdb, hledger, hpublication, hfirst, hfailed⟩
  obtain ⟨publication, hcancel⟩ := h.wellFormed.exists_cancelSlot h.reservation
  obtain ⟨hwellFormed, -, hclosed, hwater⟩ := h.wellFormed.cancelSlot hcancel
  have hdurable : u.db.durable = s.db.durable := by rw [hdb]; exact h.durable
  have hresting : Resting { u with publication } := by
    refine ⟨by rw [hdb]; rfl, hwellFormed, hclosed, ?_, ?_⟩
    · rw [hdurable, hs.version, hwater, h.highWater]
    · rw [hdurable, hledger, h.ledger]
      exact hs.ledger
  simp only [cancel, ensures_bind, ensures_get, ensures_lift, ensures_modify, hpublication, hcancel,
    ok.injEq, forall_eq', reduceCtorEq, false_implies, implies_true, and_true]
  rw [horiginal.2] at hfailed
  cases failed with
  | true =>
    exact ⟨{ hresting with }, hdurable, .inr ⟨rfl, hfailed⟩⟩
  | false => exact ⟨hresting, hdurable, .inl ⟨hfirst, hfailed⟩⟩

/-- Without a reservation the handler throws the error of the second cancellation instead. -/
theorem cleanup_released (h : Unrecorded request s t) :
    Ensures (cleanup slot e) t (fun _ _ => False)
      (fun e u => e = notOpenError ∧ u.firstError = t.firstError ∧
        u.db = t.db ∧ u.ledger = t.ledger ∧ u.publication = t.publication) := by
  obtain ⟨first, hfirst, -⟩ := h.firstError
  rw [cleanup, ensures_bind, ensures_get, if_neg (by simp [h.committed]), ensures_bind]
  refine (rollbackOpen_spec (fun _ => h.idle) hfirst).mono ?_ (fun _ _ h => h.elim)
  rintro failed u ⟨hdb, hledger, hpublication, hfirstError, -⟩
  have hclosed : u.publication.cancelSlot slot = .error notOpenError := by
    rw [hpublication]
    apply cancelSlot_closed
    rw [h.reservation]
    simp
  simp only [cancel, ensures_bind, ensures_get, ensures_lift, hclosed, reduceCtorEq, false_implies,
    implies_true, true_and, error.injEq, forall_eq']
  refine ⟨?_, ?_, hledger, hpublication⟩
  · rw [hfirst]
    simp [noted, hfirstError]
  · show u.db = t.db
    rw [hdb, Database.abandon, ← h.idle]

/-! ## The turn after the gate -/

/-- The durable tables got the record of the request and, if it committed, its writes. -/
structure Changed (request : CommitRequest) (s t : Writer) : Prop where
  recorded : ∃ row, Recorded request s.ledger s.db.durable row t.db.durable
  effects : t.db.durable.effects = s.db.durable.effects ∨
    t.db.durable.effects = (applyWork request s.db.durable).effects

/-- A turn with a reservation comes to a handled outcome that it cannot record. -/
def Unrecordable (limits : Limits) (request : CommitRequest) (ledger : MutationReplayLedger) :
    Prop :=
  request.handled = true ∧ (∀ fault ∈ request.fault, fault.site ∉ workSites) ∧
    ¬ Recordable limits request ledger

/-- `COMMIT` succeeded, but the handoff did not. -/
structure Stuck (request : CommitRequest) (s t : Writer) : Prop where
  fault : ∃ fault ∈ request.fault, fault.site = .afterCommit
  working : t.db.working = none
  reservation : t.publication.openReservation.isSome
  changed : Changed request s t

/-- The body of the turn. -/
theorem attempt_spec (hs : Resting s) (h : Held s (some slot) t) (hquiet : Quiet t)
    (hclosed : t.transactionOpen = false) (hfree : ∀ identity ∈ request.idempotency,
      s.ledger.index identity.sessionId identity.requestId = none) :
    Ensures (attempt limits request slot (s.publication.committedHighWater + 1)) t
      (fun result u => result.replayed = false ∧ Resting u ∧ Changed request s u ∧
        ¬ Unrecordable limits request s.ledger)
      (fun e u =>
        Held s (some slot) u ∧ Original e u ∧ ¬ Unrecordable limits request s.ledger ∨
        Unrecorded request s u ∧ Unrecordable limits request s.ledger ∨
        u.committed = true ∧ Stuck request s u) := by
  rw [attempt, ensures_bind]
  refine (runWork_spec h hquiet hclosed).mono ?_ ?_
  · rintro _ u ⟨hworking, hsites⟩
    split
    · rename_i hhandled
      simp only [handledError, ensures_bind, ensures_pure]
      refine (closeHandled_spec hworking).mono ?_ (fun _ _ h => h.elim)
      rintro _ v ⟨hheld, hquiet, hclosed⟩
      refine (recordOutcome_spec hs hheld hquiet hclosed hfree).mono ?_ ?_
      · rintro _ w ⟨hrecordable, hrecorded⟩
        exact ⟨trivial, hrecorded.resting, ⟨hrecorded.recorded, .inl hrecorded.effects⟩,
          fun hlost => hlost.2.2 hrecordable⟩
      · rintro e w ⟨hnot, hunrecorded⟩
        exact .inr (.inl ⟨hunrecorded, hhandled, hsites, hnot⟩)
    rename_i hhandled
    have hnot : ¬ Unrecordable limits request s.ledger := fun hlost => hhandled hlost.1
    rw [ensures_bind]
    refine (commitWork_spec hworking).mono ?_ ?_
    · rintro ⟨version, row⟩ v ⟨hcommitted, -⟩
      refine (handOff_spec hs hcommitted).mono ?_ ?_
      · rintro result w ⟨hresting, hdb, hreplayed⟩
        refine ⟨hreplayed, hresting, ⟨⟨row, ?_⟩, .inr ?_⟩, hnot⟩
        · rw [hdb]
          exact hcommitted.recorded
        · rw [hdb]
          exact hcommitted.effects
      rintro e w ⟨hfault, hcommit, hidle, hdurable, hreservation⟩
      refine .inr (.inr ⟨hcommit, hfault, hidle, by simp [hreservation], ⟨row, ?_⟩, .inr ?_⟩)
      · rw [hdurable]
        exact hcommitted.recorded
      · rw [hdurable]
        exact hcommitted.effects
    · rintro e v ⟨hheld, horiginal⟩
      exact .inl ⟨hheld, horiginal, hnot⟩
  · rintro e u ⟨⟨hheld, horiginal⟩, fault, hfault, hsite⟩
    exact .inl ⟨hheld, horiginal, fun hlost => hlost.2.1 fault hfault hsite⟩

/-- The turn gets a reservation, and comes to a handled outcome that it cannot record. -/
def LosesOutcome (limits : Limits) (request : CommitRequest) (s : Writer) : Prop :=
  (∃ reserved, s.publication.reserve 0 request.gateAt = .ok reserved) ∧
    Unrecordable limits request s.ledger

/-- How a turn that throws leaves the writer: it gave everything back, it did that but throws the
error of a second cancellation, or it committed and is stuck before the handoff. -/
inductive Rejects (limits : Limits) (request : CommitRequest) (s : Writer) (e : Thrown)
    (t : Writer) : Prop
  | released (resting : Resting t) (durable : t.db.durable = s.db.durable)
      (kept : ¬ LosesOutcome limits request s)
      (error : Original e t ∨ e = indeterminate ∧ t.rollbackFailed = true)
  | lost (resting : Resting t) (durable : t.db.durable = s.db.durable)
      (lost : LosesOutcome limits request s) (error : e = notOpenError)
      (first : ∃ first, t.firstError = some first ∧
        ((∀ fault ∈ request.fault, fault.error ≠ notOpenError) →
          first ≠ notOpenError))
  | stuck (stuck : Stuck request s t)

/-- **The turn after the gate.** -/
theorem transact_spec (hs : Resting s) (hquiet : Quiet s) (hclosed : s.transactionOpen = false)
    (hcommitted : s.committed = false) (hfree : ∀ identity ∈ request.idempotency,
      s.ledger.index identity.sessionId identity.requestId = none) :
    Ensures (transact limits request) s
      (fun result t => result.replayed = false ∧ Resting t ∧ Changed request s t ∧
        ¬ LosesOutcome limits request s)
      (Rejects limits request s) := by
  simp only [transact, ensures_bind, ensures_get, ensures_lift, ensures_modify, ensures_tryCatch]
  refine ⟨?_, ?_⟩
  · rintro ⟨publication, slot⟩ hreserve
    obtain ⟨-, hopen⟩ := reserve_openReservation hreserve
    have hheld : Held s (some slot) { s with publication } :=
      ⟨rfl, rfl, hs.wellFormed.reserve hreserve, hopen,
        reserve_committedHighWater hreserve, hcommitted, fun _ => hs.working⟩
    refine (attempt_spec hs hheld hquiet hclosed hfree).mono ?_ ?_
    · rintro result t ⟨hreplayed, hresting, hchanged, hnot⟩
      exact ⟨hreplayed, hresting, hchanged, fun hlost => hnot hlost.2⟩
    rintro e t (⟨hheld, horiginal, hnot⟩ | ⟨hunrecorded, hlost⟩ | ⟨hcommit, hstuck⟩)
    · refine (cleanup_held hs hheld horiginal).mono (fun _ _ h => h.elim) ?_
      rintro e u ⟨hresting, hdurable, herror⟩
      exact .released hresting hdurable (fun hlost => hnot hlost.2) herror
    · refine (cleanup_released hunrecorded).mono (fun _ _ h => h.elim) ?_
      rintro e u ⟨rfl, hfirst, hdb, hledger, hpublication⟩
      refine .lost ⟨?_, ?_, ?_, ?_, ?_⟩ ?_ ⟨⟨_, hreserve⟩, hlost⟩ rfl ?_
      · rw [hdb]
        exact hunrecorded.idle
      · rw [hpublication]
        exact hunrecorded.wellFormed
      · rw [hpublication]
        exact hunrecorded.reservation
      · rw [hpublication, hdb, hunrecorded.durable, hunrecorded.highWater]
        exact hs.version
      · rw [hledger, hdb, hunrecorded.durable, hunrecorded.ledger]
        exact hs.ledger
      · rw [hdb]
        exact hunrecorded.durable
      · rw [hfirst]
        exact hunrecorded.firstError
    · rw [cleanup, ensures_bind, ensures_get, if_pos hcommit]
      exact .stuck hstuck
  intro e herror
  refine .released { hs with } rfl ?_
    (.inl (hquiet.noted e))
  rintro ⟨⟨reserved, hreserve⟩, -⟩
  rw [herror] at hreserve
  cases hreserve

end Coordinator

end AckerDB
