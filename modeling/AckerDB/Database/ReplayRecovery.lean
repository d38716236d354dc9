import AckerDB.Core.Protocol
import AckerDB.Database.MutationReplay
import AckerDB.Lib.Run

/-!
# Recovery of the replay ledger

What a restart makes of the durable ledger.  `scanMutationReplay` reads the rows in sequence,
checks their order, their times, that no request is recorded twice and that the counters are
right, and builds the index again; a ledger that is used one transaction after the other has to
leave tables that the scan accepts and from which it builds the index the ledger has in memory.

* `scanMutationReplay` — the scan, and `scan_eq_ok_iff` — the tables it accepts;
* `ReplayStore` — a connection, its ledger and what was staged since `BEGIN`;
* `ReplayStore.Recovers` — a restart finds what the ledger has in memory;
* `ReplayStore.ledger_recovers` — it does after every run whose transactions commit what they may.
-/

namespace AckerDB

open Except List Option

/-! ## The scan -/

/-- `MutationReplaySnapshot`. -/
structure MutationReplaySnapshot where
  commitVersion : Nat
  mutationSequence : Nat
  index : String → String → Option Nat
  records : Nat
  resultBytes : Nat
  /-- Nothing stands for minus infinity. -/
  lastCompletedAt : Option Int

/-- The variables of the loop in `scanMutationReplay`. -/
structure Scan where
  index : String → String → Option Nat := fun _ _ => none
  records : Nat := 0
  resultBytes : Nat := 0
  previousSequence : Nat := 0
  previousVersion : Nat := 0
  lastCompletedAt : Option Int := none

namespace Scan

/-- The row's commit order or sequence is wrong. -/
def outOfOrder (tables : Tables) (scan : Scan) (row : StoredMutation) : Bool :=
  row.sequence ≤ scan.previousSequence || tables.mutationSequence < row.sequence ||
    row.commitVersion < scan.previousVersion || tables.commitVersion < row.commitVersion

/-- The row was completed before the one that precedes it. -/
def backInTime (scan : Scan) (row : StoredMutation) : Bool :=
  scan.lastCompletedAt.any fun last => row.completedAt < last

/-- The variables after the row. -/
def next (scan : Scan) (row : StoredMutation) : Scan where
  index := Function.update scan.index row.sessionId
    (Function.update (scan.index row.sessionId) row.requestId (some row.sequence))
  records := scan.records + 1
  resultBytes := scan.resultBytes + row.resultBytes
  previousSequence := row.sequence
  previousVersion := row.commitVersion
  lastCompletedAt := some row.completedAt

/-- The body of the loop. -/
def readRow (tables : Tables) (scan : Scan) (row : StoredMutation) : Except Thrown Scan :=
  if scan.outOfOrder tables row then
    .error (.foreign "mutation replay ledger has an invalid commit order or sequence")
  else if scan.backInTime row then
    .error (.foreign "mutation replay ledger completion time is not monotonic")
  else if (scan.index row.sessionId row.requestId).isSome then
    .error (.foreign "mutation replay ledger contains a duplicate scoped request")
  else .ok (scan.next row)

end Scan

/-- `scanMutationReplay`. -/
def scanMutationReplay (tables : Tables) : Except Thrown MutationReplaySnapshot := do
  let scan ← tables.mutations.foldlM (Scan.readRow tables) {}
  if (scan.records : Int) ≠ tables.mutationRecords ∨
      (scan.resultBytes : Int) ≠ tables.mutationResultBytes then
    .error (.foreign "mutation replay ledger counters do not match stored records")
  else if tables.mutationSequence < scan.previousSequence then
    .error (.foreign "mutation replay sequence exceeds internal state")
  else if Protocol.maxSafeInteger < scan.resultBytes then
    .error (.foreign "mutation replay ledger byte count exceeds the supported range")
  else
    .ok
      { commitVersion := tables.commitVersion, mutationSequence := tables.mutationSequence
        index := scan.index, records := scan.records, resultBytes := scan.resultBytes
        lastCompletedAt := scan.lastCompletedAt }

/-! ## The tables it accepts -/

/-- Two rows record the same request. -/
def StoredMutation.SameRequest (a b : StoredMutation) : Prop :=
  a.sessionId = b.sessionId ∧ a.requestId = b.requestId

/-- One row may follow another. -/
structure StoredMutation.Precedes (a b : StoredMutation) : Prop where
  sequence : a.sequence < b.sequence
  commitVersion : a.commitVersion ≤ b.commitVersion
  completedAt : a.completedAt ≤ b.completedAt
  distinct : ¬ a.SameRequest b

namespace Tables

/-- The counters of the tables cover the row. -/
structure Covers (tables : Tables) (row : StoredMutation) : Prop where
  positive : 0 < row.sequence
  sequence : row.sequence ≤ tables.mutationSequence
  commitVersion : row.commitVersion ≤ tables.commitVersion

/-- **A valid ledger.** -/
structure Valid (tables : Tables) : Prop where
  ordered : tables.mutations.Pairwise StoredMutation.Precedes
  covered : ∀ row ∈ tables.mutations, tables.Covers row
  records : tables.mutationRecords = tables.mutations.length
  resultBytes : tables.mutationResultBytes = (tables.mutations.map (·.resultBytes)).sum
  safe : (tables.mutations.map (·.resultBytes)).sum ≤ Protocol.maxSafeInteger

end Tables

variable {rows : List StoredMutation} {scan : Scan} {tables : Tables}

/-- What the loop has made of the rows it has read. -/
structure Scan.Of (rows : List StoredMutation) (scan : Scan) : Prop where
  index : ∀ sessionId requestId sequence, scan.index sessionId requestId = some sequence ↔
    ∃ row ∈ rows, row.sessionId = sessionId ∧ row.requestId = requestId ∧ row.sequence = sequence
  records : scan.records = rows.length
  resultBytes : scan.resultBytes = (rows.map (·.resultBytes)).sum
  last : (rows = [] ∧ scan.previousSequence = 0 ∧ scan.previousVersion = 0 ∧
      scan.lastCompletedAt = none) ∨
    ∃ last ∈ rows, (∀ row ∈ rows, row = last ∨ row.Precedes last) ∧
      scan.previousSequence = last.sequence ∧ scan.previousVersion = last.commitVersion ∧
      scan.lastCompletedAt = some last.completedAt

theorem Scan.of_nil : Scan.Of [] {} where
  index := by simp
  records := rfl
  resultBytes := rfl
  last := .inl ⟨rfl, rfl, rfl, rfl⟩

theorem Scan.Of.isSome_index (h : scan.Of rows) (row : StoredMutation) :
    (scan.index row.sessionId row.requestId).isSome = true ↔ ∃ old ∈ rows, old.SameRequest row := by
  rw [isSome_iff_exists]
  constructor
  · rintro ⟨sequence, hsequence⟩
    obtain ⟨old, hold, hsession, hrequest, -⟩ := (h.index _ _ _).1 hsequence
    exact ⟨old, hold, hsession, hrequest⟩
  · rintro ⟨old, hold, hsession, hrequest⟩
    exact ⟨old.sequence, (h.index _ _ _).2 ⟨old, hold, hsession, hrequest, rfl⟩⟩

variable {row : StoredMutation}

theorem Scan.Of.free (h : scan.Of rows) (hall : ∀ old ∈ rows, old.Precedes row) :
    scan.index row.sessionId row.requestId = none := by
  rw [← not_isSome_iff_eq_none, h.isSome_index]
  rintro ⟨old, hold, hsame⟩
  exact (hall old hold).distinct hsame

theorem Scan.Of.outOfOrder_eq_false (h : scan.Of rows) (hkept : scan.outOfOrder tables row = false)
    (htime : scan.backInTime row = false) :
    tables.Covers row ∧
      ∀ old ∈ rows, old.sequence < row.sequence ∧ old.commitVersion ≤ row.commitVersion ∧
        old.completedAt ≤ row.completedAt := by
  simp only [outOfOrder, Bool.or_eq_false_iff, decide_eq_false_iff_not, not_le, not_lt] at hkept
  obtain ⟨⟨⟨hsequence, hbounded⟩, hversion⟩, hcommit⟩ := hkept
  refine ⟨⟨by omega, hbounded, hcommit⟩, fun old hold => ?_⟩
  rcases h.last with ⟨hnil, -⟩ | ⟨last, -, hall, hlastSequence, hlastVersion, hlastTime⟩
  · rw [hnil] at hold
    cases hold
  rw [hlastSequence] at hsequence
  rw [hlastVersion] at hversion
  simp only [backInTime, hlastTime, any_some, decide_eq_false_iff_not, not_lt] at htime
  rcases hall old hold with rfl | hprecedes
  · exact ⟨hsequence, hversion, htime⟩
  · exact ⟨hprecedes.sequence.trans hsequence, hprecedes.commitVersion.trans hversion,
      hprecedes.completedAt.trans htime⟩

/-- The loop goes on with a row exactly when it may follow those before it. -/
theorem Scan.Of.readRow_eq_ok_iff {after : Scan} (h : scan.Of rows) (row : StoredMutation) :
    scan.readRow tables row = .ok after ↔
      after = scan.next row ∧ tables.Covers row ∧ ∀ old ∈ rows, old.Precedes row := by
  unfold readRow
  constructor
  · intro hread
    split_ifs at hread with horder htime hfresh
    rw [Bool.not_eq_true] at horder htime
    obtain ⟨hcovers, hall⟩ := h.outOfOrder_eq_false horder htime
    refine ⟨(ok.inj hread).symm, hcovers, fun old hold => ?_⟩
    obtain ⟨hsequence, hversion, htimes⟩ := hall old hold
    exact ⟨hsequence, hversion, htimes,
      fun hsame => hfresh ((h.isSome_index row).2 ⟨old, hold, hsame⟩)⟩
  rintro ⟨rfl, hcovers, hall⟩
  have horder : scan.outOfOrder tables row = false := by
    simp only [outOfOrder, Bool.or_eq_false_iff, decide_eq_false_iff_not, not_le, not_lt]
    refine ⟨⟨⟨?_, hcovers.sequence⟩, ?_⟩, hcovers.commitVersion⟩
    all_goals rcases h.last with ⟨-, hsequence, hversion, -⟩ | ⟨last, hlast, -, hsequence, hversion, -⟩
    · rw [hsequence]
      exact hcovers.positive
    · rw [hsequence]
      exact (hall last hlast).sequence
    · rw [hversion]
      exact Nat.zero_le _
    · rw [hversion]
      exact (hall last hlast).commitVersion
  have htime : scan.backInTime row = false := by
    rcases h.last with ⟨-, -, -, htime⟩ | ⟨last, hlast, -, -, -, htime⟩
    · simp [backInTime, htime]
    · simpa [backInTime, htime] using (hall last hlast).completedAt
  rw [if_neg (by rw [horder]; decide), if_neg (by rw [htime]; decide),
    if_neg (by rw [h.free hall]; decide)]

theorem Scan.Of.next (h : scan.Of rows) (hall : ∀ old ∈ rows, old.Precedes row) :
    (scan.next row).Of (rows ++ [row]) where
  index := MutationReplayLedger.Indexes.concat h.index (h.free hall)
  records := by
    rw [length_append, ← h.records]
    rfl
  resultBytes := by
    rw [map_append, sum_append, ← h.resultBytes]
    simp [Scan.next]
  last := by
    refine .inr ⟨row, by simp, fun old hold => ?_, rfl, rfl, rfl⟩
    rcases mem_append.1 hold with hold | hold
    · exact .inr (hall old hold)
    · exact .inl (mem_singleton.1 hold)

theorem Scan.of_foldlM (h : rows.foldlM (Scan.readRow tables) {} = .ok scan) :
    scan.Of rows ∧ rows.Pairwise StoredMutation.Precedes ∧ ∀ row ∈ rows, tables.Covers row := by
  induction rows using reverseRecOn generalizing scan with
  | nil =>
    cases h
    exact ⟨of_nil, Pairwise.nil, by simp⟩
  | append_singleton rows row ih =>
    rw [foldlM_append, bind_eq_ok] at h
    obtain ⟨before, hbefore, hread⟩ := h
    obtain ⟨hof, hpairs, hcovers⟩ := ih hbefore
    rw [foldlM_cons, bind_eq_ok] at hread
    obtain ⟨after, hread, hafter⟩ := hread
    cases hafter
    obtain ⟨rfl, hcover, hall⟩ := (hof.readRow_eq_ok_iff row).1 hread
    refine ⟨hof.next hall, ?_, ?_⟩
    · rw [pairwise_append]
      exact ⟨hpairs, pairwise_singleton _ _, by simpa using hall⟩
    exact forall_mem_append.2 ⟨hcovers, forall_mem_singleton.2 hcover⟩

theorem Scan.exists_foldlM (hpairs : rows.Pairwise StoredMutation.Precedes)
    (hcovers : ∀ row ∈ rows, tables.Covers row) :
    ∃ scan, rows.foldlM (Scan.readRow tables) {} = .ok scan := by
  induction rows using reverseRecOn with
  | nil => exact ⟨_, rfl⟩
  | append_singleton rows row ih =>
    rw [pairwise_append] at hpairs
    obtain ⟨before, hbefore⟩ := ih hpairs.1 fun other hother => hcovers other (by simp [hother])
    have hread := ((of_foldlM hbefore).1.readRow_eq_ok_iff row).2
      ⟨rfl, hcovers row (by simp), fun old hold => hpairs.2.2 old hold row (by simp)⟩
    refine ⟨before.next row, ?_⟩
    rw [foldlM_append, hbefore, ok_bind, foldlM_cons, hread]
    rfl

/-- The snapshot of a loop that ended. -/
def Scan.snapshot (scan : Scan) (tables : Tables) : MutationReplaySnapshot where
  commitVersion := tables.commitVersion
  mutationSequence := tables.mutationSequence
  index := scan.index
  records := scan.records
  resultBytes := scan.resultBytes
  lastCompletedAt := scan.lastCompletedAt

/-- A scan that succeeds has read a valid ledger, row by row. -/
theorem scan_eq_ok {snapshot : MutationReplaySnapshot}
    (h : scanMutationReplay tables = .ok snapshot) :
    tables.Valid ∧ ∃ scan : Scan, scan.Of tables.mutations ∧ snapshot = scan.snapshot tables := by
  rw [scanMutationReplay, bind_eq_ok] at h
  obtain ⟨scan, hscan, h⟩ := h
  obtain ⟨hof, hpairs, hcovers⟩ := Scan.of_foldlM hscan
  split_ifs at h with hcounters _ hsafe
  rw [not_or, not_not, not_not, hof.records, hof.resultBytes] at hcounters
  rw [not_lt, hof.resultBytes] at hsafe
  exact ⟨⟨hpairs, hcovers, hcounters.1.symm, hcounters.2.symm, hsafe⟩, scan, hof,
    (ok.inj h).symm⟩

theorem Tables.Valid.exists_scan (h : tables.Valid) :
    ∃ snapshot, scanMutationReplay tables = .ok snapshot := by
  obtain ⟨scan, hscan⟩ := Scan.exists_foldlM h.ordered h.covered
  obtain ⟨hof, -, -⟩ := Scan.of_foldlM hscan
  refine ⟨scan.snapshot tables, ?_⟩
  have hsequence : scan.previousSequence ≤ tables.mutationSequence := by
    rcases hof.last with ⟨-, hzero, -⟩ | ⟨last, hlast, -, hlastSequence, -⟩
    · rw [hzero]
      exact Nat.zero_le _
    · rw [hlastSequence]
      exact (h.covered last hlast).sequence
  have hsafe := h.safe
  rw [← hof.resultBytes] at hsafe
  have hcounters : ¬ ((scan.records : Int) ≠ tables.mutationRecords ∨
      (scan.resultBytes : Int) ≠ tables.mutationResultBytes) := by
    rw [hof.records, hof.resultBytes, h.records, h.resultBytes]
    simp
  rw [scanMutationReplay, hscan, ok_bind, if_neg hcounters, if_neg (not_lt.2 hsequence),
    if_neg (not_lt.2 hsafe)]
  rfl

theorem Tables.Valid.inSequence (h : tables.Valid) : tables.InSequence where
  sorted := h.ordered.imp fun hprecedes => hprecedes.sequence
  bounded row hrow := (h.covered row hrow).sequence

/-! ## A ledger in use -/

/-- The constructor of `MutationReplayLedger`. -/
def MutationReplayLedger.ofSnapshot (snapshot : MutationReplaySnapshot) : MutationReplayLedger where
  index := snapshot.index
  recordCount := snapshot.records
  byteCount := snapshot.resultBytes
  lastCompletedAt := snapshot.lastCompletedAt

/-- The writer's connection, its ledger, and the rows staged since `BEGIN`. -/
structure ReplayStore where
  db : Database
  ledger : MutationReplayLedger
  staged : List StoredMutation := []

/-- What the owner of the ledger does. -/
inductive ReplayOperation where
  | begin
  /-- A write that is not recorded draws a commit version. -/
  | allocate
  | stage (record : NewStoredMutation) (now : Int) (allocation : Allocation)
  /-- `COMMIT`, followed by `committed` for every staged row. -/
  | commit
  | rollback
  | prune (completedBefore : Int) (limit : Nat)

namespace ReplayStore

/-- A ledger opened over the tables. -/
def start (tables : Tables) (snapshot : MutationReplaySnapshot) : ReplayStore where
  db := { durable := tables }
  ledger := .ofSnapshot snapshot

section

variable (s : ReplayStore)

/-- `stage`. -/
def stage (record : NewStoredMutation) (now : Int) (allocation : Allocation) :
    Except Thrown ReplayStore :=
  if Protocol.maxSafeInteger < record.resultBytes then
    .error (.error "mutation resultBytes must be a non-negative safe integer")
  else do
    s.ledger.assertStageable record
    let db := s.db.update fun tables => tables.allocateMutation record.resultBytes allocation
    let row := s.ledger.stagedRow db.tables record now
    return { s with db := db.update fun tables => tables.append row, staged := s.staged ++ [row] }

/-- `prune`, and how many rows it removed. -/
def prune (s : ReplayStore) (completedBefore : Int) (limit : Nat) :
    Except Thrown (ReplayStore × Nat) :=
  if limit = 0 ∨ Protocol.maxSafeInteger < limit then
    .error (.error "mutation prune limit must be a positive safe integer")
  else
    let expired := s.db.tables.expiredPrefix completedBefore limit
    match expired.getLast? with
    | none => .ok (s, 0)
    | some last => do
        let db ← s.db.begin
        let kept := db.tables.deleteThrough last.sequence
        if db.tables.mutations.length - kept.mutations.length ≠ expired.length then
          -- the handler rolls back and throws the error again
          .error (.foreign "mutation replay prefix changed during pruning")
        else do
          let db ← (db.update fun _ => kept.uncount expired).commit
          return ({ s with db, ledger := s.ledger.forget expired }, expired.length)

/-- One operation; an operation that throws leaves everything as it was.  Statements of a
transaction are for its owner. -/
def step : ReplayOperation → Option ReplayStore
  | .begin => (s.db.begin).toOption.map fun db => { s with db }
  | .allocate =>
    if s.db.working.isNone then none
    else some { s with db := s.db.update Tables.allocateCommitVersion }
  | .stage record now allocation =>
    if s.db.working.isNone then none
    else some ((s.stage record now allocation).toOption.getD s)
  | .commit => (s.db.commit).toOption.map fun db =>
    { db, ledger := s.staged.foldl MutationReplayLedger.committed s.ledger }
  | .rollback => (s.db.rollback).toOption.map fun db => { s with db, staged := [] }
  | .prune completedBefore limit =>
    some (((s.prune completedBefore limit).toOption.map Prod.fst).getD s)

/-- **A restart finds what the ledger has in memory.** -/
def Recovers : Prop :=
  ∃ snapshot, scanMutationReplay s.db.durable = .ok snapshot ∧ snapshot.index = s.ledger.index ∧
    (snapshot.records : Int) = s.ledger.recordCount ∧
    (snapshot.resultBytes : Int) = s.ledger.byteCount

/-- What was staged may be committed: the rows were staged in the order of their times, for
distinct requests, and the bytes stay in the range of the scan. -/
structure Committable : Prop where
  ordered : s.staged.Pairwise fun a b => a.completedAt ≤ b.completedAt ∧ ¬ a.SameRequest b
  safe : s.ledger.byteCount + (s.staged.map (·.resultBytes)).sum ≤ Protocol.maxSafeInteger

/-- The condition on a step. -/
def Allowed : ReplayOperation → Prop
  | .commit => s.Committable
  | _ => True

/-! ## The invariant -/

/-- What the working copy of an open transaction is, apart from the times and requests of the
staged rows. -/
structure Works (working : Tables) : Prop where
  mutations : working.mutations = s.db.durable.mutations ++ s.staged
  sequences : working.mutations.Pairwise fun a b =>
    a.sequence < b.sequence ∧ a.commitVersion ≤ b.commitVersion
  covered : ∀ row ∈ working.mutations, working.Covers row
  records : working.mutationRecords = working.mutations.length
  resultBytes : working.mutationResultBytes = (working.mutations.map (·.resultBytes)).sum

/-- The ledger and the tables, at any time. -/
structure Kept : Prop where
  valid : s.db.durable.Valid
  matching : s.ledger.Matches s.db.durable
  times : ∀ row ∈ s.db.durable.mutations, ∃ last ∈ s.ledger.lastCompletedAt, row.completedAt ≤ last
  working : ∀ working ∈ s.db.working, s.Works working
  idle : s.db.working = none → s.staged = []
  /-- A staged row is not before the last one that was committed, and of another request. -/
  staged : ∀ row ∈ s.staged, (∀ last ∈ s.ledger.lastCompletedAt, last ≤ row.completedAt) ∧
    s.ledger.index row.sessionId row.requestId = none

end

variable {tables : Tables}

theorem Kept.start {snapshot : MutationReplaySnapshot}
    (h : scanMutationReplay tables = .ok snapshot) : (start tables snapshot).Kept := by
  obtain ⟨hvalid, scan, hof, rfl⟩ := scan_eq_ok h
  refine ⟨hvalid, ⟨hvalid.inSequence, hof.index, ?_, ?_, hvalid.records, hvalid.resultBytes⟩,
    ?_, ?_, fun _ => rfl, ?_⟩
  · exact congrArg Nat.cast hof.records
  · exact congrArg Nat.cast hof.resultBytes
  · intro row hrow
    rcases hof.last with ⟨hnil, -⟩ | ⟨last, -, hall, -, -, htime⟩
    · replace hrow : row ∈ tables.mutations := hrow
      rw [hnil] at hrow
      cases hrow
    refine ⟨last.completedAt, htime, ?_⟩
    rcases hall row hrow with rfl | hprecedes
    · exact le_refl _
    · exact hprecedes.completedAt
  · intro working hworking
    cases hworking
  · intro row hrow
    cases hrow

variable {s : ReplayStore}

theorem Kept.recovers (h : s.Kept) : s.Recovers := by
  obtain ⟨snapshot, hscan⟩ := h.valid.exists_scan
  obtain ⟨-, scan, hof, rfl⟩ := scan_eq_ok hscan
  refine ⟨_, hscan, ?_, ?_, ?_⟩
  · funext sessionId requestId
    apply ext
    intro sequence
    exact (hof.index _ _ _).trans (h.matching.index _ _ _).symm
  · rw [h.matching.recordCount]
    exact congrArg Nat.cast hof.records
  · rw [h.matching.byteCount]
    exact congrArg Nat.cast hof.resultBytes

/-! ## Staging -/

theorem Kept.begin (h : s.Kept) (hidle : s.db.working = none) :
    Kept { s with db := { s.db with working := some s.db.durable } } := by
  refine { h with working := fun working hworking => ?_, idle := fun hnone => ?_ }
  · cases hworking
    refine { h.valid with mutations := ?_, sequences := ?_ }
    · rw [h.idle hidle, append_nil]
    · exact h.valid.ordered.imp fun hprecedes => ⟨hprecedes.sequence, hprecedes.commitVersion⟩
  · cases hnone

theorem Works.allocate {working : Tables} (h : s.Works working) :
    s.Works working.allocateCommitVersion := by
  refine { h with covered := fun row hrow => ?_ }
  have hcovers := h.covered row hrow
  exact ⟨hcovers.positive, hcovers.sequence, hcovers.commitVersion.trans (Nat.le_succ _)⟩

variable {allocation : Allocation}

/-- A staged row comes after all others. -/
theorem Works.append {t : ReplayStore} {working : Tables} (h : s.Works working) {resultBytes : Nat}
    (hsequence : row.sequence = (working.allocateMutation resultBytes allocation).mutationSequence)
    (hversion : row.commitVersion = (working.allocateMutation resultBytes allocation).commitVersion)
    (hbytes : row.resultBytes = resultBytes) (hdurable : t.db.durable = s.db.durable)
    (hstaged : t.staged = s.staged ++ [row]) :
    t.Works ((working.allocateMutation resultBytes allocation).append row) := by
  have hcommit : working.commitVersion ≤
      (working.allocateMutation resultBytes allocation).commitVersion := Nat.le_add_right _ _
  have hnext : (working.allocateMutation resultBytes allocation).mutationSequence =
      working.mutationSequence + 1 := rfl
  refine ⟨?_, ?_, fun other hother => ?_, ?_, ?_⟩
  · show working.mutations ++ [row] = _
    rw [h.mutations, hdurable, hstaged, append_assoc]
  · show (working.mutations ++ [row]).Pairwise _
    rw [pairwise_append]
    refine ⟨h.sequences, pairwise_singleton _ _, fun old hold new hnew => ?_⟩
    rw [mem_singleton] at hnew
    subst hnew
    have hcovers := h.covered old hold
    rw [hsequence, hversion]
    exact ⟨Nat.lt_succ_of_le hcovers.sequence, hcovers.commitVersion.trans hcommit⟩
  · rcases mem_append.1 hother with hother | hother
    · have hcovers := h.covered other hother
      exact ⟨hcovers.positive, hcovers.sequence.trans (Nat.le_succ _),
        hcovers.commitVersion.trans hcommit⟩
    rw [mem_singleton] at hother
    subst hother
    refine ⟨?_, hsequence.le, hversion.le⟩
    rw [hsequence]
    exact Nat.succ_pos _
  · show working.mutationRecords + 1 = ((working.mutations ++ [row]).length : Int)
    rw [h.records, length_append, length_singleton]
    push_cast
    ring
  · show working.mutationResultBytes + resultBytes =
      (((working.mutations ++ [row]).map (·.resultBytes)).sum : Nat)
    rw [h.resultBytes, map_append, ← hbytes]
    simp

variable {ledger : MutationReplayLedger} {record : NewStoredMutation}

theorem assertStageable_eq_ok (h : ledger.assertStageable record = .ok ()) :
    ledger.index record.sessionId record.requestId = none := by
  unfold MutationReplayLedger.assertStageable at h
  split_ifs at h with _ hfree
  rwa [not_isSome_iff_eq_none] at hfree

theorem le_completedAt {last : Int} (h : last ∈ ledger.lastCompletedAt) (now : Int) :
    last ≤ ledger.completedAt now := by
  rw [mem_def] at h
  simp only [MutationReplayLedger.completedAt, h]
  exact le_max_right _ _

theorem Kept.stage {t : ReplayStore} (h : s.Kept) {now : Int} (hopen : s.db.working ≠ none)
    (hstage : s.stage record now allocation = .ok t) : t.Kept := by
  obtain ⟨working, hworking⟩ := ne_none_iff_exists'.1 hopen
  unfold ReplayStore.stage at hstage
  split_ifs at hstage
  rw [bind_eq_ok] at hstage
  obtain ⟨⟨⟩, hassert, hstage⟩ := hstage
  have hfree := assertStageable_eq_ok hassert
  simp only [Database.update, hworking, Database.tables, getD_some] at hstage
  cases hstage
  refine ⟨h.valid, h.matching, h.times, fun next hnext => ?_, fun hnone => ?_, fun row hrow => ?_⟩
  · cases hnext
    exact (h.working working hworking).append rfl rfl rfl rfl rfl
  · cases hnone
  rcases mem_append.1 hrow with hrow | hrow
  · exact h.staged row hrow
  · rw [mem_singleton] at hrow
    subst hrow
    exact ⟨fun last hlast => le_completedAt hlast now, hfree⟩

/-! ## Committing -/

section Committed

open MutationReplayLedger

theorem recordCount_foldl (ledger : MutationReplayLedger) (staged : List StoredMutation) :
    (staged.foldl committed ledger).recordCount = ledger.recordCount + staged.length := by
  induction staged generalizing ledger with
  | nil => simp
  | cons row rest ih =>
    rw [foldl_cons, ih, length_cons]
    show ledger.recordCount + 1 + (rest.length : Int) = _
    push_cast
    ring

theorem byteCount_foldl (ledger : MutationReplayLedger) (staged : List StoredMutation) :
    (staged.foldl committed ledger).byteCount =
      ledger.byteCount + (staged.map (·.resultBytes)).sum := by
  induction staged generalizing ledger with
  | nil => simp
  | cons row rest ih =>
    rw [foldl_cons, ih, map_cons, sum_cons]
    show ledger.byteCount + row.resultBytes + _ = _
    push_cast
    ring

theorem index_foldl {staged : List StoredMutation}
    (hdistinct : staged.Pairwise fun a b => ¬ a.SameRequest b)
    (hfree : ∀ row ∈ staged, ledger.index row.sessionId row.requestId = none)
    (sessionId requestId : String) (sequence : Nat) :
    (staged.foldl committed ledger).index sessionId requestId = some sequence ↔
      ledger.index sessionId requestId = some sequence ∨ ∃ row ∈ staged,
        row.sessionId = sessionId ∧ row.requestId = requestId ∧ row.sequence = sequence := by
  induction staged generalizing ledger with
  | nil => simp
  | cons row rest ih =>
    rw [pairwise_cons] at hdistinct
    have hrest : ∀ other ∈ rest,
        (ledger.committed row).index other.sessionId other.requestId = none := by
      intro other hother
      rw [index_committed, if_neg fun hpair =>
        hdistinct.1 other hother ⟨hpair.1.symm, hpair.2.symm⟩]
      exact hfree other (mem_cons_of_mem _ hother)
    rw [foldl_cons, ih hdistinct.2 hrest, index_committed]
    simp only [mem_cons, exists_eq_or_imp]
    by_cases hpair : sessionId = row.sessionId ∧ requestId = row.requestId
    · obtain ⟨rfl, rfl⟩ := hpair
      rw [hfree row mem_cons_self]
      simp
    rw [if_neg hpair]
    constructor
    · rintro (hold | hrow)
      · exact .inl hold
      · exact .inr (.inr hrow)
    rintro (hold | ⟨hsession, hrequest, -⟩ | hrow)
    · exact .inl hold
    · exact absurd ⟨hsession.symm, hrequest.symm⟩ hpair
    · exact .inr hrow

/-- The last row that is committed is the latest. -/
theorem times_foldl {done staged : List StoredMutation}
    (hdone : ∀ row ∈ done, ∃ last ∈ ledger.lastCompletedAt, row.completedAt ≤ last)
    (hordered : staged.Pairwise fun a b => a.completedAt ≤ b.completedAt)
    (hafter : ∀ row ∈ staged, ∀ last ∈ ledger.lastCompletedAt, last ≤ row.completedAt) :
    ∀ row ∈ done ++ staged,
      ∃ last ∈ (staged.foldl committed ledger).lastCompletedAt, row.completedAt ≤ last := by
  induction staged generalizing ledger done with
  | nil => simpa using hdone
  | cons row rest ih =>
    rw [pairwise_cons] at hordered
    have hnext : ∀ old ∈ done ++ [row],
        ∃ last ∈ (ledger.committed row).lastCompletedAt, old.completedAt ≤ last := by
      intro old hold
      refine ⟨row.completedAt, rfl, ?_⟩
      rcases mem_append.1 hold with hold | hold
      · obtain ⟨last, hlast, hle⟩ := hdone old hold
        exact hle.trans (hafter row mem_cons_self last hlast)
      · rw [mem_singleton] at hold
        rw [hold]
    intro old hold
    refine ih hnext hordered.2 (fun other hother last hlast => ?_) old (by simpa using hold)
    cases hlast
    exact hordered.1 other hother

end Committed

variable {s t : ReplayStore} {working : Tables}

/-- What is staged follows what is durable, in every respect. -/
theorem Kept.crosses (h : s.Kept) {old : StoredMutation} (hold : old ∈ s.db.durable.mutations)
    (hrow : row ∈ s.staged) :
    old.completedAt ≤ row.completedAt ∧ ¬ old.SameRequest row := by
  obtain ⟨hlater, hfree⟩ := h.staged row hrow
  obtain ⟨last, hlast, hle⟩ := h.times old hold
  refine ⟨hle.trans (hlater last hlast), fun hsame => ?_⟩
  have hindexed := (h.matching.index row.sessionId row.requestId old.sequence).2
    ⟨old, hold, hsame.1, hsame.2, rfl⟩
  rw [hfree] at hindexed
  cases hindexed

theorem Works.valid_iff (hworks : s.Works working) (h : s.Kept) : working.Valid ↔ s.Committable := by
  have htotal : s.ledger.byteCount + ((s.staged.map (·.resultBytes)).sum : Nat) =
      ((working.mutations.map (·.resultBytes)).sum : Nat) := by
    rw [h.matching.byteCount, hworks.mutations, map_append, sum_append]
    rfl
  constructor
  · intro hvalid
    have hordered := hvalid.ordered
    rw [hworks.mutations, pairwise_append] at hordered
    refine ⟨hordered.2.1.imp fun hprecedes => ⟨hprecedes.completedAt, hprecedes.distinct⟩, ?_⟩
    rw [htotal]
    exact_mod_cast hvalid.safe
  intro hcommittable
  have htimes : working.mutations.Pairwise fun a b =>
      a.completedAt ≤ b.completedAt ∧ ¬ a.SameRequest b := by
    rw [hworks.mutations, pairwise_append]
    refine ⟨?_, hcommittable.ordered, fun old hold row hrow => h.crosses hold hrow⟩
    exact h.valid.ordered.imp fun hprecedes => ⟨hprecedes.completedAt, hprecedes.distinct⟩
  refine { hworks with ordered := (hworks.sequences.and htimes).imp fun hboth => ?_, safe := ?_ }
  · exact ⟨hboth.1.1, hboth.1.2, hboth.2.1, hboth.2.2⟩
  · have hsafe := hcommittable.safe
    rw [htotal] at hsafe
    exact_mod_cast hsafe

theorem Kept.commit (h : s.Kept) (hworking : s.db.working = some working)
    (hcommittable : s.Committable) :
    Kept { db := { durable := working, working := none },
           ledger := s.staged.foldl MutationReplayLedger.committed s.ledger } := by
  have hworks := h.working working hworking
  have hvalid := (hworks.valid_iff h).2 hcommittable
  have hdistinct := hcommittable.ordered.imp fun {a b} hboth => hboth.2
  refine ⟨hvalid, ⟨hvalid.inSequence, ?_, ?_, ?_, hvalid.records, hvalid.resultBytes⟩, ?_, ?_,
    fun _ => rfl, by simp⟩
  · intro sessionId requestId sequence
    rw [index_foldl hdistinct (fun row hrow => (h.staged row hrow).2), h.matching.index,
      hworks.mutations]
    simp only [mem_append, or_and_right, exists_or]
  · rw [recordCount_foldl, h.matching.recordCount, hworks.mutations, length_append]
    rfl
  · rw [byteCount_foldl, h.matching.byteCount, hworks.mutations, map_append, sum_append]
    rfl
  · rw [hworks.mutations]
    exact times_foldl h.times (hcommittable.ordered.imp fun hboth => hboth.1)
      fun row hrow => (h.staged row hrow).1
  · intro other hother
    cases hother

/-! ## Pruning -/

/-- Where a property is lost for good, the first rows that have it are all the rows that do. -/
theorem takeWhile_take_eq {α : Type} {p : α → Bool} {rows : List α}
    (h : rows.Pairwise fun a b => p b = true → p a = true) (limit : Nat) :
    (rows.take limit).takeWhile p = (rows.filter p).take limit := by
  induction rows generalizing limit with
  | nil => simp
  | cons row rest ih =>
    rw [pairwise_cons] at h
    cases limit with
    | zero => rfl
    | succ =>
      by_cases hrow : p row = true
      · rw [take_succ_cons, takeWhile_cons_of_pos hrow, ih h.2,
          filter_cons_of_pos hrow, take_succ_cons]
      have hrest : rest.filter p = [] := by
        rw [filter_eq_nil_iff]
        exact fun other hother hp => hrow (h.1 other hother hp)
      rw [take_succ_cons, takeWhile_cons_of_neg hrow,
        filter_cons_of_neg hrow, hrest, take_nil]

/-- The rows a prune is to remove: the first ones that were completed before the threshold. -/
def expiredRows (tables : Tables) (completedBefore : Int) (limit : Nat) : List StoredMutation :=
  (tables.mutations.filter fun row => row.completedAt < completedBefore).take limit

theorem expiredPrefix_eq (h : tables.Valid) (completedBefore : Int) (limit : Nat) :
    tables.expiredPrefix completedBefore limit = expiredRows tables completedBefore limit := by
  apply takeWhile_take_eq
  refine h.ordered.imp fun hprecedes hb => ?_
  rw [decide_eq_true_eq] at hb ⊢
  exact hprecedes.completedAt.trans_lt hb

/-- What has expired at the front of the working copy has expired at the front of the data. -/
theorem Works.expiredPrefix_eq_nil (h : s.Works working) {completedBefore : Int} {limit : Nat}
    (hnone : working.expiredPrefix completedBefore limit = []) :
    s.db.durable.expiredPrefix completedBefore limit = [] := by
  unfold Tables.expiredPrefix at *
  rw [h.mutations] at hnone
  cases hrows : s.db.durable.mutations with
  | nil => simp
  | cons row =>
    cases limit with
    | zero => simp
    | succ =>
      rw [hrows, cons_append, take_succ_cons] at hnone
      rw [take_succ_cons]
      by_cases hrow : row.completedAt < completedBefore
      · rw [takeWhile_cons_of_pos (by simpa using hrow)] at hnone
        cases hnone
      · rw [takeWhile_cons_of_neg (by simpa using hrow)]

/-- **What a prune does**: the expired rows are gone from the front, and nothing else. -/
structure Prunes (s : ReplayStore) (completedBefore : Int) (limit : Nat) (t : ReplayStore)
    (removed : Nat) : Prop where
  removed : removed = (expiredRows s.db.durable completedBefore limit).length
  kept : s.db.durable.mutations =
    expiredRows s.db.durable completedBefore limit ++ t.db.durable.mutations

/-- The tables without the rows at their front. -/
def withoutFront (tables : Tables) (expired rest : List StoredMutation) : Tables :=
  { tables with
    mutations := rest
    mutationRecords := tables.mutationRecords - expired.length
    mutationResultBytes := tables.mutationResultBytes - (expired.map (·.resultBytes)).sum }

theorem valid_withoutFront (h : tables.Valid) {expired rest : List StoredMutation}
    (hrows : tables.mutations = expired ++ rest) :
    (withoutFront tables expired rest).Valid := by
  have hordered := h.ordered
  have hrecords := h.records
  have hbytes := h.resultBytes
  have hsafe := h.safe
  rw [hrows] at hordered
  rw [hrows, length_append] at hrecords
  rw [hrows, map_append, sum_append] at hbytes hsafe
  refine ⟨(pairwise_append.1 hordered).2.1, fun row hrow => ?_, ?_, ?_, ?_⟩
  · have hcovers := h.covered row (by rw [hrows]; exact mem_append_right _ hrow)
    exact { hcovers with }
  · show tables.mutationRecords - expired.length = (rest.length : Int)
    omega
  · show tables.mutationResultBytes - _ = ((rest.map (·.resultBytes)).sum : Nat)
    omega
  · show (rest.map (·.resultBytes)).sum ≤ _
    omega

theorem lastCompletedAt_forget (ledger : MutationReplayLedger) (expired : List StoredMutation) :
    (ledger.forget expired).lastCompletedAt = ledger.lastCompletedAt := by
  induction expired generalizing ledger with
  | nil => rfl
  | cons row rest ih =>
    rw [MutationReplayLedger.forget, ih]

theorem Kept.withoutFront (h : s.Kept) (hidle : s.db.working = none)
    {expired rest : List StoredMutation} (hrows : s.db.durable.mutations = expired ++ rest) :
    Kept
      { s with
        db := { durable := ReplayStore.withoutFront s.db.durable expired rest, working := none }
        ledger := s.ledger.forget expired } := by
  refine ⟨valid_withoutFront h.valid hrows, h.matching.forget hrows, fun row hrow => ?_, ?_,
    fun _ => h.idle hidle, ?_⟩
  · rw [lastCompletedAt_forget]
    exact h.times row (by rw [hrows]; exact mem_append_right _ hrow)
  · intro working hworking
    cases hworking
  · rw [h.idle hidle]
    simp

theorem Kept.prune (h : s.Kept) {completedBefore : Int} {limit removed : Nat}
    (hprune : s.prune completedBefore limit = .ok (t, removed)) :
    t.Kept ∧ s.Prunes completedBefore limit t removed := by
  unfold ReplayStore.prune at hprune
  split_ifs at hprune
  have heq := expiredPrefix_eq h.valid completedBefore limit
  dsimp only at hprune
  split at hprune
  · -- nothing has expired
    rename_i hlast
    cases hprune
    have hnil : s.db.durable.expiredPrefix completedBefore limit = [] := by
      cases hworking : s.db.working with
      | none => simpa [Database.tables, hworking] using hlast
      | some working =>
        apply (h.working working hworking).expiredPrefix_eq_nil
        simpa [Database.tables, hworking] using hlast
    rw [heq] at hnil
    refine ⟨h, ⟨?_, ?_⟩⟩
    · rw [hnil]
      rfl
    · rw [hnil, nil_append]
  rename_i last hlast
  rw [bind_eq_ok] at hprune
  obtain ⟨db, hbegin, hprune⟩ := hprune
  unfold Database.begin at hbegin
  split_ifs at hbegin with hidle
  rw [not_isSome_iff_eq_none] at hidle
  cases hbegin
  simp only [Database.tables, hidle, getD_none, getD_some] at hlast hprune
  split_ifs at hprune
  cases hprune
  obtain ⟨⟨rest, hrest⟩, -⟩ := Tables.expiredPrefix_spec s.db.durable completedBefore limit
  have hkept : s.db.durable.mutations.filter (fun row => last.sequence < row.sequence) = rest :=
    h.valid.inSequence.deleteThrough hrest hlast
  have htables : (s.db.durable.deleteThrough last.sequence).uncount
      (s.db.durable.expiredPrefix completedBefore limit) =
      ReplayStore.withoutFront s.db.durable
        (s.db.durable.expiredPrefix completedBefore limit) rest := by
    simp only [Tables.deleteThrough, Tables.uncount, ReplayStore.withoutFront, hkept]
  refine ⟨?_, ⟨by rw [heq], ?_⟩⟩
  · rw [htables]
    exact h.withoutFront hidle hrest
  · rw [htables, ← heq]
    exact hrest

/-! ## Every run -/

variable {op : ReplayOperation}

/-- One operation keeps the invariant, provided that a commit commits what it may. -/
theorem Kept.step (h : s.Kept) (hallowed : s.Allowed op) (hstep : s.step op = some t) : t.Kept := by
  cases op with
  | begin =>
    simp only [ReplayStore.step, Database.begin] at hstep
    split at hstep
    · cases hstep
    rename_i hidle
    rw [not_isSome_iff_eq_none] at hidle
    cases hstep
    exact h.begin hidle
  | allocate =>
    simp only [ReplayStore.step] at hstep
    split at hstep
    · cases hstep
    rename_i hopen
    obtain ⟨working, hworking⟩ := ne_none_iff_exists'.1 (by simpa using hopen)
    cases hstep
    simp only [Database.update, hworking]
    refine { h with working := fun next hnext => ?_, idle := fun hnone => ?_ }
    · cases hnext
      have hworks := (h.working working hworking).allocate
      exact { hworks with }
    · cases hnone
  | stage record now allocation =>
    simp only [ReplayStore.step] at hstep
    split at hstep
    · cases hstep
    rename_i hopen
    cases hstaged : s.stage record now allocation with
    | error =>
      rw [hstaged] at hstep
      cases hstep
      exact h
    | ok =>
      rw [hstaged] at hstep
      cases hstep
      exact h.stage (by simpa using hopen) hstaged
  | commit =>
    simp only [ReplayStore.step, Database.commit] at hstep
    cases hworking : s.db.working with
    | none =>
      rw [hworking] at hstep
      cases hstep
    | some =>
      rw [hworking] at hstep
      cases hstep
      exact h.commit hworking hallowed
  | rollback =>
    simp only [ReplayStore.step, Database.rollback] at hstep
    split at hstep
    · cases hstep
      refine ⟨h.valid, h.matching, h.times, ?_, fun _ => rfl, by simp⟩
      intro working hworking
      cases hworking
    · cases hstep
  | prune completedBefore limit =>
    simp only [ReplayStore.step] at hstep
    cases hprune : s.prune completedBefore limit with
    | error =>
      rw [hprune] at hstep
      cases hstep
      exact h
    | ok result =>
      obtain ⟨next, removed⟩ := result
      rw [hprune] at hstep
      cases hstep
      exact (h.prune hprune).1

/-- A commit of what may not be committed leaves tables that the scan refuses. -/
theorem Kept.allowed (h : s.Kept) (hstep : s.step op = some t) (hrecovers : t.Recovers) :
    s.Allowed op := by
  cases op with
  | commit =>
    simp only [ReplayStore.step, Database.commit] at hstep
    cases hworking : s.db.working with
    | none =>
      rw [hworking] at hstep
      cases hstep
    | some working =>
      rw [hworking] at hstep
      cases hstep
      obtain ⟨snapshot, hscan, -⟩ := hrecovers
      exact ((h.working working hworking).valid_iff h).1 (scan_eq_ok hscan).1
  | _ => trivial

/-- A mutation without a result. -/
def sampleRecord (requestId : String) : NewStoredMutation where
  sessionId := "session"
  requestId
  issuedAt := 0
  principalFingerprint := "anonymous"
  functionRef := "notes:add"
  argsFingerprint := "none"
  resultDisposition := .oneTime
  result := none
  resultBytes := 0
  durability := .production

/-- The snapshot of an empty ledger. -/
def emptySnapshot : MutationReplaySnapshot where
  commitVersion := 0
  mutationSequence := 0
  index := fun _ _ => none
  records := 0
  resultBytes := 0
  lastCompletedAt := none

/-- One transaction records two mutations, and the clock is set back in between. -/
def setBackRun : List ReplayOperation :=
  [.begin, .stage (sampleRecord "first") 10 .commit, .stage (sampleRecord "second") 5 .commit,
    .commit]

/-- One mutation is staged at ten. -/
def recordedRun : List ReplayOperation := [.begin, .stage (sampleRecord "first") 10 .commit]

end ReplayStore

end AckerDB
