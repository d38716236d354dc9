import AckerDB.Shared.Errors

/-!
# The mutation replay ledger

The durable tables a writer transaction works on, as far as the commit path reads
and writes them, and the in-memory index over the ledger of recorded mutations.
SQLite is a committed version of the tables and, while a transaction is open, a
working copy of them.

* `Database` — `BEGIN`, `COMMIT`, `ROLLBACK` and what a statement sees;
* `MutationReplayLedger` — `stage`, `committed` and `prune`, cut at their statements;
* `Tables.Pruned` — what pruning does to the rows;
* `MutationReplayLedger.Matches` — the index is exactly the ledger, kept by `Matches.append` and
  `Matches.forget`.
-/

namespace AckerDB

open List

/-- `resultDisposition`. -/
inductive ResultDisposition where
  | replayable | oneTime
  deriving DecidableEq

/-- `DurabilityPolicy`. -/
inductive DurabilityPolicy where
  | production | balanced
  deriving DecidableEq

/-- `NewStoredMutation`. -/
structure NewStoredMutation where
  sessionId : String
  requestId : String
  issuedAt : Nat
  principalFingerprint : String
  functionRef : String
  argsFingerprint : String
  resultDisposition : ResultDisposition
  result : Option Json
  resultBytes : Nat
  durability : DurabilityPolicy
  deriving DecidableEq

/-- `StoredMutation`: a row of the ledger. -/
structure StoredMutation extends NewStoredMutation where
  sequence : Nat
  commitVersion : Nat
  completedAt : Int
  deriving DecidableEq

/-- The tables.  `effects` names the mutations whose own writes the data holds. -/
structure Tables where
  commitVersion : Nat := 0
  mutationSequence : Nat := 0
  mutationRecords : Int := 0
  mutationResultBytes : Int := 0
  /-- `_ackerdb_mutations`, ordered by sequence. -/
  mutations : List StoredMutation := []
  effects : List (String × String) := []
  deriving DecidableEq

/-- The writer's connection. -/
structure Database where
  durable : Tables := {}
  /-- The working copy of the open transaction. -/
  working : Option Tables := none
  deriving DecidableEq

namespace Database

variable (db : Database)

/-- What the writer's statements see. -/
def tables : Tables := db.working.getD db.durable

/-- A statement changes the working copy, or outside of a transaction the data itself. -/
def update (f : Tables → Tables) : Database :=
  match db.working with
  | some tables => { db with working := some (f tables) }
  | none => { db with durable := f db.durable }

/-- `BEGIN IMMEDIATE`. -/
def begin : Except Thrown Database :=
  if db.working.isSome then .error (.foreign "cannot start a transaction within a transaction")
  else .ok { db with working := some db.durable }

/-- `COMMIT`. -/
def commit (db : Database) : Except Thrown Database :=
  match db.working with
  | some tables => .ok { durable := tables, working := none }
  | none => .error (.foreign "cannot commit - no transaction is active")

/-- The error of a `ROLLBACK` without a transaction. -/
def noTransactionError : Thrown := .foreign "cannot rollback - no transaction is active"

/-- `ROLLBACK`: it fails exactly when no transaction is active. -/
def rollback : Except Thrown Database :=
  if db.working.isSome then .ok { db with working := none } else .error noTransactionError

/-- SQLite gives up the open transaction by itself. -/
def abandon : Database := { db with working := none }

end Database

/-- Which counters a staged mutation draws. -/
inductive Allocation where
  | commit | replay
  deriving DecidableEq

namespace Tables

variable (tables : Tables)

/-- `allocateCommit` and `allocateReplay`. -/
def allocateMutation (resultBytes : Nat) (allocation : Allocation) : Tables :=
  { tables with
    commitVersion := tables.commitVersion + if allocation = .commit then 1 else 0
    mutationSequence := tables.mutationSequence + 1
    mutationRecords := tables.mutationRecords + 1
    mutationResultBytes := tables.mutationResultBytes + resultBytes }

/-- `append`. -/
def append (row : StoredMutation) : Tables :=
  { tables with mutations := tables.mutations ++ [row] }

/-- `allocateCommitVersion`. -/
def allocateCommitVersion : Tables :=
  { tables with commitVersion := tables.commitVersion + 1 }

/-- The rows `prune` may remove: among the first `limit`, those before the first that is
recent enough. -/
def expiredPrefix (completedBefore : Int) (limit : Nat) : List StoredMutation :=
  (tables.mutations.take limit).takeWhile fun row => row.completedAt < completedBefore

/-- `DELETE FROM _ackerdb_mutations WHERE sequence <= ?`. -/
def deleteThrough (sequence : Nat) : Tables :=
  { tables with mutations := tables.mutations.filter fun row => sequence < row.sequence }

/-- The update of the counters in `prune`. -/
def uncount (removed : List StoredMutation) : Tables :=
  { tables with
    mutationRecords := tables.mutationRecords - removed.length
    mutationResultBytes := tables.mutationResultBytes - (removed.map (·.resultBytes)).sum }

/-- The rows are in sequence, and the sequence counter is not behind them. -/
structure InSequence : Prop where
  sorted : tables.mutations.Pairwise fun a b => a.sequence < b.sequence
  bounded : ∀ row ∈ tables.mutations, row.sequence ≤ tables.mutationSequence

/-- What pruning may do: rows that were completed before a time are gone from the front. -/
structure Pruned (cutoff : Int) (before after : Tables) : Prop where
  commitVersion : after.commitVersion = before.commitVersion
  mutationSequence : after.mutationSequence = before.mutationSequence
  effects : after.effects = before.effects
  removed : ∃ gone, before.mutations = gone ++ after.mutations ∧
    ∀ row ∈ gone, row.completedAt < cutoff

theorem Pruned.refl (cutoff : Int) (tables : Tables) : tables.Pruned cutoff tables :=
  ⟨rfl, rfl, rfl, [], rfl, by simp⟩

theorem Pruned.trans {cutoff : Int} {a b c : Tables} (hab : a.Pruned cutoff b)
    (hbc : b.Pruned cutoff c) : a.Pruned cutoff c := by
  obtain ⟨gone, hgone, hold⟩ := hab.removed
  obtain ⟨more, hmore, hmoreOld⟩ := hbc.removed
  refine ⟨hbc.commitVersion.trans hab.commitVersion,
    hbc.mutationSequence.trans hab.mutationSequence, hbc.effects.trans hab.effects,
    gone ++ more, ?_, ?_⟩
  · rw [hgone, hmore, append_assoc]
  intro row hrow
  rcases mem_append.1 hrow with hrow | hrow
  · exact hold row hrow
  · exact hmoreOld row hrow

theorem Pruned.inSequence {cutoff : Int} {before after : Tables} (h : before.Pruned cutoff after)
    (hsequence : before.InSequence) : after.InSequence := by
  obtain ⟨gone, hgone, -⟩ := h.removed
  have hsorted := hsequence.sorted
  rw [hgone, pairwise_append] at hsorted
  refine ⟨hsorted.2.1, ?_⟩
  intro row hrow
  rw [h.mutationSequence]
  apply hsequence.bounded
  rw [hgone]
  exact mem_append_right gone hrow

/-- Deleting through the last row of a run at the front leaves the rest. -/
theorem InSequence.deleteThrough {tables : Tables} (h : tables.InSequence)
    {expired rest : List StoredMutation} (hrows : tables.mutations = expired ++ rest)
    {last : StoredMutation} (hlast : expired.getLast? = some last) :
    (tables.deleteThrough last.sequence).mutations = rest := by
  have hsorted := h.sorted
  rw [hrows, pairwise_append] at hsorted
  obtain ⟨hexpired, -, hcross⟩ := hsorted
  have hmem := mem_of_getLast? hlast
  have hgone : ∀ row ∈ expired, ¬ last.sequence < row.sequence := by
    obtain ⟨front, rfl⟩ := getLast?_eq_some_iff.1 hlast
    intro row hrow
    rcases mem_append.1 hrow with hrow | hrow
    · exact not_lt_of_gt ((pairwise_append.1 hexpired).2.2 row hrow last (by simp))
    · rw [mem_singleton] at hrow
      rw [hrow]
      exact lt_irrefl _
  show tables.mutations.filter _ = rest
  rw [hrows, filter_append]
  have hfront : (expired.filter fun row => decide (last.sequence < row.sequence)) = [] := by
    rw [filter_eq_nil_iff]
    intro row hrow
    simpa using hgone row hrow
  have hback : (rest.filter fun row => decide (last.sequence < row.sequence)) = rest := by
    rw [filter_eq_self]
    intro row hrow
    simpa using hcross last hmem row hrow
  rw [hfront, hback, nil_append]

/-- An appended row takes the next number. -/
theorem InSequence.append {tables : Tables} (h : tables.InSequence) {row : StoredMutation}
    {resultBytes : Nat} {allocation : Allocation}
    (hsequence : row.sequence = tables.mutationSequence + 1) :
    ((tables.allocateMutation resultBytes allocation).append row).InSequence where
  sorted := by
    show (tables.mutations ++ [row]).Pairwise _
    rw [pairwise_append]
    refine ⟨h.sorted, pairwise_singleton _ _, ?_⟩
    intro old hold new hnew
    rw [mem_singleton] at hnew
    subst hnew
    have hle := h.bounded old hold
    omega
  bounded := by
    intro other hother
    rcases mem_append.1 hother with hother | hother
    · exact (h.bounded other hother).trans (Nat.le_succ _)
    · rw [mem_singleton] at hother
      subst hother
      exact hsequence.le

/-- The rows that expired are at the front, and expired. -/
theorem expiredPrefix_spec (completedBefore : Int) (limit : Nat) :
    (∃ rest, tables.mutations = tables.expiredPrefix completedBefore limit ++ rest) ∧
      ∀ row ∈ tables.expiredPrefix completedBefore limit, row.completedAt < completedBefore := by
  refine ⟨?_, ?_⟩
  · have hprefix : tables.expiredPrefix completedBefore limit <+: tables.mutations :=
      (List.takeWhile_prefix _).trans (List.take_prefix limit _)
    obtain ⟨rest, hrest⟩ := hprefix
    exact ⟨rest, hrest.symm⟩
  · intro row hrow
    simpa using mem_takeWhile_imp hrow

end Tables

/-- `MutationReplayLedger`, as far as it is kept in memory. -/
structure MutationReplayLedger where
  index : String → String → Option Nat := fun _ _ => none
  recordCount : Int := 0
  byteCount : Int := 0
  /-- Nothing stands for minus infinity. -/
  lastCompletedAt : Option Int := none

namespace MutationReplayLedger

/-- The error of an index that disagrees with the tables. -/
def corruptIndex : Thrown :=
  .foreign "mutation replay index does not match its durable ledger"

section

variable (ledger : MutationReplayLedger)

/-- `lookup`. -/
def lookup (tables : Tables) (sessionId requestId : String) :
    Except Thrown (Option StoredMutation) :=
  match ledger.index sessionId requestId with
  | none => .ok none
  | some sequence =>
    match tables.mutations.find? fun row => row.sequence = sequence with
    | some row =>
      if row.sessionId = sessionId ∧ row.requestId = requestId then .ok (some row)
      else .error corruptIndex
    | none => .error corruptIndex

/-- Whether the result fits its disposition. -/
def fitsDisposition (record : NewStoredMutation) : Bool :=
  match record.resultDisposition with
  | .replayable => record.result.isSome
  | .oneTime => record.result.isNone && record.resultBytes = 0

/-- The checks of `stage`. -/
def assertStageable (record : NewStoredMutation) :
    Except Thrown Unit :=
  if !fitsDisposition record then
    .error (.error "mutation result does not match its replay disposition")
  else if (ledger.index record.sessionId record.requestId).isSome then
    .error (.error "mutation replay request is already stored")
  else .ok ()

/-- `completedAt`, in `stage`. -/
def completedAt (now : Int) : Int :=
  match ledger.lastCompletedAt with
  | some last => max now last
  | none => now

/-- The row `stage` appends, once the counters were drawn. -/
def stagedRow (tables : Tables) (record : NewStoredMutation)
    (now : Int) : StoredMutation :=
  { record with
    sequence := tables.mutationSequence
    commitVersion := tables.commitVersion
    completedAt := ledger.completedAt now }

/-- `committed`. -/
def committed (row : StoredMutation) : MutationReplayLedger where
  index := Function.update ledger.index row.sessionId
    (Function.update (ledger.index row.sessionId) row.requestId (some row.sequence))
  recordCount := ledger.recordCount + 1
  byteCount := ledger.byteCount + row.resultBytes
  lastCompletedAt := some row.completedAt

/-- The last loop of `prune`, over the removed rows. -/
def forget (ledger : MutationReplayLedger) : List StoredMutation → MutationReplayLedger
  | [] => ledger
  | row :: rest =>
    forget
      { ledger with
        index := Function.update ledger.index row.sessionId
          (Function.update (ledger.index row.sessionId) row.requestId none)
        recordCount := ledger.recordCount - 1
        byteCount := ledger.byteCount - row.resultBytes } rest

/-! ## The index is the ledger -/

/-- The index and the counters are those of the rows, and the rows are in sequence. -/
structure Matches (tables : Tables) : Prop
    extends tables.InSequence where
  index : ∀ sessionId requestId sequence, ledger.index sessionId requestId = some sequence ↔
    ∃ row ∈ tables.mutations, row.sessionId = sessionId ∧ row.requestId = requestId ∧
      row.sequence = sequence
  recordCount : ledger.recordCount = tables.mutations.length
  byteCount : ledger.byteCount = (tables.mutations.map (·.resultBytes)).sum
  records : tables.mutationRecords = tables.mutations.length
  resultBytes : tables.mutationResultBytes = (tables.mutations.map (·.resultBytes)).sum

end

theorem matches_empty : Matches {} {} where
  sorted := Pairwise.nil
  bounded := by simp
  index := by simp
  recordCount := rfl
  byteCount := rfl
  records := rfl
  resultBytes := rfl

variable {ledger : MutationReplayLedger} {tables : Tables}

/-- What the ledger says depends on its own columns only. -/
theorem Matches.congr {other : Tables} (h : ledger.Matches tables)
    (hrows : other.mutations = tables.mutations)
    (hsequence : other.mutationSequence = tables.mutationSequence)
    (hrecords : other.mutationRecords = tables.mutationRecords)
    (hbytes : other.mutationResultBytes = tables.mutationResultBytes) : ledger.Matches other where
  sorted := hrows ▸ h.sorted
  bounded := by
    rw [hrows, hsequence]
    exact h.bounded
  index := by
    rw [hrows]
    exact h.index
  recordCount := by
    rw [hrows]
    exact h.recordCount
  byteCount := by
    rw [hrows]
    exact h.byteCount
  records := by
    rw [hrows, hrecords]
    exact h.records
  resultBytes := by
    rw [hrows, hbytes]
    exact h.resultBytes

variable {row : StoredMutation}

theorem lookup_eq_some {sessionId requestId : String}
    (h : ledger.lookup tables sessionId requestId = .ok (some row)) :
    row ∈ tables.mutations ∧ row.sessionId = sessionId ∧ row.requestId = requestId := by
  unfold lookup at h
  split at h
  · cases h
  split at h
  · rename_i found hfound
    split at h
    · rename_i hpair
      cases h
      exact ⟨mem_of_find?_eq_some hfound, hpair⟩
    · cases h
  · cases h

/-- A pair that is not found is not in the index. -/
theorem lookup_eq_none {sessionId requestId : String} (h : ledger.lookup tables sessionId requestId = .ok none) :
    ledger.index sessionId requestId = none := by
  unfold lookup at h
  split at h
  · assumption
  · split at h
    · split at h <;> cases h
    · cases h

/-- The index with the entry of the row's pair written. -/
theorem index_update (index : String → String → Option Nat) (row : StoredMutation)
    (value : Option Nat) (sessionId requestId : String) :
    Function.update index row.sessionId
        (Function.update (index row.sessionId) row.requestId value) sessionId requestId =
      if sessionId = row.sessionId ∧ requestId = row.requestId then value
      else index sessionId requestId := by
  by_cases hsession : sessionId = row.sessionId
  · subst hsession
    by_cases hrequest : requestId = row.requestId
    · subst hrequest
      simp
    · simp [hrequest]
  · simp [hsession]

theorem index_committed (ledger : MutationReplayLedger) (row : StoredMutation)
    (sessionId requestId : String) :
    (ledger.committed row).index sessionId requestId =
      if sessionId = row.sessionId ∧ requestId = row.requestId then some row.sequence
      else ledger.index sessionId requestId :=
  index_update ledger.index row _ sessionId requestId

/-- The index holds the sequences of the rows, by their pairs. -/
def Indexes (index : String → String → Option Nat) (rows : List StoredMutation) : Prop :=
  ∀ sessionId requestId sequence, index sessionId requestId = some sequence ↔
    ∃ row ∈ rows, row.sessionId = sessionId ∧ row.requestId = requestId ∧ row.sequence = sequence

theorem Indexes.concat {index : String → String → Option Nat} {rows : List StoredMutation}
    (h : Indexes index rows) (hfree : index row.sessionId row.requestId = none) :
    Indexes (Function.update index row.sessionId
      (Function.update (index row.sessionId) row.requestId (some row.sequence)))
      (rows ++ [row]) := by
  intro sessionId requestId sequence
  rw [index_update]
  split
  · rename_i hpair
    obtain ⟨rfl, rfl⟩ := hpair
    constructor
    · rintro heq
      cases heq
      exact ⟨row, mem_append_right _ (mem_singleton_self row), rfl, rfl, rfl⟩
    rintro ⟨other, hother, hsession, hrequest, rfl⟩
    rcases mem_append.1 hother with hother | hother
    · have hindexed := (h _ _ _).2 ⟨other, hother, hsession, hrequest, rfl⟩
      rw [hfree] at hindexed
      cases hindexed
    · rw [mem_singleton] at hother
      rw [hother]
  rename_i hpair
  rw [h]
  constructor
  · rintro ⟨other, hother, hrest⟩
    exact ⟨other, mem_append_left _ hother, hrest⟩
  rintro ⟨other, hother, hsession, hrequest, hseq⟩
  rcases mem_append.1 hother with hother | hother
  · exact ⟨other, hother, hsession, hrequest, hseq⟩
  · rw [mem_singleton] at hother
    subst hother
    exact absurd ⟨hsession.symm, hrequest.symm⟩ hpair

/-- **A committed append** keeps the index exact. -/
theorem Matches.append (h : ledger.Matches tables) {allocation : Allocation}
    (hsequence : row.sequence = tables.mutationSequence + 1)
    (hfree : ledger.index row.sessionId row.requestId = none) :
    (ledger.committed row).Matches
      ((tables.allocateMutation row.resultBytes allocation).append row) where
  toInSequence := h.toInSequence.append hsequence
  index := Indexes.concat h.index hfree
  recordCount := by
    show ledger.recordCount + 1 = ((tables.mutations ++ [row]).length : Int)
    rw [h.recordCount, length_append, length_singleton]
    push_cast
    ring
  byteCount := by
    show ledger.byteCount + row.resultBytes =
      (((tables.mutations ++ [row]).map (·.resultBytes)).sum : Nat)
    rw [h.byteCount, map_append]
    simp
  records := by
    show tables.mutationRecords + 1 = ((tables.mutations ++ [row]).length : Int)
    rw [h.records, length_append, length_singleton]
    push_cast
    ring
  resultBytes := by
    show tables.mutationResultBytes + row.resultBytes =
      (((tables.mutations ++ [row]).map (·.resultBytes)).sum : Nat)
    rw [h.resultBytes, map_append]
    simp

/-! ## Pruning -/

/-- Forgetting the first row. -/
theorem Matches.forgetOne (h : ledger.Matches tables) {rest : List StoredMutation}
    (hrows : tables.mutations = row :: rest) :
    Matches
      { ledger with
        index := Function.update ledger.index row.sessionId
          (Function.update (ledger.index row.sessionId) row.requestId none)
        recordCount := ledger.recordCount - 1
        byteCount := ledger.byteCount - row.resultBytes }
      { tables with
        mutations := rest
        mutationRecords := tables.mutationRecords - 1
        mutationResultBytes := tables.mutationResultBytes - row.resultBytes } := by
  have hsorted := h.sorted
  rw [hrows, pairwise_cons] at hsorted
  obtain ⟨hfirst, htail⟩ := hsorted
  -- no later row has the pair of the first: the index would name two rows for it
  have hunique : ∀ other ∈ rest, ¬ (other.sessionId = row.sessionId ∧
      other.requestId = row.requestId) := by
    rintro other hother ⟨hsession, hrequest⟩
    have hone := (h.index row.sessionId row.requestId row.sequence).2
      ⟨row, by simp [hrows], rfl, rfl, rfl⟩
    have htwo := (h.index row.sessionId row.requestId other.sequence).2
      ⟨other, by simp [hrows, hother], hsession, hrequest, rfl⟩
    rw [hone] at htwo
    have hlt := hfirst other hother
    rw [Option.some.inj htwo] at hlt
    exact lt_irrefl _ hlt
  refine ⟨⟨htail, ?_⟩, ?_, ?_, ?_, ?_, ?_⟩
  · intro other hother
    exact h.bounded other (by rw [hrows]; exact mem_cons_of_mem row hother)
  · intro sessionId requestId sequence
    by_cases hpair : sessionId = row.sessionId ∧ requestId = row.requestId
    · obtain ⟨rfl, rfl⟩ := hpair
      simp only [Function.update_self, reduceCtorEq, false_iff]
      rintro ⟨other, hother, hsession, hrequest, -⟩
      exact hunique other hother ⟨hsession, hrequest⟩
    refine (iff_of_eq (congrArg (· = some sequence) (index_update _ _ _ _ _))).trans ?_
    rw [if_neg hpair]
    rw [h.index, hrows]
    constructor
    · rintro ⟨other, hother, hsession, hrequest, hseq⟩
      rcases mem_cons.1 hother with rfl | hother
      · exact absurd ⟨hsession.symm, hrequest.symm⟩ hpair
      · exact ⟨other, hother, hsession, hrequest, hseq⟩
    · rintro ⟨other, hother, hrest⟩
      exact ⟨other, mem_cons_of_mem row hother, hrest⟩
  all_goals
    first
    | have hcount := h.recordCount
      have hbytes := h.byteCount
      have hrecords := h.records
      have hresult := h.resultBytes
      simp only [hrows, length_cons, map_cons, sum_cons] at hcount hbytes hrecords hresult
      push_cast at hcount hbytes hrecords hresult ⊢
      omega

/-- **Pruning a prefix** keeps the index exact. -/
theorem Matches.forget (h : ledger.Matches tables) {expired rest : List StoredMutation}
    (hrows : tables.mutations = expired ++ rest) :
    (ledger.forget expired).Matches
      { tables with
        mutations := rest
        mutationRecords := tables.mutationRecords - expired.length
        mutationResultBytes := tables.mutationResultBytes - (expired.map (·.resultBytes)).sum } := by
  induction expired generalizing ledger tables with
  | nil =>
    refine h.congr hrows.symm rfl ?_ ?_ <;> simp
  | cons row expired ih =>
    have hone := ih (h.forgetOne (show tables.mutations = row :: (expired ++ rest) from hrows)) rfl
    refine hone.congr rfl rfl ?_ ?_
    · simp only [length_cons]
      push_cast
      ring
    · simp only [map_cons, sum_cons]
      push_cast
      ring

end MutationReplayLedger

end AckerDB
