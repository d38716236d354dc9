import AckerDB.Runtime.Coordinator

/-!
# The idempotency gate

What the parts of the gate return, what they throw and the state they leave either
way.

* `ensures_at`, `ensures_lift`, `ensures_exec`, `ensures_rollback` — the rules for the
  primitives of a turn;
* `Pruning` — the gate changes nothing but the expired rows;
* `gate_spec` — the gate answers from the ledger, lets the request execute, or throws.
-/

namespace AckerDB

open Protocol Turn

namespace Coordinator

variable {limits : Limits} {request : CommitRequest} {s : Writer}

variable {throws : Thrown → Writer → Prop} {returns : Unit → Writer → Prop} {cutoff : Int}

/-! ## Throwing -/

/-- An error is thrown: the first one of the turn is remembered. -/
def noted (error : Thrown) (s : Writer) : Writer :=
  { s with firstError := s.firstError <|> some error }

/-- A fault strikes. -/
def struck (fault : Fault) (s : Writer) : Writer :=
  noted fault.error { s with db := if fault.ends then s.db.abandon else s.db }

@[simp] theorem ensures_fail {α : Type} {error : Thrown} {returns : α → Writer → Prop} :
    Ensures (fail error) s returns throws ↔ throws error (noted error s) := Iff.rfl

@[simp] theorem ensures_lift {α : Type} {result : Except Thrown α} {returns : α → Writer → Prop} :
    Ensures (lift result) s returns throws ↔
      (∀ a, result = .ok a → returns a s) ∧ ∀ e, result = .error e → throws e (noted e s) := by
  cases result with
  | ok | error => simp [lift]

@[simp] theorem ensures_exec {statement : Database → Except Thrown Database} :
    Ensures (exec statement) s returns throws ↔
      (∀ db, statement s.db = .ok db → returns () { s with db }) ∧
        ∀ e, statement s.db = .error e → throws e (noted e s) := by
  simp [exec]

/-- A point at which something may throw passes, or the fault of the request strikes there. -/
@[simp] theorem ensures_at {site : Site} :
    Ensures (at_ request site) s returns throws ↔
      ((∀ fault ∈ request.fault, fault.site ≠ site) → returns () s) ∧
        ∀ fault ∈ request.fault, fault.site = site → throws fault.error (struck fault s) := by
  unfold at_
  cases hfault : request.fault with
  | none => simp
  | some fault =>
    by_cases hsite : fault.site = site
    · by_cases hends : fault.ends = true <;> simp [hsite, hends, struck]
    · simp [hsite]

/-- A fault leaves the durable tables as they are. -/
theorem struck_eq (fault : Fault) {tables : Tables} (hdurable : s.db.durable = tables) :
    ∃ working, struck fault s =
      noted fault.error { s with db := { durable := tables, working } } := by
  subst hdurable
  cases hends : fault.ends with
  | false => exact ⟨s.db.working, by simp [struck, hends]⟩
  | true => exact ⟨none, by simp [struck, hends, Database.abandon]⟩

/-- Between transactions a fault only throws. -/
theorem struck_idle (fault : Fault) (hworking : s.db.working = none) :
    struck fault s = noted fault.error s := by
  have habandoned : s.db.abandon = s.db := by rw [Database.abandon, ← hworking]
  simp [struck, habandoned]

/-- `ROLLBACK` works inside of a transaction. -/
@[simp] theorem ensures_rollback :
    Ensures rollback s returns throws ↔
      (s.db.working.isSome → returns () { s with db := s.db.abandon }) ∧
        (s.db.working = none → throws Database.noTransactionError
          { noted Database.noTransactionError s with rollbackFailed := true }) := by
  cases hworking : s.db.working with
  | none => simp [rollback, Database.rollback, hworking]
  | some => simp [rollback, Database.rollback, Database.abandon, hworking]

/-! ## The gate -/

/-- Nothing was thrown yet. -/
def Quiet (s : Writer) : Prop := s.firstError = none ∧ s.rollbackFailed = false

/-- The error is the first one of the turn. -/
def Original (e : Thrown) (s : Writer) : Prop := s.firstError = some e ∧ s.rollbackFailed = false

/-- A `ROLLBACK` failed, and its error took the place of the one that was being handled. -/
def Replaced (request : CommitRequest) (e : Thrown) (s : Writer) : Prop :=
  s.rollbackFailed = true ∧ e = Database.noTransactionError ∧
    ∃ fault ∈ request.fault, s.firstError = some fault.error

theorem Quiet.noted (h : Quiet s) (e : Thrown) : Original e (noted e s) :=
  ⟨by simp [Coordinator.noted, h.1], h.2⟩

/-- What the gate does to a writer between transactions: expired rows go. -/
structure Pruning (cutoff : Int) (s t : Writer) : Prop where
  working : t.db.working = none
  tables : s.db.durable.Pruned cutoff t.db.durable
  ledger : s.ledger.Matches s.db.durable → t.ledger.Matches t.db.durable
  publication : t.publication = s.publication
  transactionOpen : t.transactionOpen = s.transactionOpen
  committed : t.committed = s.committed

theorem Pruning.refl (hworking : s.db.working = none) : Pruning cutoff s s :=
  ⟨hworking, .refl cutoff _, id, rfl, rfl, rfl⟩

theorem Pruning.trans {t u : Writer} (hst : Pruning cutoff s t) (htu : Pruning cutoff t u) :
    Pruning cutoff s u :=
  ⟨htu.working, hst.tables.trans htu.tables, htu.ledger ∘ hst.ledger,
    htu.publication.trans hst.publication, htu.transactionOpen.trans hst.transactionOpen,
    htu.committed.trans hst.committed⟩

theorem Pruning.noted {t : Writer} (h : Pruning cutoff s t) (e : Thrown) :
    Pruning cutoff s (noted e t) :=
  { h with }

/-- The transaction of `prune` removes the expired rows, or the fault of the request strikes. -/
theorem prunePrefix_spec {batch : Nat} {expired rest : List StoredMutation} {last : StoredMutation}
    {tables : Tables} (hdb : s.db = { durable := tables, working := some tables })
    (hsequence : tables.InSequence) (hrows : tables.mutations = expired ++ rest)
    (hlast : expired.getLast? = some last) :
    Ensures (prunePrefix request batch expired last.sequence) s
      (fun _ t => t = { s with db :=
        { durable := (tables.deleteThrough last.sequence).uncount expired } })
      (fun e t => ∃ fault ∈ request.fault, e = fault.error ∧
        ∃ working, t = noted e { s with db := { durable := tables, working } }) := by
  have hdeleted := hsequence.deleteThrough hrows hlast
  have hcount : tables.mutations.length - rest.length = expired.length := by
    simp [hrows]
  simp only [prunePrefix, ensures_bind, ensures_at, ensures_get, ensures_modify]
  refine ⟨fun _ => ?_, fun fault hfault _ => ⟨fault, hfault, rfl, struck_eq fault (by rw [hdb])⟩⟩
  · have htables : s.db.tables = tables := by rw [hdb]; rfl
    rw [htables, hdeleted, if_neg (not_not.2 hcount)]
    simp only [ensures_bind, ensures_at, ensures_modify, ensures_exec]
    refine ⟨fun _ => ⟨fun _ => ⟨?_, ?_⟩, fun fault hfault _ => ⟨fault, hfault, rfl, ?_⟩⟩,
      fun fault hfault _ => ⟨fault, hfault, rfl, ?_⟩⟩
    · intro db hcommit
      simp only [hdb, Database.update, Database.commit, Except.ok.injEq] at hcommit
      rw [← hcommit]
    · intro e herror
      simp [hdb, Database.update, Database.commit] at herror
    · exact struck_eq fault (by simp [hdb, Database.update])
    · exact struck_eq fault (by simp [hdb, Database.update])

section

variable (hworking : s.db.working = none) (hsequence : s.db.durable.InSequence) (hquiet : Quiet s)
include hworking hsequence hquiet

/-- `prune` removes expired rows and forgets them. -/
theorem prune_spec {batch : Nat} :
    Ensures (prune request batch cutoff) s
      (fun _ t => Pruning cutoff s t ∧ Quiet t)
      (fun e t => Pruning cutoff s t ∧ (Original e t ∨ Replaced request e t)) := by
  have htables : s.db.tables = s.db.durable := by simp [Database.tables, hworking]
  have hstruck : ∀ fault, Pruning cutoff s (struck fault s) ∧
      (Original fault.error (struck fault s) ∨ Replaced request fault.error (struck fault s)) := by
    intro fault
    rw [struck_idle fault hworking]
    exact ⟨(Pruning.refl hworking).noted _, .inl (hquiet.noted _)⟩
  simp only [prune, ensures_bind, ensures_at, ensures_get]
  refine ⟨fun _ => ?_, fun fault _ _ => hstruck fault⟩
  rw [htables]
  obtain ⟨⟨rest, hrows⟩, hexpired⟩ := s.db.durable.expiredPrefix_spec cutoff 1000
  generalize s.db.durable.expiredPrefix cutoff 1000 = expired at hrows hexpired ⊢
  cases hlast : expired.getLast? with
  | none => exact ⟨.refl hworking, hquiet⟩
  | some =>
    simp only [ensures_bind, ensures_at, ensures_exec]
    refine ⟨fun _ => ⟨?_, ?_⟩, fun fault _ _ => hstruck fault⟩
    · intro db hbegin
      simp only [Database.begin, hworking, Option.isSome_none, Bool.false_eq_true, if_false,
        Except.ok.injEq] at hbegin
      subst hbegin
      simp only [ensures_tryCatch, ensures_bind, ensures_modify, ensures_pure, ensures_rollback,
        ensures_throw]
      refine (prunePrefix_spec rfl hsequence hrows hlast).mono ?_ ?_
      · rintro _ t rfl
        have hdeleted := hsequence.deleteThrough hrows hlast
        refine ⟨⟨rfl, ⟨rfl, rfl, rfl, expired, ?_, hexpired⟩, ?_, rfl, rfl, rfl⟩, hquiet⟩
        · exact hrows.trans (congrArg (expired ++ ·) hdeleted.symm)
        · intro hmatches
          exact (hmatches.forget hrows).congr hdeleted rfl rfl rfl
      -- the handler of `prune` rolls back, unless SQLite did that by itself
      rintro e t ⟨fault, hfault, rfl, working, rfl⟩
      obtain ⟨hfirst, hfailed⟩ := hquiet
      refine ⟨fun _ => ⟨⟨rfl, .refl cutoff _, id, rfl, rfl, rfl⟩, .inl ⟨?_, hfailed⟩⟩,
        fun hnone => ⟨⟨hnone, .refl cutoff _, id, rfl, rfl, rfl⟩,
          .inr ⟨rfl, rfl, fault, hfault, ?_⟩⟩⟩
      · simp [noted, hfirst]
      · simp [noted, hfirst]
    · intro e herror
      simp [Database.begin, hworking] at herror

/-- Pruning in batches. -/
theorem pruneBatches_spec {fuel batch : Nat} :
    Ensures (pruneBatches request cutoff fuel batch) s
      (fun _ t => Pruning cutoff s t ∧ Quiet t)
      (fun e t => Pruning cutoff s t ∧ (Original e t ∨ Replaced request e t)) := by
  induction fuel generalizing s batch with
  | zero => exact ⟨.refl hworking, hquiet⟩
  | succ fuel ih =>
    rw [pruneBatches, ensures_bind]
    refine (prune_spec hworking hsequence hquiet).mono ?_ (fun _ _ h => h)
    rintro removed t ⟨hpruning, hquiet⟩
    split
    · exact ⟨hpruning, hquiet⟩
    refine (ih hpruning.working (hpruning.tables.inSequence hsequence) hquiet).mono ?_ ?_
    · rintro _ u ⟨hrest, hquiet⟩
      exact ⟨hpruning.trans hrest, hquiet⟩
    · rintro e u ⟨hrest, herror⟩
      exact ⟨hpruning.trans hrest, herror⟩

/-- `pruneExpiredMutations`. -/
theorem pruneExpiredMutations_spec :
    Ensures (pruneExpiredMutations limits request) s
      (fun _ t => Pruning (request.pruneAt - limits.maxAgeMs) s t ∧ Quiet t)
      (fun e t => Pruning (request.pruneAt - limits.maxAgeMs) s t ∧
        (Original e t ∨ Replaced request e t)) := by
  rw [pruneExpiredMutations, ensures_bind, ensures_get]
  split
  · exact ⟨.refl hworking, hquiet⟩
  have hsame : ∀ {cutoff t}, Pruning cutoff { s with nextPruneAtMs := request.pruneAt + 60000 } t →
      Pruning cutoff s t := fun h =>
    { h with }
  refine (pruneBatches_spec (s := { s with nextPruneAtMs := request.pruneAt + 60000 }) hworking
    hsequence hquiet).mono ?_ ?_
  · rintro _ t ⟨h, hquiet⟩
    exact ⟨hsame h, hquiet⟩
  · rintro e t ⟨h, herror⟩
    exact ⟨hsame h, herror⟩

end

/-- The request may execute: the ledger has no row for it, and it is in the window. -/
structure Admitted (limits : Limits) (request : CommitRequest) (identity : IdempotencyIdentity)
    (tables : Tables) : Prop where
  unseen : ∀ row ∈ tables.mutations,
    ¬ (row.sessionId = identity.sessionId ∧ row.requestId = identity.requestId)
  window : ∃ createdAt, uuidV7Timestamp identity.requestId = .ok createdAt ∧
    (createdAt : Int) ≤ request.gateAt + maxMutationClockSkewMs ∧
    request.gateAt - limits.maxAgeMs ≤ createdAt

/-- The request is answered from a row of the ledger. -/
def ReplayedFrom (identity : IdempotencyIdentity) (tables : Tables) (result : CommitResult) : Prop :=
  ∃ row ∈ tables.mutations, row.sessionId = identity.sessionId ∧
    row.requestId = identity.requestId ∧ replay identity row = .ok result

variable {identity : IdempotencyIdentity}

theorem checkWindow_eq_ok {now records : Int}
    (h : checkWindow limits now identity records = .ok ()) :
    ∃ createdAt, uuidV7Timestamp identity.requestId = .ok createdAt ∧
      (createdAt : Int) ≤ now + maxMutationClockSkewMs ∧ now - limits.maxAgeMs ≤ createdAt := by
  unfold checkWindow at h
  split at h
  · cases h
  rename_i createdAt hcreated
  split at h
  · cases h
  · split at h
    · cases h
    · exact ⟨createdAt, hcreated, by omega, by omega⟩

/-- **The gate** prunes, and then answers from the ledger, lets the request execute, or throws. -/
theorem gate_spec (hworking : s.db.working = none) (hsequence : s.db.durable.InSequence)
    (hquiet : Quiet s) :
    Ensures (gate limits request identity) s
      (fun answer t => (Pruning (request.pruneAt - limits.maxAgeMs) s t ∧ Quiet t) ∧
        match answer with
        | some result => ReplayedFrom identity t.db.durable result
        | none => t.ledger.index identity.sessionId identity.requestId = none ∧
            (s.ledger.Matches s.db.durable → Admitted limits request identity t.db.durable))
      (fun e t => Pruning (request.pruneAt - limits.maxAgeMs) s t ∧
        (Original e t ∨ Replaced request e t)) := by
  unfold gate
  split
  · exact ⟨(Pruning.refl hworking).noted _, .inl (hquiet.noted _)⟩
  rw [ensures_bind]
  refine (pruneExpiredMutations_spec hworking hsequence hquiet).mono ?_ (fun _ _ h => h)
  rintro _ t ⟨hpruning, hquiet⟩
  have hidle : t.db.tables = t.db.durable := by simp [Database.tables, hpruning.working]
  simp only [ensures_bind, ensures_at, ensures_get, ensures_lift, hidle]
  refine ⟨fun _ => ⟨?_, fun e _ => ⟨hpruning.noted e, .inl (hquiet.noted e)⟩⟩, ?_⟩
  · intro stored hstored
    cases stored with
    | some row =>
      obtain ⟨hmem, hsession, hrequest⟩ := MutationReplayLedger.lookup_eq_some hstored
      simp only [ensures_bind, ensures_lift, ensures_pure]
      exact ⟨fun result hresult => ⟨⟨hpruning, hquiet⟩, row, hmem, hsession, hrequest, hresult⟩,
        fun e _ => ⟨hpruning.noted e, .inl (hquiet.noted e)⟩⟩
    | none =>
      simp only [ensures_bind, ensures_lift, ensures_pure]
      refine ⟨fun _ hwindow => ⟨⟨hpruning, hquiet⟩, MutationReplayLedger.lookup_eq_none hstored, ?_⟩,
        fun e _ => ⟨hpruning.noted e, .inl (hquiet.noted e)⟩⟩
      intro hmatches
      refine ⟨?_, checkWindow_eq_ok hwindow⟩
      rintro row hrow ⟨hsession, hrequest⟩
      have hindex := ((hpruning.ledger hmatches).index _ _ row.sequence).2
        ⟨row, hrow, hsession, hrequest, rfl⟩
      rw [MutationReplayLedger.lookup_eq_none hstored] at hindex
      cases hindex
  · intro fault _ _
    rw [struck_idle fault hpruning.working]
    exact ⟨hpruning.noted _, .inl (hquiet.noted _)⟩

/-- A new turn up to the end of the gate. -/
theorem gated_spec (hworking : s.db.working = none) (hsequence : s.db.durable.InSequence) :
    Ensures (gated limits request) s
      (fun answer t => (Pruning (request.pruneAt - limits.maxAgeMs) (begun s) t ∧ Quiet t) ∧
        match answer with
        | some result => ∃ identity ∈ request.idempotency,
            ReplayedFrom identity t.db.durable result
        | none => ∀ identity ∈ request.idempotency,
            t.ledger.index identity.sessionId identity.requestId = none ∧
            (s.ledger.Matches s.db.durable → Admitted limits request identity t.db.durable))
      (fun e t => Pruning (request.pruneAt - limits.maxAgeMs) (begun s) t ∧
        (Original e t ∨ Replaced request e t)) := by
  have hquiet : Quiet (begun s) := ⟨rfl, rfl⟩
  rw [gated, ensures_bind]
  cases hid : request.idempotency with
  | none => exact ⟨⟨.refl hworking, hquiet⟩, by simp⟩
  | some identity =>
    refine (gate_spec (s := begun s) hworking hsequence hquiet).mono ?_ (fun _ _ h => h)
    rintro (_ | result) t ⟨hpruning, hanswer⟩
    · refine ⟨hpruning, ?_⟩
      intro other hother
      rw [← Option.mem_some_iff.1 hother]
      exact hanswer
    · exact ⟨hpruning, identity, rfl, hanswer⟩

end Coordinator

end AckerDB
