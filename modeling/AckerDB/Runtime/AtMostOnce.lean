import AckerDB.Lib.Run
import AckerDB.Runtime.WriterTurn

/-!
# At-most-once mutations

A mutation is named by the session and the request id the client chose.  The ledger
remembers it until its record was completed longer than `maxAgeMs` ago; the gate then
has to reject it by the time inside of its id.

A record is completed at the server's clock, which may be behind that time: the gate
tolerates ids from the near future.  Such a record expires while its id is still in
the admission window, and the mutation executes again.

* `Evolves` — what a turn does to the durable tables, and `commit_evolves` that it does;
* `Once` — no mutation committed twice, and none that could be admitted is forgotten;
* `effects_nodup_of_reachable` — so it is in every run in which no admitted id is ahead of the
  clock at which its record is staged;
* `effects_kept_of_reachable` — and in every run, what has committed stays.
-/

namespace AckerDB

open Protocol Turn

namespace Coordinator

variable {limits : Limits} {request : CommitRequest} {s t : Writer}

variable {maxAgeMs : Nat} {clock : Int} {before after : Tables} {server : Server}

/-! ## What a turn does to the durable tables -/

/-- A turn prunes, and then may execute a request that the ledger has no record of. -/
inductive Evolves (limits : Limits) (request : CommitRequest) (before after : Tables) : Prop
  | pruned (pruning : before.Pruned (request.pruneAt - limits.maxAgeMs) after)
  | executed (pruned : Tables) (pruning : before.Pruned (request.pruneAt - limits.maxAgeMs) pruned)
      (admitted : ∀ identity ∈ request.idempotency, Admitted limits request identity pruned)
      (recorded : ∃ ledger row, Recorded request ledger pruned row after)
      (effects : after.effects = pruned.effects ∨
        after.effects = (applyWork request pruned).effects)

/-- Between turns the writer rests, or it is stuck with a reservation nobody will close. -/
structure Idle (s : Writer) : Prop where
  working : s.db.working = none
  inSequence : s.db.durable.InSequence
  rests : Resting s ∨ s.publication.openReservation.isSome

theorem Resting.idle (h : Resting s) : Idle s := ⟨h.working, h.ledger.toInSequence, .inl h⟩

/-- What a call gets back: a replayed result is that of a record, and one that is not replayed is
that of an admitted execution. -/
def Answers (limits : Limits) (request : CommitRequest) (s t : Writer) (result : CommitResult) :
    Prop :=
  ∀ identity ∈ request.idempotency,
    result.replayed = true ∧ ReplayedFrom identity t.db.durable result ∨
    result.replayed = false ∧ ∃ pruned, s.db.durable.Pruned (request.pruneAt - limits.maxAgeMs) pruned ∧
      Admitted limits request identity pruned

theorem replay_replayed {identity : IdempotencyIdentity} {stored : StoredMutation}
    {result : CommitResult} (h : replay identity stored = .ok result) : result.replayed = true := by
  unfold replay at h
  split at h
  · cases h
  split at h
  · split at h
    · cases h
      rfl
    · cases h
  · cases h

/-- With a reservation open, no turn gets past the gate. -/
theorem transact_blocked (hopen : s.publication.openReservation.isSome) :
    Ensures (transact limits request) s (fun _ _ => False) (fun e t => t = noted e s) := by
  simp only [transact, ensures_bind, ensures_get, ensures_lift, ensures_modify, ensures_tryCatch]
  refine ⟨?_, fun e _ => trivial⟩
  rintro ⟨publication, slot⟩ hreserve
  obtain ⟨hclosed, -⟩ := OrderedPublication.reserve_openReservation hreserve
  rw [hclosed] at hopen
  cases hopen

theorem Changed.inSequence (h : Changed request s t) (hsequence : s.db.durable.InSequence) :
    t.db.durable.InSequence := by
  obtain ⟨row, hrecorded⟩ := h.recorded
  exact hrecorded.inSequence hsequence

/-- **A turn evolves the durable tables.** -/
theorem commit_evolves (h : Idle s) :
    Ensures (commit limits request) s
      (fun result t => Idle t ∧ Evolves limits request s.db.durable t.db.durable ∧
        Answers limits request s t result)
      (fun _ t => Idle t ∧ Evolves limits request s.db.durable t.db.durable) := by
  rw [commit, ensures_bind]
  have hidle : ∀ {t : Writer}, Pruning (request.pruneAt - limits.maxAgeMs) (begun s) t → Idle t := by
    intro t hpruning
    refine ⟨hpruning.working, hpruning.tables.inSequence h.inSequence, ?_⟩
    rcases h.rests with hresting | hopen
    · exact .inl (hresting.pruning hpruning)
    · rw [hpruning.publication]
      exact .inr hopen
  refine (gated_spec h.working h.inSequence).mono ?_ ?_
  · rintro (_ | result) t ⟨⟨hpruning, hquiet⟩, hanswer⟩
    · rcases h.rests with hresting | hopen
      · have hadmitted := fun identity hid => (hanswer identity hid).2 hresting.ledger
        refine (transact_spec (hresting.pruning hpruning) hquiet hpruning.transactionOpen
          hpruning.committed fun identity hid => (hanswer identity hid).1).mono ?_ ?_
        · rintro result u ⟨hreplayed, hrests, hchanged, -⟩
          obtain ⟨row, hrecorded⟩ := hchanged.recorded
          refine ⟨hrests.idle, .executed _ hpruning.tables hadmitted ⟨_, row, hrecorded⟩
            hchanged.effects, ?_⟩
          intro identity hid
          exact .inr ⟨hreplayed, _, hpruning.tables, hadmitted identity hid⟩
        rintro e u hrejects
        cases hrejects with
        | released hrests hdurable | lost hrests hdurable =>
          exact ⟨hrests.idle, .pruned (hdurable ▸ hpruning.tables)⟩
        | stuck hstuck =>
          have hchanged := hstuck.changed
          obtain ⟨row, hrecorded⟩ := hchanged.recorded
          exact ⟨⟨hstuck.working, hchanged.inSequence (hidle hpruning).inSequence,
            .inr hstuck.reservation⟩, .executed _ hpruning.tables hadmitted ⟨_, row, hrecorded⟩
            hchanged.effects⟩
      have hblocked : t.publication.openReservation.isSome := by
        rw [hpruning.publication]
        exact hopen
      refine (transact_blocked hblocked).mono (fun _ _ h => h.elim) ?_
      rintro e u rfl
      exact ⟨hidle (hpruning.noted e), .pruned hpruning.tables⟩
    obtain ⟨identity, hid, row, hmem, hsession, hrequest, hreplay⟩ := hanswer
    refine ⟨hidle hpruning, .pruned hpruning.tables, ?_⟩
    intro other hother
    rw [hid] at hother
    obtain rfl := Option.mem_some_iff.1 hother
    exact .inl ⟨replay_replayed hreplay, row, hmem, hsession, hrequest, hreplay⟩
  · rintro e t ⟨hpruning, -⟩
    exact ⟨hidle hpruning, .pruned hpruning.tables⟩

/-! ## Nothing commits twice -/

/-- The pair of a request. -/
def IdempotencyIdentity.pair (identity : IdempotencyIdentity) : String × String :=
  (identity.sessionId, identity.requestId)

/-- No mutation committed twice, and each is still in the ledger, with a record completed no earlier
than the time of its id, or out of the admission window. -/
structure Once (maxAgeMs : Nat) (clock : Int) (tables : Tables) : Prop where
  nodup : tables.effects.Nodup
  remembered : ∀ pair ∈ tables.effects, ∀ createdAt, uuidV7Timestamp pair.2 = .ok createdAt →
    (∃ row ∈ tables.mutations, (row.sessionId, row.requestId) = pair ∧
      (createdAt : Int) ≤ row.completedAt) ∨ (createdAt : Int) < clock - maxAgeMs

/-- Pruning forgets only what has left the window. -/
theorem Once.pruned {now : Int} (h : Once maxAgeMs clock before)
    (hpruned : before.Pruned (now - maxAgeMs) after) (hclock : clock ≤ now) :
    Once maxAgeMs now after := by
  obtain ⟨gone, hgone, hold⟩ := hpruned.removed
  refine ⟨hpruned.effects ▸ h.nodup, ?_⟩
  intro pair hpair createdAt hcreated
  rw [hpruned.effects] at hpair
  rcases h.remembered pair hpair createdAt hcreated with ⟨row, hrow, hsame, hle⟩ | hlt
  · rw [hgone] at hrow
    rcases List.mem_append.1 hrow with hrow | hrow
    · have hexpired := hold row hrow
      exact .inr (by omega)
    · exact .inl ⟨row, hrow, hsame, hle⟩
  · exact .inr (by omega)

/-- New rows do not make anything forgotten. -/
theorem Once.append {rows : List StoredMutation} (h : Once maxAgeMs clock before)
    (hrows : after.mutations = before.mutations ++ rows) (heffects : after.effects = before.effects) :
    Once maxAgeMs clock after := by
  refine ⟨heffects ▸ h.nodup, ?_⟩
  intro pair hpair createdAt hcreated
  rw [heffects] at hpair
  rcases h.remembered pair hpair createdAt hcreated with ⟨row, hrow, hrest⟩ | hlt
  · refine .inl ⟨row, ?_, hrest⟩
    rw [hrows]
    exact List.mem_append_left _ hrow
  · exact .inr hlt

/-- A new mutation may commit together with a record that is completed late enough. -/
theorem Once.commit {row : StoredMutation} (h : Once maxAgeMs clock before)
    (hrow : row ∈ after.mutations) (hrows : before.mutations ⊆ after.mutations)
    (heffects : after.effects = before.effects ++ [(row.sessionId, row.requestId)])
    (hunseen : (row.sessionId, row.requestId) ∉ before.effects)
    (hcompleted : ∀ createdAt, uuidV7Timestamp row.requestId = .ok createdAt →
      (createdAt : Int) ≤ row.completedAt) : Once maxAgeMs clock after := by
  refine ⟨?_, ?_⟩
  · rw [heffects, List.nodup_append]
    refine ⟨h.nodup, List.nodup_singleton _, ?_⟩
    rintro pair hpair _ hsingle rfl
    rw [List.mem_singleton] at hsingle
    exact hunseen (hsingle ▸ hpair)
  rw [heffects]
  intro pair hpair createdAt hcreated
  rcases List.mem_append.1 hpair with hpair | hpair
  · rcases h.remembered pair hpair createdAt hcreated with ⟨old, hold, hrest⟩ | hlt
    · exact .inl ⟨old, hrows hold, hrest⟩
    · exact .inr hlt
  · rw [List.mem_singleton] at hpair
    subst hpair
    exact .inl ⟨row, hrow, rfl, hcompleted createdAt hcreated⟩

/-- What the gate admits has not committed. -/
theorem Once.unseen {tables : Tables} {identity : IdempotencyIdentity}
    (h : Once limits.maxAgeMs clock tables) (hclock : clock ≤ request.gateAt)
    (hadmitted : Admitted limits request identity tables) : identity.pair ∉ tables.effects := by
  intro hmem
  obtain ⟨createdAt, hcreated, -, hwindow⟩ := hadmitted.window
  rcases h.remembered _ hmem createdAt hcreated with ⟨row, hrow, hsame, -⟩ | hlt
  · exact hadmitted.unseen row hrow ⟨congrArg Prod.fst hsame, congrArg Prod.snd hsame⟩
  · omega

/-- The readings of a turn are in order, and not before the ones of the turns before it. -/
def OnTime (clock : Int) (request : CommitRequest) : Prop :=
  clock ≤ request.pruneAt ∧ request.pruneAt ≤ request.gateAt ∧ request.gateAt ≤ request.stageAt

/-- The time inside of the request's id is not ahead of the clock when its record is staged, unless
it is so far ahead that the gate rejects it. -/
def Punctual (request : CommitRequest) : Prop :=
  ∀ identity ∈ request.idempotency, ∀ createdAt,
    uuidV7Timestamp identity.requestId = .ok createdAt →
    (createdAt : Int) ≤ request.stageAt ∨
      request.gateAt + maxMutationClockSkewMs < (createdAt : Int)

/-- An admitted mutation commits with a record that is completed late enough. -/
theorem Once.executed {ledger : MutationReplayLedger} {row : Option StoredMutation}
    (h : Once limits.maxAgeMs request.stageAt before) (hpunctual : Punctual request)
    (hadmitted : ∀ identity ∈ request.idempotency,
      Admitted limits request identity before ∧ identity.pair ∉ before.effects)
    (hrecorded : Recorded request ledger before row after)
    (heffects : after.effects = (applyWork request before).effects) :
    Once limits.maxAgeMs request.stageAt after := by
  cases hid : request.idempotency with
  | none =>
    refine h.append hrecorded.rows ?_
    rw [heffects]
    simp [applyWork, hid]
  | some identity =>
    obtain ⟨hwindow, hunseen⟩ := hadmitted identity hid
    obtain ⟨staged, rfl, hpair⟩ : ∃ staged, row = some staged ∧
        (staged.sessionId, staged.requestId) = identity.pair := by
      have hpair := hrecorded.pair
      rw [hid, Option.map_some, Option.map_eq_some_iff] at hpair
      exact hpair
    have hrequest : staged.requestId = identity.requestId := congrArg Prod.snd hpair
    have hstaged : staged ∈ after.mutations := by
      rw [hrecorded.rows]
      exact List.mem_append_right _ (by simp)
    refine h.commit hstaged ?_ ?_ (hpair ▸ hunseen) ?_
    · rw [hrecorded.rows]
      exact List.subset_append_left _ _
    · rw [heffects, hpair]
      simp [applyWork, hid, IdempotencyIdentity.pair]
    intro createdAt hcreated
    rw [hrequest] at hcreated
    obtain ⟨admittedAt, hadmittedAt, hskew, -⟩ := hwindow.window
    have hsame := Except.ok.inj (hadmittedAt.symm.trans hcreated)
    have hcompleted := hrecorded.completed staged rfl
    rcases hpunctual identity hid createdAt hcreated with hle | hlt
    · exact hle.trans hcompleted
    · omega

/-- **A turn keeps it so.** -/
theorem Once.evolves (h : Once limits.maxAgeMs clock before) (htime : OnTime clock request)
    (hpunctual : Punctual request) (hevolves : Evolves limits request before after) :
    Once limits.maxAgeMs request.stageAt after := by
  obtain ⟨hprune, hgate, hstage⟩ := htime
  have hlater : ∀ {tables}, Once limits.maxAgeMs request.pruneAt tables →
      Once limits.maxAgeMs request.stageAt tables := fun h =>
    h.pruned (.refl _ _) (by omega)
  cases hevolves with
  | pruned hpruning => exact hlater (h.pruned hpruning hprune)
  | executed pruned hpruning hadmitted hrecorded heffects =>
    have honce := h.pruned hpruning hprune
    obtain ⟨ledger, row, hrecorded⟩ := hrecorded
    rcases heffects with heffects | heffects
    · exact (hlater honce).append hrecorded.rows heffects
    · refine (hlater honce).executed hpunctual ?_ hrecorded heffects
      intro identity hid
      exact ⟨hadmitted identity hid, honce.unseen hgate (hadmitted identity hid)⟩

/-! ## Runs -/

/-- The coordinator and the last reading of its clock. -/
structure Server where
  writer : Writer
  clock : Int

/-- A call of `execute` gets its turn. -/
def step (limits : Limits) (s : Server) (request : CommitRequest) : Option Server :=
  some { writer := (commit limits request s.writer).2, clock := request.stageAt }

/-- The clock does not go backwards. -/
def Forward (s : Server) (request : CommitRequest) : Prop := OnTime s.clock request

/-- Nor is the request ahead of it. -/
def Timely (s : Server) (request : CommitRequest) : Prop := Forward s request ∧ Punctual request

theorem commit_keeps (limits : Limits) (request : CommitRequest) (h : Idle s) :
    Idle (commit limits request s).2 ∧
      Evolves limits request s.db.durable (commit limits request s).2.db.durable := by
  have hspec : Ensures (commit limits request) s _ _ := commit_evolves h
  rcases hrun : commit limits request s with ⟨e | result, t⟩
  · exact hspec.of_error hrun
  · obtain ⟨hidle, hevolves, -⟩ := hspec.of_ok hrun
    exact ⟨hidle, hevolves⟩

/-- What a timely run keeps. -/
structure Sane (limits : Limits) (server : Server) : Prop where
  idle : Idle server.writer
  once : Once limits.maxAgeMs server.clock server.writer.db.durable

theorem sane_of_reachable {start : Server} (hstart : Resting start.writer)
    (hempty : start.writer.db.durable.effects = [])
    (hreach : Run.Reachable (step limits) Timely start server) : Sane limits server := by
  have hfirst : Sane limits start := ⟨hstart.idle, by simp [hempty], by simp [hempty]⟩
  refine hreach.induct hfirst ?_
  · rintro s request t - ⟨hidle, honce⟩ ⟨htime, hpunctual⟩ hstep
    cases hstep
    obtain ⟨hnext, hevolves⟩ := commit_keeps limits request hidle
    exact ⟨hnext, honce.evolves htime hpunctual hevolves⟩

/-- **At-most-once mutations.**  In every run of a clock that never goes backwards, in which no
admitted id is ahead of the clock at which its record is staged, no mutation has committed twice;
and a call for one that has committed replays the result of its record or is rejected. -/
theorem effects_nodup_of_reachable {start server : Server} (hstart : Resting start.writer)
    (hempty : start.writer.db.durable.effects = [])
    (hreach : Run.Reachable (step limits) Timely start server) :
    server.writer.db.durable.effects.Nodup ∧
      ∀ request, Forward server request → ∀ identity ∈ request.idempotency,
        identity.pair ∈ server.writer.db.durable.effects →
        ∀ result, (commit limits request server.writer).1 = .ok result →
          result.replayed = true ∧
            ReplayedFrom identity (commit limits request server.writer).2.db.durable result := by
  obtain ⟨hidle, honce⟩ := sane_of_reachable hstart hempty hreach
  refine ⟨honce.nodup, ?_⟩
  intro request htime identity hid hmem result hresult
  have hspec : Ensures (commit limits request) server.writer _ _ := commit_evolves hidle
  obtain ⟨-, -, hanswers⟩ := hspec.of_ok (Prod.ext hresult rfl)
  rcases hanswers identity hid with hreplayed | ⟨-, pruned, hpruned, hadmitted⟩
  · exact hreplayed
  obtain ⟨hprune, hgate, -⟩ := htime
  have hunseen := (honce.pruned hpruned hprune).unseen hgate hadmitted
  rw [hpruned.effects] at hunseen
  exact absurd hmem hunseen

/-- A mutation that is sent, or sent again, at a time. -/
def mutationAt (now : Int) : CommitRequest where
  idempotency := some sampleIdentity
  value := .null
  writeKeys := ["notes"]
  pruneAt := now
  gateAt := now
  stageAt := now

theorem forward_mutationAt (now : Int) (hclock : server.clock ≤ now) :
    Forward server (mutationAt now) := ⟨hclock, le_rfl, le_rfl⟩

theorem timely_mutationAt (now : Int) (hclock : server.clock ≤ now) (hahead : 300000 ≤ now) :
    Timely server (mutationAt now) := by
  refine ⟨forward_mutationAt now hclock, ?_⟩
  intro identity hid createdAt hcreated
  rw [← Option.mem_some_iff.1 hid] at hcreated
  have htime : uuidV7Timestamp sampleIdentity.requestId = .ok 300000 := by decide
  cases hcreated
  exact .inl hahead

/-- A mutation that is sent three times, the last time after its record expired. -/
theorem effects_nodup_resent :
    ∃ server, Run.Reachable (step sampleLimits) Timely ⟨freshWriter, 0⟩ server ∧
      server.clock = 86700001 ∧ server.writer.db.durable.effects = [sampleIdentity.pair] ∧
      server.writer.db.durable.effects.Nodup := by
  have hreach : Run.Reachable (step sampleLimits) Timely ⟨freshWriter, 0⟩ _ :=
    (((Run.Reachable.refl.step (timely_mutationAt 300000 (by decide) (by decide)) rfl).step
      (timely_mutationAt 300001 (by decide) (by decide)) rfl).step
      (timely_mutationAt 86700001 (by decide) (by decide)) rfl)
  exact ⟨_, hreach, rfl, by decide, (effects_nodup_of_reachable resting_freshWriter rfl hreach).1⟩

/-- A mutation whose id is five minutes ahead of the clock commits again a day later. -/
theorem effects_twice :
    ∃ server, Run.Reachable (step sampleLimits) Forward ⟨freshWriter, 0⟩ server ∧
      server.writer.db.durable.effects = [sampleIdentity.pair, sampleIdentity.pair] := by
  have hreach : Run.Reachable (step sampleLimits) Forward ⟨freshWriter, 0⟩ _ :=
    ((Run.Reachable.refl.step (forward_mutationAt 0 (by decide)) rfl).step
      (forward_mutationAt 86400001 (by decide)) rfl)
  exact ⟨_, hreach, by decide⟩

/-! ## Nothing is lost -/

/-- The effect of a request is durable, together with its record. -/
def Gains (request : CommitRequest) (before after : Tables) : Prop :=
  ∃ identity ∈ request.idempotency, after.effects = before.effects ++ [identity.pair] ∧
    ∃ row ∈ after.mutations, (row.sessionId, row.requestId) = identity.pair

theorem Evolves.gains (h : Evolves limits request before after) :
    after.effects = before.effects ∨ Gains request before after := by
  cases h with
  | pruned hpruning => exact .inl hpruning.effects
  | executed pruned hpruning _ hrecorded heffects =>
    rw [applyWork, hpruning.effects] at heffects
    obtain ⟨_, _, hrecorded⟩ := hrecorded
    have hpair := hrecorded.pair
    cases hid : request.idempotency with
    | none => exact .inl (by simpa [hid] using heffects)
    | some identity =>
      rw [hid, Option.map_some, Option.map_eq_some_iff] at hpair
      obtain ⟨row, rfl, hpair⟩ := hpair
      rw [hid] at heffects
      exact heffects.imp_right fun heffects =>
        ⟨identity, hid, heffects, row, by simp [hrecorded.rows], hpair⟩

end Coordinator

end AckerDB
