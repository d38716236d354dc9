import AckerDB.Subscriptions.Reactive.Changes

/-!
# Versions only grow

An entry takes over an evaluation only at the committed high-water, so its version is never
beyond the high-water and never goes back, and what it retains leads from an older version to a
newer one.

* `Dated` — the versions of a state;
* `Grows` — how they differ in a later state.
-/

namespace AckerDB

open Protocol Function

namespace Reactive

/-- What is known of the versions of a state. -/
structure Dated (s : State) : Prop where
  wellFormed : s.publication.WellFormed
  version : ∀ e, (s.entries e).commitVersion ≤ s.highWater
  record : ∀ e, ∀ record ∈ s.history.streams e, record.fromVersion < record.toVersion

/-- No entry goes back to an older version. -/
structure Grows (s t : State) : Prop where
  count : s.entryCount ≤ t.entryCount
  version : ∀ e < s.entryCount, (s.entries e).commitVersion ≤ (t.entries e).commitVersion

theorem dated_initial (options : ReactiveOptions) : Dated (initial options) where
  wellFormed := OrderedPublication.wellFormed_initial _ _
  version := fun _ => Nat.zero_le _
  record := by simp [initial]

section Changes

variable {options : ReactiveOptions} {event : Event} {s t u : State}

theorem Grows.refl (s : State) : Grows s s := ⟨le_rfl, fun _ _ => le_rfl⟩

theorem Grows.trans (h : Grows s t) (h' : Grows t u) : Grows s u :=
  ⟨h.count.trans h'.count, fun e he =>
    (h.version e he).trans (h'.version e (Nat.lt_of_lt_of_le he h.count))⟩

theorem Grows.of_eq (hcount : t.entryCount = s.entryCount)
    (hversion : ∀ e, (t.entries e).commitVersion = (s.entries e).commitVersion) : Grows s t :=
  ⟨hcount.ge, fun e _ => (hversion e).ge⟩

/-- A change that leaves every version alone. -/
theorem Dated.congr (h : Dated s) (hpublication : t.publication = s.publication)
    (hcount : t.entryCount = s.entryCount)
    (hversion : ∀ e, (t.entries e).commitVersion = (s.entries e).commitVersion)
    (hhistory : ∀ e, ∀ record ∈ t.history.streams e, record ∈ s.history.streams e) :
    Dated t ∧ Grows s t := by
  refine ⟨⟨hpublication ▸ h.wellFormed, fun e => ?_, fun e record hmem => ?_⟩,
    .of_eq hcount hversion⟩
  · rw [hversion e, State.highWater, hpublication]
    exact h.version e
  · exact h.record e record (hhistory e record hmem)

theorem version_update {e : Nat} {entry : QueryEntry}
    (hsame : entry.commitVersion = (s.entries e).commitVersion) (other : Nat) :
    (update s.entries e entry other).commitVersion = (s.entries other).commitVersion :=
  (forall_update_iff s.entries fun i new => new.commitVersion = (s.entries i).commitVersion).2
    ⟨hsame, fun _ _ => rfl⟩ other

theorem installResult_record {uid id : Nat} {entry : QueryEntry} {history : TransitionHistory}
    {evaluated : QueryEvaluation} {resultBytes : Nat} {fresh : String} {now : Int} {e : Nat}
    {record : HistoryRecord} (hmem : record ∈
      (installResult uid id entry history evaluated resultBytes fresh now).history.streams e) :
    record ∈ history.streams e ∨
      (entry.initialized = true ∧ entry.commitVersion < evaluated.commitVersion ∧ e = id ∧
        record = historyRecord uid id entry evaluated resultBytes now) := by
  unfold installResult at hmem
  split at hmem
  · rename_i hadvances
    split at hmem <;> rename_i heq
    all_goals
      have hretained := @TransitionHistory.mem_retain history
        (historyRecord uid id entry evaluated resultBytes now) record e
      rw [heq] at hretained
      rcases hretained hmem with hold | hnew
      · exact .inl hold
      · exact .inr ⟨hadvances.1, hadvances.2, hnew.2, hnew.1⟩
  · exact .inl hmem

theorem Dated.install (h : Dated s) {e : Nat} {evaluated : QueryEvaluation} (now : Int)
    (hversion : evaluated.commitVersion = s.highWater) :
    Dated (s.install options e evaluated now) ∧ Grows s (s.install options e evaluated now) := by
  obtain ⟨generation, hentries⟩ := s.install_entries options e evaluated now
  refine ⟨⟨h.wellFormed, ?_, ?_⟩, le_rfl, ?_⟩
  · rw [hentries]
    exact (forall_update_iff s.entries fun _ entry => entry.commitVersion ≤ s.highWater).2
      ⟨hversion.le, fun other _ => h.version other⟩
  · intro other record hmem
    rcases installResult_record hmem with hold | ⟨-, hadvances, -, rfl⟩
    · exact h.record other record hold
    · exact hadvances
  intro other _
  rw [hentries]
  by_cases hother : other = e
  · subst hother
    rw [update_self]
    exact (h.version other).trans hversion.ge
  · rw [update_of_ne hother]

theorem Dated.addEntry (h : Dated s) (key : QueryKey) :
    Dated (s.addEntry options key) ∧ Grows s (s.addEntry options key) := by
  refine ⟨⟨h.wellFormed, ?_, h.record⟩, Nat.le_succ _, ?_⟩
  · exact (forall_update_iff s.entries fun _ entry => entry.commitVersion ≤ s.highWater).2
      ⟨Nat.zero_le _, fun e _ => h.version e⟩
  · intro e he
    simp only [State.addEntry, update_of_ne (Nat.ne_of_lt he)]
    exact le_rfl

/-- **Every change keeps the versions in order.** -/
theorem Dated.change (h : Dated s) (hchange : Change options event s t) : Dated t ∧ Grows s t := by
  cases hchange with
  | publication _ _ _ _ hpublication =>
    obtain ⟨hwellFormed, hwater⟩ := hpublication h.wellFormed
    exact ⟨⟨hwellFormed, fun e => (h.version e).trans hwater, h.record⟩, .of_eq rfl fun _ => rfl⟩
  | calls | subscribe | setCall | report | setReport | sent | sendFailed | resumeDelivery
  | deliver | tell | attachEvent | offer | tellEvent | finishEvent | settleEvent =>
    exact h.congr rfl rfl (fun _ => rfl) fun _ _ => id
  | mark | start | submit | releaseEntry | attach =>
    exact h.congr rfl rfl (version_update rfl) fun _ _ => id
  | addEntry key => exact h.addEntry key
  | unlink =>
    exact h.congr rfl rfl (version_update rfl) fun _ _ hmem => TransitionHistory.mem_clear hmem
  | install _ e _ _ _ evaluated now _ _ _ hencoded hversion =>
      obtain ⟨hdated, hgrows⟩ := @Dated.install options s h e evaluated now
        ((encodeExecution_eq_ok hencoded).2.1.trans hversion)
      exact ⟨{ hdated with }, hgrows.count, hgrows.version⟩
  | pruneHistory =>
    exact h.congr rfl rfl (fun _ => rfl) fun _ _ hmem => TransitionHistory.mem_prune hmem
  | detach =>
    unfold State.detach
    dsimp only
    split
    · exact h.congr rfl rfl (version_update rfl) fun _ _ => id
    · exact ⟨h, .refl s⟩
  | reset =>
    unfold State.reset
    split
    · exact ⟨h, .refl s⟩
    · exact ⟨h, .refl s⟩
    · exact h.congr rfl rfl (fun _ => rfl) fun _ _ hmem => hmem
  | detachEvent =>
    unfold State.detachEvent
    dsimp only
    split
    · exact h.congr rfl rfl (fun _ => rfl) fun _ _ => id
    · exact ⟨h, .refl s⟩

theorem Dated.changes (h : Dated s) (hchanges : Changes options event s t) :
    Dated t ∧ Grows s t := by
  induction hchanges with
  | refl => exact ⟨h, .refl s⟩
  | tail _ hlast ih =>
    obtain ⟨hdated, hgrows⟩ := ih.1.change hlast
    exact ⟨hdated, ih.2.trans hgrows⟩

end Changes

theorem dated_of_reachable {options : ReactiveOptions} {guard : State → Event → Prop} {s : State}
    (hreach : Run.Reachable (step options) guard (initial options) s) : Dated s :=
  invariant_of_changes hreach (dated_initial options) fun _ _ _ _ h hchange => (h.change hchange).1

end Reactive

end AckerDB
