import AckerDB.Subscriptions.Reactive.Freshness

/-!
# No subscription stays stale

Commits go on while queries are evaluated, read sets change when a result is
installed, and one evaluation serves many triggers.  Still no live entry is left
behind: it holds the outcome of the newest commit, or a commit it has not seen is
yet to be processed, or an evaluation for it is in flight.

* `Fresh.step` — every turn keeps the invariant;
* `outcome_current_or_pending` — the theorem.
-/

namespace AckerDB

open Protocol Function List

namespace Reactive

variable {publication : OrderedPublication ReactiveCommit} {convergence : Convergence}
  {entries : List Nat} {s : State}

section Steps

variable {options : ReactiveOptions} {oracle : Oracle} {s t : State}

variable {version e c task : Nat} {now : Int}

/-! ## Publications -/

theorem Fresh.setPublication (h : Fresh options oracle none s) (hwf : publication.WellFormed)
    (hcarries : publication.Carries s.commits)
    (hwater : publication.committedHighWater = s.highWater) :
    Fresh options oracle none { s with publication } where
  __ := h
  wellFormed := hwf
  carries := hcarries
  start := h.start.trans hwater.ge
  processed := fun w hw => (h.processed w hw).trans hwater.ge
  converging := fun c hc => (h.converging c hc).trans hwater.ge
  entry := by
    intro e hlive
    have hold := h.entry e hlive
    exact { hold with
        version_le := hold.version_le.trans hwater.ge
        dirty_le := hold.dirty_le.trans hwater.ge }

theorem Fresh.commit {id : Nat} {published : ReactiveCommit} (h : Fresh options oracle none s)
    (hcommit : s.publication.commitSlot id published = .ok publication) :
    Fresh options oracle none { s with
      publication
      commits := update s.commits publication.committedHighWater published } := by
  obtain ⟨hwf, -, -, hwater⟩ := h.wellFormed.commitSlot hcommit
  have hnext : publication.committedHighWater = s.highWater + 1 := hwater
  refine ⟨hwf, h.carries.commitSlot h.wellFormed hcommit, ?_, ?_, h.unused, h.idle, h.known,
    ?_, h.rejected, ?_, h.owner⟩
  · show options.initialVersion ≤ publication.committedHighWater
    have hstart := h.start
    omega
  · intro w hw
    show w ≤ publication.committedHighWater
    have hle := h.processed w hw
    omega
  · intro c hc
    show c.minimumVersion ≤ publication.committedHighWater
    have hle := h.converging c hc
    omega
  · intro e hlive
    have hold := h.entry e hlive
    have hle : s.highWater ≤ publication.committedHighWater := by omega
    refine { hold with
        version_le := hold.version_le.trans hle
        dirty_le := hold.dirty_le.trans hle
        marked := ?_ }
    intro hinit w hw hlt hhit
    have hne : w ≠ publication.committedHighWater := by
      have hprocessed := h.processed w hw
      omega
    simp only [State.writes, update_of_ne hne] at hhit
    exact hold.marked hinit w hw hlt hhit

/-- What `ensureCurrent` does to the entries: it raises a mark and may name an evaluation. -/
theorem ensureCurrent_entries (s : State) (e target : Nat) :
    ∃ evaluation, (s.ensureCurrent e target).1.entries = update s.entries e
      { s.entries e with
        dirtyVersion := max (s.entries e).dirtyVersion target
        evaluation := evaluation } := by
  unfold State.ensureCurrent
  dsimp only
  split
  · exact ⟨(s.entries e).evaluation, rfl⟩
  split
  · exact ⟨(s.entries e).evaluation, rfl⟩
  · refine ⟨some s.evaluationCount, ?_⟩
    simp only [State.submit, State.raiseDirty, State.setEntry, update_self,
      update_idem]

/-- Marks were raised, and nothing else changed that the marks are about. -/
structure Raises (s t : State) : Prop where
  publication : t.publication = s.publication
  writes : t.writes = s.writes
  removed : ∀ e, (t.entries e).removed = (s.entries e).removed
  version : ∀ e, (t.entries e).commitVersion = (s.entries e).commitVersion
  readSet : ∀ e, (t.entries e).readSet = (s.entries e).readSet
  dirty : ∀ e, (s.entries e).dirtyVersion ≤ (t.entries e).dirtyVersion

theorem Raises.refl (s : State) : Raises s s :=
  ⟨rfl, rfl, fun _ => rfl, fun _ => rfl, fun _ => rfl, fun _ => le_rfl⟩

theorem Raises.trans {t u : State} (h : Raises s t) (h' : Raises t u) : Raises s u where
  publication := h'.publication.trans h.publication
  writes := h'.writes.trans h.writes
  removed := fun e => (h'.removed e).trans (h.removed e)
  version := fun e => (h'.version e).trans (h.version e)
  readSet := fun e => (h'.readSet e).trans (h.readSet e)
  dirty := fun e => (h.dirty e).trans (h'.dirty e)

theorem ensureCurrent_publication (s : State) (e target : Nat) :
    (s.ensureCurrent e target).1.publication = s.publication ∧
      (s.ensureCurrent e target).1.writes = s.writes := by
  unfold State.ensureCurrent
  dsimp only
  split
  · exact ⟨rfl, rfl⟩
  · split <;> exact ⟨rfl, rfl⟩

theorem Raises.ensureCurrent (s : State) (e target : Nat) :
    Raises s (s.ensureCurrent e target).1 ∧
      target ≤ ((s.ensureCurrent e target).1.entries e).dirtyVersion := by
  obtain ⟨evaluation, hentries⟩ := ensureCurrent_entries s e target
  obtain ⟨hpublication, hwrites⟩ := ensureCurrent_publication s e target
  have hother : ∀ other, other ≠ e → (s.ensureCurrent e target).1.entries other = s.entries other := by
    intro other he
    rw [hentries, update_of_ne he]
  have hself := congrFun hentries e
  rw [update_self] at hself
  refine ⟨⟨hpublication, hwrites, ?_, ?_, ?_, ?_⟩, by rw [hself]; exact le_max_right _ _⟩
  all_goals
    intro other
    by_cases he : other = e
    · subst he
      simp [hself]
    · simp [hother other he]

/-! ## The turns -/

theorem Fresh.revalidate (h : Fresh options oracle none s) (hle : version ≤ s.highWater) :
    Fresh options oracle none (State.revalidate version s e) := by
  unfold State.revalidate
  split
  · exact h
  rename_i hcond
  simp only [Bool.or_eq_true, decide_eq_true_eq, not_or, Bool.not_eq_true, not_le] at hcond
  have hself : ((s.raiseDirty e version).entries e).removed = (s.entries e).removed ∧
      ((s.raiseDirty e version).entries e).commitVersion = (s.entries e).commitVersion := by
    simp only [State.raiseDirty, State.setEntry, update_self, and_self]
  refine ((h.mayLag e).raiseDirty hle).ensureCurrent (hself.1.trans hcond.1) hle ?_
  intro _ _ hreached
  rw [hself.2] at hreached
  exact absurd hcond.2 (Nat.not_lt_of_le hreached)

theorem Raises.raiseDirty (s : State) (e version : Nat) : Raises s (s.raiseDirty e version) := by
  refine ⟨rfl, rfl, ?_, ?_, ?_, ?_⟩
  all_goals
    intro other
    by_cases he : other = e
    · subst he
      simp [State.raiseDirty, State.setEntry]
    · simp [State.raiseDirty, State.setEntry, update_of_ne he]

theorem Raises.revalidate (version : Nat) (s : State) (e : Nat) :
    Raises s (State.revalidate version s e) := by
  unfold State.revalidate
  split
  · exact refl s
  · exact (raiseDirty s e version).trans (ensureCurrent _ e version).1

theorem Raises.foldl_revalidate (version : Nat) (s : State) (entries : List Nat) :
    Raises s (entries.foldl (State.revalidate version) s) := by
  induction entries generalizing s with
  | nil => exact refl s
  | cons e rest ih => exact (revalidate version s e).trans (ih _)

/-- After its turn, an affected entry is marked with the version. -/
theorem revalidate_marks (hlive : (s.entries e).removed = false)
    (hbehind : (s.entries e).commitVersion < version) :
    version ≤ ((State.revalidate version s e).entries e).dirtyVersion := by
  unfold State.revalidate
  rw [if_neg (by simpa [hlive] using hbehind)]
  exact (Raises.ensureCurrent (s.raiseDirty e version) e version).2

theorem foldl_revalidate_marks (hmem : e ∈ entries) (hlive : (s.entries e).removed = false)
    (hbehind : (s.entries e).commitVersion < version) :
    version ≤ ((entries.foldl (State.revalidate version) s).entries e).dirtyVersion := by
  induction entries generalizing s with
  | nil => cases hmem
  | cons first rest ih =>
    have hstep := Raises.revalidate version s first
    rcases mem_cons.1 hmem with rfl | hrest
    · exact (revalidate_marks hlive hbehind).trans
        ((Raises.foldl_revalidate version _ rest).dirty e)
    · exact ih hrest ((hstep.removed e).trans hlive) (by rw [hstep.version e]; exact hbehind)

section

variable (h : Fresh options oracle none s)

include h

theorem Fresh.foldl_revalidate (hle : version ≤ s.highWater) :
    Fresh options oracle none (entries.foldl (State.revalidate version) s) := by
  induction entries generalizing s with
  | nil => exact h
  | cons e rest ih =>
    refine ih (h.revalidate hle) ?_
    rw [State.highWater, (Raises.revalidate version s e).publication]
    exact hle

/-- Every entry that the commit touched is marked once it is processed. -/
theorem Fresh.marksProcessed (hle : version ≤ s.highWater) :
    Fresh options oracle none
      { (s.affected (s.writes version)).foldl (State.revalidate version) s with
        processed := ((s.affected (s.writes version)).foldl (State.revalidate version) s).processed ++
          [version] } := by
  have hfold : Fresh options oracle none
      ((s.affected (s.writes version)).foldl (State.revalidate version) s) :=
    h.foldl_revalidate hle
  have hraises := Raises.foldl_revalidate version s (s.affected (s.writes version))
  have hwater : (State.highWater ((s.affected (s.writes version)).foldl
      (State.revalidate version) s)) = s.highWater := by
    rw [State.highWater, hraises.publication]
    rfl
  refine { hfold with processed := ?_, entry := ?_ }
  · exact forall_mem_append.2 ⟨hfold.processed, forall_mem_singleton.2 (hle.trans hwater.ge)⟩
  intro e hlive
  have hold := hfold.entry e hlive
  refine { hold with marked := ?_ }
  intro hinit w hw hlt hhit
  rcases mem_append.1 hw with hw | hw
  · exact hold.marked hinit w hw hlt hhit
  -- the version just processed: the entry was affected
  rw [mem_singleton] at hw
  subst hw
  have hbefore : (s.entries e).removed = false := (hraises.removed e).symm.trans hlive
  have hbehind : (s.entries e).commitVersion < w := by
    rw [← hraises.version e]
    exact hlt
  refine foldl_revalidate_marks (mem_filter.2 ⟨?_, ?_⟩) hbefore hbehind
  · refine mem_filter.2 ⟨mem_range.2 ?_, by simp [hbefore]⟩
    by_contra hge
    rw [h.unused e (Nat.le_of_not_lt hge)] at hbefore
    cases hbefore
  obtain ⟨k, hk, hread⟩ := hhit
  rw [any_eq_true]
  refine ⟨k, (hraises.readSet e) ▸ hread, decide_eq_true ?_⟩
  rw [← hraises.writes]
  exact hk

/-- **`processPublication`** marks every entry that the commit touched. -/
theorem Fresh.processPublication (hle : version ≤ s.highWater) :
    Fresh options oracle none (s.processPublication version (s.commits version)) := by
  have hkeeps := Keeps.scheduleEvents
    ((s.affected (s.writes version)).foldl (State.revalidate version) s) version
    (s.commits version).events
  refine (h.marksProcessed hle).keeps { hkeeps with processed := ?_ }
  exact congrArg (· ++ [version]) hkeeps.processed

theorem Fresh.publish (hpublish : s.publish = some t) :
    Fresh options oracle none t := by
  simp only [State.publish, Option.bind_eq_bind, Option.bind_eq_some_iff] at hpublish
  obtain ⟨⟨publication, slot⟩, hstart, hnext⟩ := hpublish
  cases hnext
  obtain ⟨hwf, -, hwater, -⟩ := h.wellFormed.startScheduled hstart
  obtain ⟨hcarries, hvalue, hle⟩ := h.carries.startScheduled hstart
  have hstarted := h.setPublication hwf hcarries hwater
  have hprocessed := hstarted.processPublication (hle.trans hwater.ge)
  rw [hvalue]
  exact hprocessed.setPublication hprocessed.wellFormed.handedOff
    (hprocessed.carries.handedOff hprocessed.wellFormed) (by simp [State.highWater])

theorem Fresh.settle {id : Nat} {failed : Bool} {now : Int}
    (hsettle : s.settle options id failed now = some t) : Fresh options oracle none t := by
  simp only [State.settle, Option.bind_eq_bind, Option.bind_eq_some_iff] at hsettle
  obtain ⟨slot, hslot, hnext⟩ := hsettle
  split at hnext
  · rename_i hstate
    cases hnext
    have hmem : slot ∈ s.publication.slots := mem_of_find?_eq_some hslot
    have hne := h.wellFormed.processing_ne_open hmem hstate.1
    have hpruned : Fresh options oracle none (if failed then s else s.prune options now) ∧
        (if failed then s else s.prune options now).publication = s.publication := by
      split
      · exact ⟨h, rfl⟩
      · exact ⟨h.keeps (.retires (.prune options s now)), (Keeps.retires (.prune options s now)).publication⟩
    obtain ⟨hfresh, hpublication⟩ := hpruned
    refine hfresh.setPublication (hfresh.wellFormed.settle ?_ failed)
      (hfresh.carries.settle hfresh.wellFormed ?_ failed) (by simp [State.highWater])
    all_goals
      rw [hpublication]
      exact hne
  · cases hnext

theorem Fresh.entryFor (key : QueryKey) (now : Int) :
    Fresh options oracle none (s.entryFor options key now).1 := by
  unfold State.entryFor
  split
  · exact h
  split <;> rename_i heq
  · have hroom := h.keeps (.retires (.makeEntryCapacity options s now))
    rw [heq] at hroom
    exact hroom.addEntry key
  · have hroom := h.keeps (.retires (.makeEntryCapacity options s now))
    rw [heq] at hroom
    exact hroom

theorem Fresh.awaitCurrent (c : Nat) (call : SubscribeCall) :
    Fresh options oracle none (s.awaitCurrent c call) := by
  unfold State.awaitCurrent
  split
  · exact h.keeps (.rejectCall s c call)
  · rename_i hlive
    have hlive' : (s.entries call.entry).removed = false := by simpa using hlive
    exact (h.ensureCurrent_of_fresh hlive' le_rfl).keeps (.setCall _ c _)

theorem Fresh.enterCall (c : Nat) (call : SubscribeCall)
    (now : Int) : Fresh options oracle none (s.enterCall options c call now) := by
  have hfor := h.entryFor call.key now
  unfold State.enterCall
  split <;> rename_i heq <;> rw [heq] at hfor
  · exact hfor.awaitCurrent c _
  · exact hfor.keeps (.rejectCall _ c call)

theorem Fresh.subscribeQuery (subscriber id : Nat)
    (address : String) (args : JsValue) (fingerprint : String) (authEpoch : Nat)
    (cursor : Option SubscriptionCursor) (now : Int) :
    Fresh options oracle none
      (s.subscribeQuery options subscriber id address args fingerprint authEpoch cursor now) := by
  unfold State.subscribeQuery
  split
  · exact h
  split
  · exact h
  rename_i encodedArgs _
  have hfor := h.entryFor ⟨address, encodedArgs, fingerprint⟩ now
  dsimp only
  split <;> rename_i heq <;> rw [heq] at hfor
  · exact hfor
  · refine Fresh.awaitCurrent (hfor.keeps ?_) _ _
    exact ⟨rfl, rfl, rfl, rfl, rfl, rfl, rfl, fun _ => .inr rfl⟩

theorem Fresh.resumeSubscribe
    (hstep : s.resumeSubscribe options c now = some t) : Fresh options oracle none t := by
  obtain ⟨call, _, rfl | rfl | rfl | ⟨_, _, rfl⟩⟩ := resumeSubscribe_cases hstep
  · exact h.keeps (.rejectCall s c call)
  · exact h.enterCall c call now
  · exact h.awaitCurrent c call
  · exact h.keeps (.establish options s c call)

/-! ## Convergence -/

theorem Fresh.setConvergences {convergences : List Convergence}
    (hle : ∀ c ∈ convergences, c.minimumVersion ≤ s.highWater) :
    Fresh options oracle none { s with convergences } where
  __ := h
  converging := hle
  entry := by
    intro e hlive
    have hold := h.entry e hlive
    exact hold.congr rfl rfl rfl hold.owned

theorem Fresh.setConvergence (c : Nat) (hle : convergence.minimumVersion ≤ s.highWater) :
    Fresh options oracle none (s.setConvergence c convergence) := by
  refine h.setConvergences ?_
  intro other hother
  rcases mem_or_eq_of_mem_set hother with hother | rfl
  · exact h.converging other hother
  · exact hle

theorem Fresh.convergeNext (hle : convergence.minimumVersion ≤ s.highWater)
    (hstep : s.convergeNext options c convergence = some t) : Fresh options oracle none t := by
  obtain ⟨u, next, hnext, rfl, hcases⟩ := convergeNext_cases hstep
  rw [← hnext] at hle hcases
  have hself : ∀ e, (s.raiseDirty e next.minimumVersion).entries e = { s.entries e with
      dirtyVersion := max (s.entries e).dirtyVersion next.minimumVersion } := by
    simp only [State.raiseDirty, State.setEntry, update_self, implies_true]
  rcases hcases with ⟨e, hremoved, rfl⟩ | ⟨e, hlive, rfl⟩ | ⟨_, l, _, rfl⟩
  · refine Fresh.setConvergence (((h.mayLag e).raiseDirty hle).caughtUp fun hlive => ?_) c hle
    rw [hself, hremoved] at hlive
    cases hlive
  · have hensured := ((h.mayLag e).raiseDirty hle).ensureCurrent (by rw [hself, hlive]) hle (by
      rw [hself]
      intro hinit hbehind hreached
      refine (h.entry e hlive).evaluating (by simp) hinit ?_
      rcases lt_max_iff.1 hbehind with hlt | hlt
      · exact hlt
      · exact absurd hreached (Nat.not_le_of_lt hlt))
    refine hensured.setConvergence c ?_
    rw [State.highWater, (ensureCurrent_publication _ e _).1]
    exact hle
  · exact (h.keeps (.deliverTo options s l false false)).setConvergence c hle

theorem Fresh.resumeConverge
    (hstep : s.resumeConverge options c = some t) : Fresh options oracle none t := by
  obtain ⟨convergence, hfound, hnext | ⟨e, _, error, failed, _, wait, _, _, heq, rfl⟩⟩ :=
    resumeConverge_cases hstep
  · exact h.convergeNext (h.converging convergence (mem_of_getElem? hfound)) hnext
  have hkeeps := Keeps.failEntry options s e error
  rw [heq] at hkeeps
  refine (h.keeps hkeeps).setConvergence c ?_
  rw [State.highWater, hkeeps.publication]
  exact h.converging convergence (mem_of_getElem? hfound)

theorem Fresh.converge (subscriber minimumVersion : Nat) :
    Fresh options oracle none (s.converge options subscriber minimumVersion) := by
  unfold State.converge
  split
  · exact h
  rename_i hle
  rw [not_lt] at hle
  have hcalled : Fresh options oracle none
      (s.addConvergence (s.convergenceFor subscriber minimumVersion)) := by
    refine h.setConvergences ?_
    exact forall_mem_append.2 ⟨h.converging, forall_mem_singleton.2 hle⟩
  dsimp only
  cases hnext : (s.addConvergence (s.convergenceFor subscriber minimumVersion)).convergeNext
      options s.convergences.length (s.convergenceFor subscriber minimumVersion) with
  | none => exact hcalled
  | some t => exact hcalled.convergeNext hle hnext

/-! ## Evaluations -/

/-- **An installation at the high-water** brings the entry up to date. -/
theorem Fresh.installEvaluation {e : Nat} {result : Result} {readSet : List String}
    {evaluation : QueryEvaluation} {now : Int}
    (hencode : encodeExecution result readSet s.highWater = .ok evaluation)
    (hresult : result = oracle.outcome (s.entries e).key s.highWater)
    (hreads : ∀ k, k ∈ readSet ↔ k ∈ oracle.readSet (s.entries e).key s.highWater) :
    Fresh options oracle none (s.installEvaluation options e evaluation now).1 := by
  obtain ⟨hreadSet, hversion, houtcome⟩ := encodeExecution_eq_ok hencode
  have hkeeps := Keeps.retires (.makeResultCapacity options s e (options.byteLength evaluation.encoded))
  have hroom := h.keeps hkeeps
  unfold State.installEvaluation
  dsimp only
  split
  · rename_i room _ heq
    rw [heq] at hroom
    exact hroom.keeps (.retires (.removeEntry room e))
  rename_i room heq
  rw [heq] at hkeeps hroom
  dsimp only at hkeeps hroom
  have hwater : room.highWater = s.highWater := by rw [State.highWater, hkeeps.publication]; rfl
  obtain ⟨generation, hentry⟩ := installResult_entry room.records e (room.entries e) room.history
    evaluation (options.byteLength evaluation.encoded) (room.fresh options) now
  rw [hentry]
  have hset : Fresh options oracle none (room.setEntry e ((room.entries e).take evaluation
      (options.byteLength evaluation.encoded) generation)) := by
    refine hroom.setEntry rfl rfl ?_ (fun _ _ hne => hne)
    intro hlive
    have hkey : (room.entries e).key = (s.entries e).key := by
      rw [(hkeeps.live hlive).2]
    have hold := hroom.entry e hlive
    have hcommit := hversion.trans hwater.symm
    refine ⟨hcommit.le, hold.dirty_le, ?_, ?_, ?_, ?_, ?_, hold.owned⟩
    · intro _
      exact hroom.start.trans hcommit.ge
    · intro _
      rw [houtcome]
      show result = oracle.outcome (room.entries e).key evaluation.commitVersion
      rw [hkey, hversion, hresult]
    · intro _ k
      show k ∈ evaluation.readSet ↔ k ∈ oracle.readSet (room.entries e).key evaluation.commitVersion
      rw [hreadSet, hkey, hversion]
      exact hreads k
    · intro _ w hw hlt _
      have hle := hroom.processed w hw
      have hlt' : evaluation.commitVersion < w := hlt
      omega
    · intro _ _ hbehind
      have hle := hold.dirty_le
      have hlt' : evaluation.commitVersion < (room.entries e).dirtyVersion := hbehind
      omega
  exact hset.keeps ⟨rfl, rfl, rfl, rfl, rfl, rfl, rfl, fun _ => .inr rfl⟩

/-- An evaluation in flight goes on after a turn that left the queries alone. -/
theorem Fresh.keepsPhase {task : Nat} {phase : EvaluationPhase}
    (hflight : (s.evaluations task).phase.InFlight) (hkeeps : Keeps s t) (hafter : phase.InFlight)
    (hrejected : phase.Rejected → (t.entries (s.evaluations task).entry).removed = true := by
      exact False.elim) :
    Fresh options oracle none (t.setPhase task phase) := by
  refine (h.keeps hkeeps).setPhase ?_ hafter ?_
  · rw [hkeeps.evaluations]
    exact hflight
  · rw [hkeeps.evaluations]
    exact hrejected

theorem Fresh.startEvaluation
    (hstep : s.startEvaluation task = some t) : Fresh options oracle none t := by
  unfold State.startEvaluation at hstep
  dsimp only at hstep
  split at hstep
  · cases hstep
  rename_i hqueued
  rw [not_not] at hqueued
  have hflight : (s.evaluations task).phase.InFlight := by
    rw [hqueued]
    trivial
  split at hstep
  · cases hstep
    exact h.setPhase hflight trivial
  split at hstep
  · cases hstep
    refine Fresh.setPhase (h.setEntry rfl rfl ?_ (fun _ _ hne => hne)) hflight trivial
    intro hlive
    have hold := h.entry _ hlive
    exact { hold with }
  · cases hstep
    exact h.setPhase hflight trivial

theorem Fresh.failEvaluation {error : Thrown}
    (hstep : s.failEvaluation task error = some t) : Fresh options oracle none t := by
  unfold State.failEvaluation at hstep
  split at hstep
  · rename_i hmay
    cases hstep
    refine h.setPhase ?_ trivial
    cases hphase : (s.evaluations task).phase <;> rw [hphase] at hmay <;> trivial
  · cases hstep

/-- The end of an evaluation raises the mark to the high-water: the evaluation is in flight. -/
theorem Fresh.closeEvaluation (hflight : (s.evaluations task).phase.InFlight) :
    Fresh options oracle none (s.closeEvaluation task) := by
  have hself : (s.raiseDirty (s.evaluations task).entry s.highWater).entries
      (s.evaluations task).entry = { s.entries (s.evaluations task).entry with
        dirtyVersion := max (s.entries (s.evaluations task).entry).dirtyVersion s.highWater } := by
    simp only [State.raiseDirty, State.setEntry, update_self]
  have hraised : Fresh options oracle none
      (s.raiseDirty (s.evaluations task).entry s.highWater) := by
    refine ((h.mayLag _).raiseDirty le_rfl).caughtUp fun hlive _ _ => ?_
    rw [hself] at hlive ⊢
    simp only [h.owner task hflight hlive, Option.isSome_some]
  unfold State.closeEvaluation
  dsimp only
  split <;> exact hraised.setPhase hflight trivial

theorem Fresh.afterInstall
    (hflight : (s.evaluations task).phase.InFlight) (outcome : State.InstallOutcome) :
    Fresh options oracle none (s.afterInstall options task outcome) := by
  unfold State.afterInstall
  split
  · exact h.setPhase hflight trivial
  · exact h.keepsPhase hflight (.report options s _ _ _ _) trivial
  · exact h.setPhase hflight trivial
  · exact h.keepsPhase hflight (.deliverInstalled options s _ _) trivial

theorem Fresh.evaluated {result : Result} {readSet : List String} {commitVersion : Nat}
    (hconforms : Conforms oracle s (.evaluated task result readSet commitVersion now))
    (hstep : s.evaluated options task result readSet commitVersion now = some t) :
    Fresh options oracle none t := by
  obtain ⟨hresult, hreads⟩ := hconforms
  obtain ⟨_, hphase, hcases⟩ := evaluated_cases hstep
  have hflight : (s.evaluations task).phase.InFlight := by
    rw [hphase]
    trivial
  rcases hcases with ⟨error, rfl⟩ | rfl | ⟨evaluation, hencode, rfl, _, _, rfl⟩
  · exact h.setPhase hflight trivial
  · exact h.closeEvaluation hflight
  · refine Fresh.afterInstall (h.installEvaluation hencode hresult hreads) ?_ _
    rw [installEvaluation_evaluations]
    exact hflight

theorem Fresh.catchEvaluation
    (hstep : s.catchEvaluation options task = some t) : Fresh options oracle none t := by
  obtain ⟨error, hphase, hcases⟩ := catchEvaluation_cases hstep
  have hflight : (s.evaluations task).phase.InFlight := by
    rw [hphase]
    trivial
  have hremoved := Keeps.retires (.removeEntry s (s.evaluations task).entry)
  rcases hcases with rfl | rfl | ⟨failed, report, heq, rfl⟩
  · exact h.keepsPhase hflight hremoved trivial fun _ => removeEntry_removed s _
  · exact h.keepsPhase hflight hremoved trivial
  · have hkeeps := Keeps.failEntry options s (s.evaluations task).entry error
    rw [heq] at hkeeps
    cases report with
    | none | some => exact h.keepsPhase hflight hkeeps trivial

theorem Fresh.finishEvaluation
    (hstep : s.finishEvaluation task = some t) : Fresh options oracle none t := by
  unfold State.finishEvaluation at hstep
  split at hstep
  · rename_i hphase
    split at hstep
    · cases hstep
      exact h.closeEvaluation (by rw [hphase]; trivial)
    · cases hstep
  · rename_i hphase
    split at hstep
    · cases hstep
      exact h.setPhase (by rw [hphase]; trivial) trivial
    · cases hstep
  · cases hstep

omit h in
theorem ensureCurrent_evaluations {target : Nat} (htask : task ≠ s.evaluationCount) :
    (s.ensureCurrent e target).1.evaluations task = s.evaluations task := by
  unfold State.ensureCurrent
  dsimp only
  split
  · rfl
  · split
    · rfl
    · exact update_of_ne htask _ _

theorem Fresh.release (hstep : s.release task now = some t) :
    Fresh options oracle none t := by
  unfold State.release at hstep
  dsimp only at hstep
  split at hstep
  · rename_i hphase
    have hflight : (s.evaluations task).phase.InFlight := by
      rw [hphase]
      trivial
    have hreleased : Fresh options oracle (some (s.evaluations task).entry)
        ((s.releaseEntry task now).setPhase task (.settled none)) :=
      h.releaseEntry hflight id
    have hsettled : (((s.releaseEntry task now).setPhase task (.settled none)).evaluations
        task).phase = .settled none := by
      simp only [State.setPhase, update_self]
    have hcount : task ≠ ((s.releaseEntry task now).setPhase task
        (.settled none)).evaluationCount := by
      rintro heq
      exact h.idle task heq.ge hflight
    generalize (s.releaseEntry task now).setPhase task (.settled none) = released
      at hstep hreleased hsettled hcount
    split at hstep
    · rename_i hbehind
      simp only [Bool.and_eq_true, Bool.not_eq_true', decide_eq_true_eq] at hbehind
      have hdirty := (hreleased.entry _ hbehind.1).dirty_le
      have hensured := hreleased.ensureCurrent hbehind.1 hdirty fun _ hlt hle =>
        absurd hlt (Nat.not_lt_of_le hle)
      split at hstep <;> rename_i heq <;> rw [heq] at hensured <;> cases hstep
      · refine hensured.endPhase ?_ id
        rw [← congrArg (fun result => (result.1.evaluations task).phase) heq]
        rw [ensureCurrent_evaluations hcount, hsettled]
        exact id
      · exact hensured
    rename_i hcaughtUp
    cases hstep
    refine hreleased.caughtUp fun hlive _ hbehind => absurd ?_ hcaughtUp
    simp only [hlive, Bool.not_false, Bool.true_and, decide_eq_true_eq]
    exact hbehind
  · rename_i error hphase
    cases hstep
    have hflight : (s.evaluations task).phase.InFlight := by
      rw [hphase]
      trivial
    have hremoved := h.rejected task (by rw [hphase]; trivial)
    refine (h.releaseEntry hflight id).caughtUp fun hlive => ?_
    simp only [State.setPhase, State.releaseEntry, update_self, hremoved] at hlive
    cases hlive
  · cases hstep

theorem Fresh.finishChain (hstep : s.finishChain task = some t) :
    Fresh options oracle none t := by
  unfold State.finishChain at hstep
  split at hstep
  · rename_i hphase
    split at hstep
    · cases hstep
      refine h.endPhase ?_ id
      rw [hphase]
      exact id
    · cases hstep
  · cases hstep

/-! ## Every run -/

/-- **Every turn keeps the invariant.** -/
theorem Fresh.step {event : Event}
    (hconforms : Conforms oracle s event) (hstep : step options s event = some t) :
    Fresh options oracle none t := by
  cases event with
  | reserve =>
    cases hstep
    unfold State.reserve
    split
    · rename_i publication _ heq
      refine h.setPublication (h.wellFormed.reserve heq) (h.carries.reserve heq) ?_
      exact OrderedPublication.reserve_committedHighWater heq
    · exact h
  | resize =>
    simp only [Reactive.step, State.resize, Option.bind_eq_bind, Option.bind_eq_some_iff] at hstep
    obtain ⟨id, -, hstep⟩ := hstep
    split at hstep <;> cases hstep
    · rename_i heq
      obtain ⟨hwf, -, hwater⟩ := h.wellFormed.resizeSlot heq
      exact h.setPublication hwf (h.carries.resizeSlot heq) hwater
    · exact h
  | cancel =>
    simp only [Reactive.step, State.cancel, Option.bind_eq_bind, Option.bind_eq_some_iff] at hstep
    obtain ⟨id, -, hstep⟩ := hstep
    split at hstep <;> cases hstep
    rename_i heq
    obtain ⟨hwf, -, -, hwater⟩ := h.wellFormed.cancelSlot heq
    exact h.setPublication hwf (h.carries.cancelSlot heq) hwater
  | commit =>
    simp only [Reactive.step, State.commit, Option.bind_eq_bind, Option.bind_eq_some_iff] at hstep
    obtain ⟨id, -, hstep⟩ := hstep
    split at hstep <;> cases hstep
    rename_i heq
    exact h.commit heq
  | publish => exact h.publish hstep
  | settle => exact h.settle hstep
  | subscribeQuery subscriber id address args fingerprint authEpoch cursor now =>
    cases hstep
    exact h.subscribeQuery subscriber id address args fingerprint authEpoch cursor now
  | resumeSubscribe => exact h.resumeSubscribe hstep
  | finishSubscribe => exact h.keeps (.finishSubscribe hstep)
  | unsubscribe subscriber id now =>
    cases hstep
    unfold State.unsubscribe
    split
    · exact h.keeps (.detachBinding s _ now)
    · exact h
  | disconnect subscriber now =>
    cases hstep
    exact h.keeps (.foldl (fun s binding => .detachBinding s binding now) s _)
  | reset =>
    cases hstep
    unfold State.reset
    split
    · exact h
    · exact h
    · exact h.keeps ⟨rfl, rfl, rfl, rfl, rfl, rfl, rfl, fun _ => .inr rfl⟩
  | converge subscriber minimumVersion =>
    cases hstep
    exact h.converge subscriber minimumVersion
  | resumeConverge => exact h.resumeConverge hstep
  | revoke subscriber nextAuthEpoch outcome now =>
    cases hstep
    exact h.keeps (.endBindings options s subscriber nextAuthEpoch _ outcome now)
  | rotateAuth subscriber nextAuthEpoch now =>
    cases hstep
    exact h.keeps (.endBindings options s subscriber nextAuthEpoch _ _ now)
  | subscribeEvent subscriber id table matches_ authEpoch =>
    cases hstep
    exact h.keeps (.subscribeEvent options s subscriber id table matches_ authEpoch)
  | failSubscribeEvent m =>
    simp only [Reactive.step, State.failSubscribeEvent] at hstep
    split at hstep <;> cases hstep
    exact h.keeps ((Keeps.setEvent s m _).trans (.detachEvent _ m))
  | settleEvent m =>
    simp only [Reactive.step, State.settleEvent, Option.map_eq_some_iff] at hstep
    obtain ⟨listener, -, rfl⟩ := hstep
    exact h.keeps (.setEvent s m listener)
  | resumeReport report now =>
    simp only [Reactive.step, State.resumeReport] at hstep
    split at hstep
    · split at hstep <;> cases hstep
      exact h.keeps (.reportNext options s report now)
    · cases hstep
  | startEvaluation => exact h.startEvaluation hstep
  | failEvaluation => exact h.failEvaluation hstep
  | evaluated => exact h.evaluated hconforms hstep
  | catchEvaluation => exact h.catchEvaluation hstep
  | finishEvaluation => exact h.finishEvaluation hstep
  | release => exact h.release hstep
  | finishChain => exact h.finishChain hstep
  | sent | sendFailed | resumeDelivery =>
    simp only [Reactive.step, Option.map_eq_some_iff] at hstep
    obtain ⟨outbox, -, rfl⟩ := hstep
    exact h.keeps ⟨rfl, rfl, rfl, rfl, rfl, rfl, rfl, fun _ => .inr rfl⟩
  | prune now =>
    cases hstep
    exact h.keeps (.retires (.prune options s now))
  | close =>
    cases hstep
    exact h.setPublication { h.wellFormed with }
      ⟨h.carries.committed, h.carries.scheduled⟩ rfl

end

end Steps

variable {options : ReactiveOptions} {oracle : Oracle}

/-- The invariant holds in every state that runs reach. -/
theorem fresh_of_reachable
    (hreach : Run.Reachable (step options) (Conforms oracle) (initial options) s) :
    Fresh options oracle none s :=
  hreach.induct (fresh_initial options oracle) fun _ _ _ _ h hconforms hstep =>
    h.step hconforms hstep

/-- An entry whose read set no processed commit touched since its version has the outcome of
the newest version, once every commit is processed. -/
theorem EntryFresh.current {e : Nat} {entry : QueryEntry}
    (h : EntryFresh options oracle none s e entry) (hinit : entry.initialized = true)
    (hcommits : oracle.Respects s.writes s.highWater)
    (hprocessed : ∀ w, entry.commitVersion < w → w ≤ s.highWater → w ∈ s.processed)
    (hdirty : entry.dirtyVersion ≤ entry.commitVersion) :
    entry.outcome = oracle.outcome entry.key s.highWater := by
  rw [h.outcome hinit]
  refine (hcommits entry.key entry.commitVersion s.highWater h.version_le le_rfl ?_).symm
  intro u hlt hle k hk hread
  have hmarked := h.marked hinit u (hprocessed u hlt hle) hlt
    ⟨k, hk, (h.readSet hinit k).2 hread⟩
  omega

/-- **No stale subscription.**  In every state that runs reach, a live initialized entry holds
the outcome of the committed high-water, or a later commit is not yet processed, or the entry
is behind its mark and an evaluation for it is in flight. -/
theorem outcome_current_or_pending (options : ReactiveOptions) (oracle : Oracle) {s : State}
    (hreach : Run.Reachable (step options) (Conforms oracle) (initial options) s)
    (hcommits : oracle.Respects s.writes s.highWater) (e : Nat)
    (hlive : (s.entries e).removed = false) (hinit : (s.entries e).initialized = true) :
    (s.entries e).outcome = oracle.outcome (s.entries e).key s.highWater ∨
    (∃ w, options.initialVersion < w ∧ (s.entries e).commitVersion < w ∧ w ≤ s.highWater ∧
      w ∉ s.processed) ∨
    ((s.entries e).commitVersion < (s.entries e).dirtyVersion ∧
      ∃ t, (s.entries e).evaluation = some t ∧ (s.evaluations t).entry = e ∧
        (s.evaluations t).phase.InFlight) := by
  have hentry := (fresh_of_reachable hreach).entry e hlive
  by_cases hbehind : (s.entries e).commitVersion < (s.entries e).dirtyVersion
  · right; right
    obtain ⟨t, ht⟩ := Option.isSome_iff_exists.1 (hentry.evaluating nofun hinit hbehind)
    exact ⟨hbehind, t, ht, (hentry.owned t ht).2⟩
  by_cases hprocessed : ∀ w, (s.entries e).commitVersion < w → w ≤ s.highWater → w ∈ s.processed
  · left
    exact hentry.current hinit hcommits hprocessed (Nat.le_of_not_lt hbehind)
  right; left
  push Not at hprocessed
  obtain ⟨w, hlt, hle, hnot⟩ := hprocessed
  exact ⟨w, (hentry.version_ge hinit).trans_lt hlt, hlt, hle, hnot⟩

/-- A query is evaluated, and a commit that touches its read set is processed while the first
delivery is under way. -/
def notesRun : List Event :=
  [.subscribeQuery 1 1 "notes.list" .null "" 0 none 0, .startEvaluation 0,
    .evaluated 0 (.ok .null) ["notes"] 0 0, .reserve 1 0, .commit ["notes"], .publish]

/-- A query that reads one key and always yields `null`. -/
def notesOracle : Oracle where
  outcome := fun _ _ => .ok .null
  readSet := fun _ _ => {"notes"}

theorem outcome_current_or_pending_notes :
    ∃ s, Run.run (step sampleOptions) (initial sampleOptions) notesRun = some s ∧
      (s.entries 0).removed = false ∧ (s.entries 0).initialized = true ∧
      ((s.entries 0).outcome = notesOracle.outcome (s.entries 0).key s.highWater ∨
        (∃ w, sampleOptions.initialVersion < w ∧ (s.entries 0).commitVersion < w ∧
          w ≤ s.highWater ∧ w ∉ s.processed) ∨
        ((s.entries 0).commitVersion < (s.entries 0).dirtyVersion ∧
          ∃ t, (s.entries 0).evaluation = some t ∧ (s.evaluations t).entry = 0 ∧
            (s.evaluations t).phase.InFlight)) := by
  obtain ⟨s, hrun, hlive, hinit⟩ : ∃ s,
      Run.run (step sampleOptions) (initial sampleOptions) notesRun = some s ∧
        (s.entries 0).removed = false ∧ (s.entries 0).initialized = true := ⟨_, rfl, rfl, rfl⟩
  have hguard : Run.Guarded (step sampleOptions) (Conforms notesOracle) (initial sampleOptions)
      notesRun := by
    refine Run.guarded_of_forall ?_ _
    intro event hevent s
    simp only [notesRun, mem_cons, not_mem_nil, or_false] at hevent
    rcases hevent with rfl | rfl | rfl | rfl | rfl | rfl
    case inr.inr.inl => exact ⟨rfl, fun k => by simp [notesOracle]⟩
    all_goals trivial
  refine ⟨s, hrun, hlive, hinit, ?_⟩
  exact outcome_current_or_pending sampleOptions notesOracle (Run.Reachable.refl.run hguard hrun)
    (fun _ _ _ _ _ _ => rfl) 0 hlive hinit

end Reactive

end AckerDB
