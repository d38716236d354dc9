import AckerDB.Subscriptions.Reactive.Frame

/-!
# The freshness of an entry

The evaluator is an `Oracle`: at every version a query has an outcome and a read
set.  A live entry knows both at its version, and every processed commit that
touched the read set has left a mark on it.

* `Conforms`, `Oracle.Respects` — what is asked of the evaluator;
* `Fresh` — the invariant;
* `Fresh.keeps`, `Fresh.ensureCurrent`, `Fresh.releaseEntry`, … — the elementary changes
  that keep it.
-/

namespace AckerDB

open Protocol Function

namespace Reactive

/-- What a query yields at each version of the data. -/
structure Oracle where
  outcome : QueryKey → Nat → Result
  readSet : QueryKey → Nat → Set String

/-- Every evaluation that returns yields the outcome and the read set of its version. -/
def Conforms (oracle : Oracle) (s : State) : Event → Prop
  | .evaluated t result readSet commitVersion _ =>
    let key := (s.entries (s.evaluations t).entry).key
    result = oracle.outcome key commitVersion ∧
      ∀ k, k ∈ readSet ↔ k ∈ oracle.readSet key commitVersion
  | _ => True

/-- As long as the commits after a version miss the read set at it, the outcome stays. -/
def Oracle.Respects (oracle : Oracle) (writes : Nat → List String) (highWater : Nat) : Prop :=
  ∀ key v w, v ≤ w → w ≤ highWater →
    (∀ u, v < u → u ≤ w → ∀ k ∈ writes u, k ∉ oracle.readSet key v) →
    oracle.outcome key w = oracle.outcome key v

/-- The evaluation is in flight: the entry has not been released from it. -/
def EvaluationPhase.InFlight : EvaluationPhase → Prop
  | .chained _ => False
  | .settled _ => False
  | _ => True

/-- The execution rejected. -/
def EvaluationPhase.Rejected : EvaluationPhase → Prop
  | .finished (some _) => True
  | _ => False

variable {phase : EvaluationPhase}

theorem EvaluationPhase.Rejected.inFlight (h : phase.Rejected) :
    phase.InFlight := by
  unfold EvaluationPhase.Rejected at h
  split at h
  · trivial
  · exact h.elim

/-! ## The invariant -/

/-- What holds of a live entry: it knows the outcome and the read set of its version, every
processed commit that touched the read set has raised its mark, and while it is behind its
mark it has an evaluation.  Inside a turn, the entry `lag` may still wait for its evaluation. -/
structure EntryFresh (options : ReactiveOptions) (oracle : Oracle) (lag : Option Nat) (s : State)
    (e : Nat) (entry : QueryEntry) : Prop where
  version_le : entry.commitVersion ≤ s.highWater
  dirty_le : entry.dirtyVersion ≤ s.highWater
  version_ge : entry.initialized = true → options.initialVersion ≤ entry.commitVersion
  outcome : entry.initialized = true →
    entry.outcome = oracle.outcome entry.key entry.commitVersion
  readSet : entry.initialized = true →
    ∀ k, k ∈ entry.readSet ↔ k ∈ oracle.readSet entry.key entry.commitVersion
  marked : entry.initialized = true → ∀ w ∈ s.processed, entry.commitVersion < w →
    (∃ k ∈ s.writes w, k ∈ entry.readSet) → w ≤ entry.dirtyVersion
  evaluating : lag ≠ some e → entry.initialized = true →
    entry.commitVersion < entry.dirtyVersion → entry.evaluation.isSome = true
  owned : ∀ t, entry.evaluation = some t →
    t < s.evaluationCount ∧ (s.evaluations t).entry = e ∧ (s.evaluations t).phase.InFlight

/-- The invariant of every run, for `lag = none`. -/
structure Fresh (options : ReactiveOptions) (oracle : Oracle) (lag : Option Nat) (s : State) :
    Prop where
  wellFormed : s.publication.WellFormed
  carries : s.publication.Carries s.commits
  start : options.initialVersion ≤ s.highWater
  processed : ∀ w ∈ s.processed, w ≤ s.highWater
  unused : ∀ e, s.entryCount ≤ e → (s.entries e).removed = true
  idle : ∀ t, s.evaluationCount ≤ t → ¬ (s.evaluations t).phase.InFlight
  known : ∀ t, (s.evaluations t).phase.InFlight → (s.evaluations t).entry < s.entryCount
  converging : ∀ c ∈ s.convergences, c.minimumVersion ≤ s.highWater
  /-- Only the evaluation of a removed entry rejects. -/
  rejected : ∀ t, (s.evaluations t).phase.Rejected →
    (s.entries (s.evaluations t).entry).removed = true
  entry : ∀ e, (s.entries e).removed = false → EntryFresh options oracle lag s e (s.entries e)
  owner : ∀ t, (s.evaluations t).phase.InFlight →
    (s.entries (s.evaluations t).entry).removed = false →
    (s.entries (s.evaluations t).entry).evaluation = some t

theorem fresh_initial (options : ReactiveOptions) (oracle : Oracle) :
    Fresh options oracle none (initial options) where
  wellFormed := OrderedPublication.wellFormed_initial _ _
  carries := OrderedPublication.carries_initial _ _
  start := le_rfl
  processed := by simp [initial]
  unused := fun _ _ => rfl
  idle := fun _ _ h => h
  known := fun _ h => h.elim
  converging := by simp [initial]
  rejected := fun _ h => h.elim
  entry := by simp [initial]
  owner := fun _ h => h.elim

variable {e task : Nat} {entry : QueryEntry} {lag' : Option Nat}

section Steps

variable {options : ReactiveOptions} {oracle : Oracle} {lag : Option Nat} {s t : State}

theorem EntryFresh.sameQuery {a b : QueryEntry} (h : EntryFresh options oracle lag s e b)
    (hsame : a.SameQuery b) : EntryFresh options oracle lag s e a := by
  rw [hsame]
  exact { h with }

/-- The condition on an entry reads little of the state. -/
theorem EntryFresh.congr (h : EntryFresh options oracle lag s e entry)
    (hpublication : t.publication = s.publication) (hprocessed : t.processed = s.processed)
    (hcommits : t.commits = s.commits)
    (howned : ∀ task, entry.evaluation = some task → task < t.evaluationCount ∧
      (t.evaluations task).entry = e ∧ (t.evaluations task).phase.InFlight) :
    EntryFresh options oracle lag t e entry where
  __ := h
  version_le := by
    rw [State.highWater, hpublication]
    exact h.version_le
  dirty_le := by
    rw [State.highWater, hpublication]
    exact h.dirty_le
  marked := by
    have hwrites : t.writes = s.writes := by
      funext version
      rw [State.writes, State.writes, hcommits]
    rw [hprocessed, hwrites]
    exact h.marked
  owned := howned

/-- **Turns that leave the queries alone keep the invariant.** -/
theorem Fresh.keeps (h : Fresh options oracle lag s) (hkeeps : Keeps s t) :
    Fresh options oracle lag t where
  wellFormed := hkeeps.publication ▸ h.wellFormed
  carries := by
    rw [hkeeps.publication, hkeeps.commits]
    exact h.carries
  start := by
    rw [State.highWater, hkeeps.publication]
    exact h.start
  processed := by
    rw [hkeeps.processed, State.highWater, hkeeps.publication]
    exact h.processed
  unused := by
    intro e he
    rw [hkeeps.entryCount] at he
    rcases hkeeps.entries e with hremoved | hsame
    · exact hremoved
    · rw [hsame]
      exact h.unused e he
  idle := by
    rw [hkeeps.evaluationCount, hkeeps.evaluations]
    exact h.idle
  known := by
    rw [hkeeps.evaluations, hkeeps.entryCount]
    exact h.known
  converging := by
    rw [hkeeps.convergences, State.highWater, hkeeps.publication]
    exact h.converging
  rejected := by
    intro task hphase
    rw [hkeeps.evaluations] at hphase ⊢
    rcases hkeeps.entries (s.evaluations task).entry with hremoved | hsame
    · exact hremoved
    · rw [hsame]
      exact h.rejected task hphase
  entry := by
    intro e hlive
    obtain ⟨hbefore, hsame⟩ := hkeeps.live hlive
    refine ((h.entry e hbefore).congr hkeeps.publication hkeeps.processed hkeeps.commits ?_).sameQuery
      hsame
    rw [hkeeps.evaluationCount, hkeeps.evaluations]
    exact (h.entry e hbefore).owned
  owner := by
    intro task hflight hlive
    rw [hkeeps.evaluations] at hflight hlive ⊢
    obtain ⟨hbefore, hsame⟩ := hkeeps.live hlive
    rw [hsame]
    exact h.owner task hflight hbefore

/-! ## One entry changes -/

/-- Replacing one entry keeps the invariant, if its evaluation stays. -/
theorem Fresh.setEntry (h : Fresh options oracle lag s)
    (hremoved : entry.removed = (s.entries e).removed)
    (hevaluation : entry.evaluation = (s.entries e).evaluation)
    (hentry : (s.entries e).removed = false → EntryFresh options oracle lag' s e entry)
    (hlag : ∀ other, other ≠ e → lag' ≠ some other → lag ≠ some other) :
    Fresh options oracle lag' (s.setEntry e entry) where
  __ := h
  unused := by
    intro other hother
    by_cases he : other = e
    · subst he
      simp only [State.setEntry, update_self, hremoved]
      exact h.unused other hother
    · simp only [State.setEntry, update_of_ne he]
      exact h.unused other hother
  rejected := by
    intro task hphase
    have hbefore := h.rejected task hphase
    by_cases he : (s.evaluations task).entry = e
    · simp only [State.setEntry, he, update_self, hremoved]
      rw [← he]
      exact hbefore
    · simp only [State.setEntry, update_of_ne he]
      exact hbefore
  entry := by
    intro other hlive
    by_cases he : other = e
    · subst he
      simp only [State.setEntry, update_self] at hlive ⊢
      have hnew := hentry (hremoved ▸ hlive)
      exact hnew.congr rfl rfl rfl hnew.owned
    · simp only [State.setEntry, update_of_ne he] at hlive ⊢
      have hold := h.entry other hlive
      exact { hold with evaluating := fun hne => hold.evaluating (hlag other he hne) }
  owner := by
    intro task hflight hlive
    by_cases he : (s.evaluations task).entry = e
    · simp only [State.setEntry, he, update_self, hremoved, hevaluation] at hlive ⊢
      rw [← he] at hlive ⊢
      exact h.owner task hflight hlive
    · simp only [State.setEntry, update_of_ne he] at hlive ⊢
      exact h.owner task hflight hlive

/-- Raising the mark of an entry keeps the invariant, up to the evaluation it may now need. -/
theorem Fresh.raiseDirty {version : Nat} (h : Fresh options oracle (some e) s)
    (hle : version ≤ s.highWater) : Fresh options oracle (some e) (s.raiseDirty e version) := by
  refine h.setEntry rfl rfl ?_ (fun _ _ hne => hne)
  intro hlive
  have hentry := h.entry e hlive
  refine { hentry with
      dirty_le := max_le hentry.dirty_le hle
      marked := ?_
      evaluating := fun hne => absurd rfl hne }
  intro hinit w hw hlt hhit
  exact le_max_of_le_left (hentry.marked hinit w hw hlt hhit)

theorem Fresh.mayLag (h : Fresh options oracle none s) (e : Nat) :
    Fresh options oracle (some e) s :=
  { h with
    entry := fun other hlive =>
      { h.entry other hlive with evaluating := fun _ => (h.entry other hlive).evaluating nofun } }

/-- An entry that is not behind its mark, or has an evaluation, does not lag. -/
theorem Fresh.caughtUp (h : Fresh options oracle (some e) s)
    (hentry : (s.entries e).removed = false → (s.entries e).initialized = true →
      (s.entries e).commitVersion < (s.entries e).dirtyVersion →
      (s.entries e).evaluation.isSome = true) : Fresh options oracle none s := by
  refine { h with entry := fun other hlive => { h.entry other hlive with evaluating := ?_ } }
  intro _ hinit hbehind
  by_cases he : other = e
  · subst he
    exact hentry hlive hinit hbehind
  · exact (h.entry other hlive).evaluating (fun heq => he (Option.some.inj heq).symm) hinit hbehind

/-- An evaluation of an entry changes, and the entry with it. -/
theorem Fresh.setTask (h : Fresh options oracle lag s) {count : Nat} (entry : QueryEntry)
    (evaluation : Evaluation) (evaluatingEntries dormantEntries : Int)
    (hcount : s.evaluationCount ≤ count)
    (htask : s.evaluationCount ≤ task ∧ task < count ∨
      (s.evaluations task).entry = evaluation.entry ∧
        (s.evaluationCount ≤ task → ¬ evaluation.phase.InFlight))
    (hknown : evaluation.phase.InFlight → evaluation.entry < s.entryCount)
    (hrejected : evaluation.phase.Rejected → (s.entries evaluation.entry).removed = true)
    (hremoved : entry.removed = (s.entries evaluation.entry).removed)
    (howner : (s.entries evaluation.entry).removed = false → evaluation.phase.InFlight →
      entry.evaluation = some task)
    (hothers : ∀ other ≠ task, (s.entries evaluation.entry).removed = false →
      (s.entries evaluation.entry).evaluation = some other → entry.evaluation = some other)
    (hentry : (s.entries evaluation.entry).removed = false → EntryFresh options oracle lag'
      { s with
        evaluations := update s.evaluations task evaluation, evaluationCount := count }
      evaluation.entry entry)
    (hlag : ∀ other, other ≠ evaluation.entry → lag' ≠ some other → lag ≠ some other) :
    Fresh options oracle lag' { s with
      entries := update s.entries evaluation.entry entry
      evaluations := update s.evaluations task evaluation, evaluationCount := count
      evaluatingEntries, dormantEntries } := by
  have hgone : ∀ e, ((update s.entries evaluation.entry entry) e).removed =
      (s.entries e).removed := by
    intro e
    by_cases he : e = evaluation.entry
    · rw [he, update_self, hremoved]
    · rw [update_of_ne he]
  refine { h with
    unused := fun e he => (hgone e).trans (h.unused e he)
    idle := (forall_update_iff s.evaluations fun other found =>
      count ≤ other → ¬ found.phase.InFlight).2
        ⟨fun hle => ?_, fun other _ hle => h.idle other (hcount.trans hle)⟩
    known := (forall_update_iff s.evaluations fun _ found =>
      found.phase.InFlight → found.entry < s.entryCount).2 ⟨hknown, fun other _ => h.known other⟩
    rejected := (forall_update_iff s.evaluations fun _ found => found.phase.Rejected →
      ((update s.entries evaluation.entry entry) found.entry).removed = true).2
        ⟨fun hphase => (hgone _).trans (hrejected hphase),
          fun other _ hphase => (hgone _).trans (h.rejected other hphase)⟩
    entry := fun e hlive => ?_
    owner := (forall_update_iff s.evaluations fun other found => found.phase.InFlight →
      ((update s.entries evaluation.entry entry) found.entry).removed = false →
      ((update s.entries evaluation.entry entry) found.entry).evaluation = some other).2
        ⟨fun hflight hlive => ?_, fun other hne hflight hlive => ?_⟩ }
  · rcases htask with ⟨-, hlt⟩ | ⟨-, hidle⟩
    · exact absurd hlt (Nat.not_lt_of_le hle)
    · exact hidle (hcount.trans hle)
  · replace hlive := (hgone e).symm.trans hlive
    by_cases he : e = evaluation.entry
    · subst he
      simp only [update_self]
      have hnew := hentry hlive
      exact hnew.congr rfl rfl rfl hnew.owned
    simp only [update_of_ne he]
    have hold := h.entry e hlive
    refine { hold with
      evaluating := fun hne => hold.evaluating (hlag e he hne), owned := fun other hother => ?_ }
    obtain ⟨hlt, hbelongs, hflight⟩ := hold.owned other hother
    have hne : other ≠ task := by
      rintro rfl
      rcases htask with ⟨hge, -⟩ | ⟨hsame, -⟩
      · exact absurd hlt (Nat.not_lt_of_le hge)
      · exact he (hbelongs.symm.trans hsame)
    simp only [update_of_ne hne]
    exact ⟨hlt.trans_le hcount, hbelongs, hflight⟩
  · rw [update_self]
    exact howner ((hgone _).symm.trans hlive) hflight
  · have hown := h.owner other hflight ((hgone _).symm.trans hlive)
    by_cases he : (s.evaluations other).entry = evaluation.entry
    · rw [he, update_self]
      rw [he] at hown hlive
      exact hothers other hne ((hgone _).symm.trans hlive) hown
    · rw [update_of_ne he]
      exact hown

/-- Submitting an evaluation for an entry without one ends its lag. -/
theorem Fresh.submit (h : Fresh options oracle (some e) s) (hlive : (s.entries e).removed = false)
    (hnone : (s.entries e).evaluation = none) :
    Fresh options oracle none (s.submit e) := by
  have hknown : e < s.entryCount := by
    by_contra hge
    rw [h.unused e (Nat.le_of_not_lt hge)] at hlive
    cases hlive
  refine h.setTask { s.entries e with evaluation := some s.evaluationCount }
    { entry := e, wasInitialized := (s.entries e).initialized, phase := .queued } _ _
    (Nat.le_succ _) (.inl ⟨le_rfl, Nat.lt_succ_self _⟩) (fun _ => hknown) False.elim
    rfl (fun _ _ => rfl) (fun other _ _ hother => ?_) (fun _ => ?_)
    fun other he _ heq => he (Option.some.inj heq).symm
  · rw [hnone] at hother
    cases hother
  refine { h.entry e hlive with evaluating := fun _ _ _ => rfl, owned := ?_ }
  intro task htask
  cases htask
  simp only [update_self]
  exact ⟨Nat.lt_succ_self _, trivial, trivial⟩

/-- **`ensureCurrent`** gives an entry that lags behind the target its evaluation. -/
theorem Fresh.ensureCurrent {target : Nat} (h : Fresh options oracle (some e) s)
    (hlive : (s.entries e).removed = false) (hle : target ≤ s.highWater)
    (hlag : (s.entries e).initialized = true →
      (s.entries e).commitVersion < (s.entries e).dirtyVersion → target ≤ (s.entries e).commitVersion →
      (s.entries e).evaluation.isSome = true) :
    Fresh options oracle none (s.ensureCurrent e target).1 := by
  have hraised := h.raiseDirty hle
  have hself : (s.raiseDirty e target).entries e =
      { s.entries e with dirtyVersion := max (s.entries e).dirtyVersion target } := by
    simp only [State.raiseDirty, State.setEntry, update_self]
  unfold State.ensureCurrent
  dsimp only
  split
  · rename_i hcurrent
    refine hraised.caughtUp fun _ hinit hbehind => ?_
    rw [hself] at hcurrent hinit hbehind ⊢
    refine hlag hinit ?_ hcurrent.2
    rcases lt_max_iff.1 hbehind with hlt | hlt
    · exact hlt
    · exact absurd hcurrent.2 (Nat.not_le_of_lt hlt)
  split
  · rename_i task htask
    exact hraised.caughtUp fun _ _ _ => by simp [htask]
  · rename_i hnone
    exact hraised.submit (by rw [hself]; exact hlive) hnone

theorem Fresh.ensureCurrent_of_fresh {target : Nat} (h : Fresh options oracle none s)
    (hlive : (s.entries e).removed = false) (hle : target ≤ s.highWater) :
    Fresh options oracle none (s.ensureCurrent e target).1 :=
  (h.mayLag e).ensureCurrent hlive hle fun hinit hbehind _ =>
    (h.entry e hlive).evaluating nofun hinit hbehind

/-- An evaluation goes on to another phase; the entry stays, if it owns the evaluation only while
that is in flight. -/
theorem Fresh.setPhase_of (h : Fresh options oracle lag s)
    (hphase : (s.evaluations task).phase.InFlight ↔ phase.InFlight)
    (hrejected : phase.Rejected → (s.entries (s.evaluations task).entry).removed = true) :
    Fresh options oracle lag (s.setPhase task phase) := by
  have hset := h.setTask (s.entries (s.evaluations task).entry) { s.evaluations task with phase }
    s.evaluatingEntries s.dormantEntries le_rfl
    (.inr ⟨rfl, fun hle hflight => h.idle task hle (hphase.2 hflight)⟩)
    (fun hflight => h.known task (hphase.2 hflight)) hrejected rfl
    (fun hlive hflight => h.owner task (hphase.2 hflight) hlive) (fun _ _ _ => id)
    (fun hlive => (h.entry _ hlive).congr rfl rfl rfl fun other hother => ?_) (fun _ _ => id)
  · rwa [update_eq_self] at hset
  obtain ⟨hlt, hbelongs, hflight⟩ := (h.entry _ hlive).owned other hother
  refine ⟨hlt, ?_⟩
  by_cases he : other = task
  · subst he
    simp only [update_self]
    exact ⟨trivial, hphase.1 hflight⟩
  · simp only [update_of_ne he]
    exact ⟨hbelongs, hflight⟩

/-- An evaluation in flight goes on to another phase in flight. -/
theorem Fresh.setPhase {task : Nat} {phase : EvaluationPhase} (h : Fresh options oracle lag s)
    (hbefore : (s.evaluations task).phase.InFlight) (hafter : phase.InFlight)
    (hrejected : phase.Rejected → (s.entries (s.evaluations task).entry).removed = true := by
      exact False.elim) :
    Fresh options oracle lag (s.setPhase task phase) :=
  h.setPhase_of (iff_of_true hbefore hafter) hrejected

/-- An evaluation that is not in flight stays so. -/
theorem Fresh.endPhase (h : Fresh options oracle lag s)
    (hbefore : ¬ (s.evaluations task).phase.InFlight) (hafter : ¬ phase.InFlight) :
    Fresh options oracle lag (s.setPhase task phase) :=
  h.setPhase_of (iff_of_false hbefore hafter) fun hphase => absurd hphase.inFlight hafter

/-- `release`, with the phase that follows it: the entry has no evaluation, and may lag. -/
theorem Fresh.releaseEntry {now : Int} (h : Fresh options oracle none s)
    (hbefore : (s.evaluations task).phase.InFlight) (hafter : ¬ phase.InFlight) :
    Fresh options oracle (some (s.evaluations task).entry)
      ((s.releaseEntry task now).setPhase task phase) := by
  refine h.setTask _ { s.evaluations task with phase } _ _ le_rfl (.inr ⟨rfl, fun _ => hafter⟩) (fun hflight => absurd hflight hafter)
    (fun hphase => absurd hphase.inFlight hafter) rfl (fun _ hflight => absurd hflight hafter)
    (fun other hne hlive hother => ?_) (fun hlive => ?_) fun _ _ _ => nofun
  · rw [h.owner task hbefore hlive] at hother
    exact absurd (Option.some.inj hother).symm hne
  · refine { h.entry _ hlive with evaluating := fun hne => absurd rfl hne, owned := ?_ }
    intro other hother
    simp [h.owner task hbefore hlive] at hother

/-- A new entry has nothing to say yet. -/
theorem Fresh.addEntry (h : Fresh options oracle none s) (key : QueryKey) :
    Fresh options oracle none (s.addEntry options key) where
  __ := h
  unused := by
    intro e he
    have hne := Nat.ne_of_gt he
    simp only [State.addEntry, update_of_ne hne]
    exact h.unused e (Nat.le_of_succ_le he)
  known := fun task hflight => Nat.lt_succ_of_lt (h.known task hflight)
  rejected := by
    intro task hphase
    have hknown := Nat.ne_of_lt (h.known task hphase.inFlight)
    simp only [State.addEntry, update_of_ne hknown]
    exact h.rejected task hphase
  entry := by
    intro e hlive
    by_cases he : e = s.entryCount
    · subst he
      simp only [State.addEntry, update_self]
      exact ⟨Nat.zero_le _, Nat.zero_le _, nofun, nofun, nofun, nofun, nofun, nofun⟩
    · simp only [State.addEntry, update_of_ne he] at hlive ⊢
      have hold := h.entry e hlive
      exact hold.congr rfl rfl rfl hold.owned
  owner := by
    intro task hflight hlive
    have he := Nat.ne_of_lt (h.known task hflight)
    simp only [State.addEntry, update_of_ne he] at hlive ⊢
    exact h.owner task hflight hlive

end Steps

end Reactive

end AckerDB
