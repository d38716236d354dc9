import AckerDB.Subscriptions.Reactive.Bookkeeping
import AckerDB.Subscriptions.Reactive.Versions

/-!
# Results are installed at new versions only

An evaluation begins to run only for an entry that is behind its mark, under a new generation, and
no mark is beyond the high-water.  So when its result is installed, at the high-water, the entry
was at an older version: an entry never takes two outcomes at one version.

* `Paced` — the invariant of the running evaluations;
* `paced_of_reachable` — it holds in every run.
-/

namespace AckerDB

open Protocol Function

namespace Reactive

/-- **The invariant of the running evaluations.** -/
structure Paced (s : State) : Prop where
  timely : Timely s
  links : Links s
  dirty : ∀ e, (s.entries e).dirtyVersion ≤ s.highWater
  known : ∀ t g, (s.evaluations t).phase = .running g →
    (s.evaluations t).entry < s.entryCount ∧
      g ≤ (s.entries (s.evaluations t).entry).evaluationGeneration
  /-- The entry of the newest generation is behind. -/
  behind : ∀ t g, (s.evaluations t).phase = .running g →
    g = (s.entries (s.evaluations t).entry).evaluationGeneration →
    (s.entries (s.evaluations t).entry).initialized = true →
    (s.entries (s.evaluations t).entry).commitVersion <
      (s.entries (s.evaluations t).entry).dirtyVersion
  /-- One evaluation runs under the newest generation. -/
  alone : ∀ t t', (s.evaluations t).entry = (s.evaluations t').entry →
    (s.evaluations t).phase =
      .running (s.entries (s.evaluations t).entry).evaluationGeneration →
    (s.evaluations t').phase =
      .running (s.entries (s.evaluations t').entry).evaluationGeneration → t = t'

theorem paced_initial (options : ReactiveOptions) : Paced (initial options) where
  timely :=
    ⟨OrderedPublication.wellFormed_initial _ _, OrderedPublication.carries_initial _ _,
      by simp [initial]⟩
  links := links_initial options
  dirty := fun _ => Nat.zero_le _
  known := fun t g hrunning => by simp [initial] at hrunning
  behind := fun t g hrunning => by simp [initial] at hrunning
  alone := fun t t' _ hrunning => by simp [initial] at hrunning

variable {e task : Nat}

section Changes

variable {options : ReactiveOptions} {event : Event} {s t : State}

/-- What the invariant reads of an entry. -/
structure SamePace (a b : QueryEntry) : Prop where
  initialized : a.initialized = b.initialized
  commitVersion : a.commitVersion = b.commitVersion
  dirtyVersion : a.dirtyVersion = b.dirtyVersion
  evaluationGeneration : a.evaluationGeneration = b.evaluationGeneration

theorem samePace_update {entry : QueryEntry} (h : SamePace entry (s.entries e)) (other : Nat) :
    SamePace (update s.entries e entry other) (s.entries other) :=
  (forall_update_iff s.entries fun i new => SamePace new (s.entries i)).2
    ⟨h, fun _ _ => ⟨rfl, rfl, rfl, rfl⟩⟩ other

/-- The evaluation ran before, and where it still has the newest generation of its entry, the entry
is as it was, at a mark that is no lower. -/
structure RanBefore (s t : State) (task g : Nat) : Prop where
  same : t.evaluations task = s.evaluations task
  generation : (s.entries (s.evaluations task).entry).evaluationGeneration ≤
    (t.entries (s.evaluations task).entry).evaluationGeneration
  newest : g = (t.entries (s.evaluations task).entry).evaluationGeneration →
    g = (s.entries (s.evaluations task).entry).evaluationGeneration ∧
    ((t.entries (s.evaluations task).entry).initialized = true →
      (s.entries (s.evaluations task).entry).initialized = true ∧
      (t.entries (s.evaluations task).entry).commitVersion =
        (s.entries (s.evaluations task).entry).commitVersion ∧
      (s.entries (s.evaluations task).entry).dirtyVersion ≤
        (t.entries (s.evaluations task).entry).dirtyVersion)

/-- An evaluation of an entry that is behind begins, under the newest generation. -/
structure Begins (t : State) (task g : Nat) : Prop where
  known : (t.evaluations task).entry < t.entryCount
  newest : g = (t.entries (t.evaluations task).entry).evaluationGeneration
  behind : (t.entries (t.evaluations task).entry).initialized = true →
    (t.entries (t.evaluations task).entry).commitVersion <
      (t.entries (t.evaluations task).entry).dirtyVersion
  only : ∀ other g', other ≠ task → (t.evaluations other).phase = .running g' →
    (t.evaluations other).entry = (t.evaluations task).entry → g' ≠ g

section

variable (h : Paced s)

include h

/-- **What a change may do to the running evaluations.** -/
theorem Paced.turn (hlinks : Links t) (htimely : Timely t)
    (hcount : s.entryCount ≤ t.entryCount) (hdirty : ∀ e, (t.entries e).dirtyVersion ≤ t.highWater)
    (hrunning : ∀ task g, (t.evaluations task).phase = .running g →
      RanBefore s t task g ∨ Begins t task g) : Paced t where
  timely := htimely
  links := hlinks
  dirty := hdirty
  known := by
    intro task g hphase
    rcases hrunning task g hphase with hran | hbegins
    · rw [hran.same] at hphase ⊢
      obtain ⟨hknown, hle⟩ := h.known task g hphase
      exact ⟨hknown.trans_le hcount, hle.trans hran.generation⟩
    · exact ⟨hbegins.known, hbegins.newest.le⟩
  behind := by
    intro task g hphase hnewest hinitialized
    rcases hrunning task g hphase with hran | hbegins
    · rw [hran.same] at hphase hnewest hinitialized ⊢
      obtain ⟨hbefore, hentry⟩ := hran.newest hnewest
      obtain ⟨hwas, hversion, hmark⟩ := hentry hinitialized
      rw [hversion]
      exact (h.behind task g hphase hbefore hwas).trans_le hmark
    · exact hbegins.behind hinitialized
  alone := by
    intro a b hentry ha hb
    by_contra hne
    rcases hrunning a _ ha with hran | hbegins
    · rcases hrunning b _ hb with hran' | hbegins'
      · obtain ⟨hbefore, -⟩ := hran.newest (by rw [hran.same])
        obtain ⟨hbefore', -⟩ := hran'.newest (by rw [hran'.same])
        rw [hbefore, hran.same] at ha
        rw [hbefore', hran'.same] at hb
        rw [hran.same, hran'.same] at hentry
        exact hne (h.alone a b hentry ha hb)
      · exact hbegins'.only a _ hne ha hentry (by rw [hentry])
    · exact hbegins.only b _ (Ne.symm hne) hb hentry.symm (by rw [hentry])

/-- A change that lets no evaluation begin and leaves the versions alone. -/
theorem Paced.congr (hlinks : Links t) (hpublication : t.publication = s.publication)
    (hcommits : t.commits = s.commits) (hconvergences : t.convergences = s.convergences)
    (hcount : t.entryCount = s.entryCount)
    (hevaluations : ∀ task g, (t.evaluations task).phase = .running g →
      t.evaluations task = s.evaluations task)
    (hentries : ∀ e, SamePace (t.entries e) (s.entries e)) : Paced t := by
  refine h.turn hlinks ⟨hpublication ▸ h.timely.wellFormed, ?_, ?_⟩ hcount.ge (fun e => ?_)
    fun task g hphase => .inl ⟨hevaluations task g hphase, (hentries _).evaluationGeneration.ge, ?_⟩
  · rw [hpublication, hcommits]
    exact h.timely.carries
  · rw [hconvergences, State.highWater, hpublication]
    exact h.timely.converging
  · rw [(hentries e).dirtyVersion, State.highWater, hpublication]
    exact h.dirty e
  · have hentry := hentries (s.evaluations task).entry
    rw [hentry.evaluationGeneration, hentry.initialized, hentry.commitVersion, hentry.dirtyVersion]
    exact fun hnewest => ⟨hnewest, fun hinitialized => ⟨hinitialized, rfl, le_rfl⟩⟩

/-- A change of the entries alone. -/
theorem Paced.frame (hlinks : Links t) (hpublication : t.publication = s.publication)
    (hcommits : t.commits = s.commits) (hconvergences : t.convergences = s.convergences)
    (hcount : t.entryCount = s.entryCount) (hevaluations : t.evaluations = s.evaluations)
    (hentries : ∀ e, SamePace (t.entries e) (s.entries e)) : Paced t :=
  h.congr hlinks hpublication hcommits hconvergences hcount
    (fun task _ _ => congrFun hevaluations task) hentries

theorem Paced.publish {publication : OrderedPublication ReactiveCommit}
    {commits : Nat → ReactiveCommit} (processed : List Nat)
    (hpublication : s.publication.WellFormed →
      publication.WellFormed ∧ s.highWater ≤ publication.committedHighWater)
    (hcarries : s.publication.WellFormed → s.publication.Carries s.commits →
      publication.Carries commits) : Paced { s with publication, commits, processed } := by
  obtain ⟨hwellFormed, hwater⟩ := hpublication h.timely.wellFormed
  have hlinks : Links { s with publication, commits, processed } :=
    { h.links with }
  refine ⟨⟨hwellFormed, hcarries h.timely.wellFormed h.timely.carries, ?_⟩, hlinks, ?_, h.known,
    h.behind, h.alone⟩
  · exact fun convergence hmem => (h.timely.converging convergence hmem).trans hwater
  · exact fun e => (h.dirty e).trans hwater

theorem Paced.calls {evaluations : Nat → Evaluation} (evaluationCount : Nat)
    {convergences : List Convergence}
    (hevaluations : ∀ t g, (evaluations t).phase = .running g → evaluations t = s.evaluations t)
    (hconvergences : ∀ convergence ∈ convergences, convergence.minimumVersion ≤ s.highWater) :
    Paced { s with evaluations, evaluationCount, convergences } := by
  have hlinks : Links { s with evaluations, evaluationCount } :=
    { h.links with }
  have hpaced : Paced { s with evaluations, evaluationCount } :=
    h.congr hlinks rfl rfl rfl rfl hevaluations fun _ => ⟨rfl, rfl, rfl, rfl⟩
  exact { hpaced with
      timely := ⟨h.timely.wellFormed, h.timely.carries, hconvergences⟩
      links := { h.links with } }

theorem Paced.mark {version : Nat} (hversion : version ≤ max (s.entries e).dirtyVersion s.highWater)
    (hlinks : Links (s.raiseDirty e version)) : Paced (s.raiseDirty e version) := by
  have hold := h.dirty e
  refine h.turn hlinks { h.timely with } le_rfl ?_ fun task g _ => .inl ⟨rfl, ?_, ?_⟩
  · refine (forall_update_iff s.entries fun _ entry => entry.dirtyVersion ≤ s.highWater).2
      ⟨?_, fun other _ => h.dirty other⟩
    show max (s.entries e).dirtyVersion version ≤ _
    omega
  all_goals
    by_cases he : (s.evaluations task).entry = e
    · simp only [State.raiseDirty, State.setEntry, he, update_self]
      simp
    · simp only [State.raiseDirty, State.setEntry, update_of_ne he]
      simp

theorem Paced.begin (hlinks : Links (s.begin task))
    (hlive : (s.entries (s.evaluations task).entry).removed = false)
    (hbehind : (s.entries (s.evaluations task).entry).initialized = true →
      (s.entries (s.evaluations task).entry).commitVersion <
        (s.entries (s.evaluations task).entry).dirtyVersion) : Paced (s.begin task) := by
  have hself : (s.begin task).evaluations task =
      { s.evaluations task with
        phase := .running ((s.entries (s.evaluations task).entry).evaluationGeneration + 1) } := by
    simp [State.begin, State.setPhase, State.setEntry]
  have hothers : ∀ other ≠ task, (s.begin task).evaluations other = s.evaluations other := by
    intro other hother
    simp [State.begin, State.setPhase, State.setEntry, update_of_ne hother]
  have hentry : (s.begin task).entries (s.evaluations task).entry =
      { s.entries (s.evaluations task).entry with
        evaluationGeneration :=
          (s.entries (s.evaluations task).entry).evaluationGeneration + 1 } := by
    simp [State.begin, State.setPhase, State.setEntry]
  have hentries : ∀ e ≠ (s.evaluations task).entry, (s.begin task).entries e = s.entries e := by
    intro e he
    simp [State.begin, State.setPhase, State.setEntry, update_of_ne he]
  -- an older run of the same entry has an older generation
  have holder : ∀ other g, (s.evaluations other).phase = .running g →
      (s.evaluations other).entry = (s.evaluations task).entry →
      g ≠ (s.entries (s.evaluations task).entry).evaluationGeneration + 1 := by
    intro other g hrunning hsame
    have hgeneration := (h.known other g hrunning).2
    rw [hsame] at hgeneration
    omega
  refine h.turn hlinks { h.timely with } le_rfl (fun e => ?_) fun other g hphase => ?_
  · by_cases he : e = (s.evaluations task).entry
    · rw [he, hentry]
      exact h.dirty _
    · rw [hentries e he]
      exact h.dirty e
  by_cases hother : other = task
  · subst hother
    rw [hself] at hphase
    cases hphase
    refine .inr ⟨?_, ?_, ?_, fun o g' hne ho hsame => ?_⟩ <;> rw [hself] at *
    · exact h.links.lt_of_live hlive
    · rw [hentry]
    · rw [hentry]
      exact hbehind
    · rw [hothers o hne] at ho hsame
      exact holder o g' ho hsame
  rw [hothers other hother] at hphase
  refine .inl ⟨hothers other hother, ?_, fun hnewest => ?_⟩
  all_goals by_cases he : (s.evaluations other).entry = (s.evaluations task).entry
  · rw [he, hentry]
    exact Nat.le_succ _
  · rw [hentries _ he]
  · rw [he, hentry] at hnewest
    exact absurd hnewest (holder other g hphase he)
  · rw [hentries _ he] at hnewest ⊢
    exact ⟨hnewest, fun hinitialized => ⟨hinitialized, rfl, le_rfl⟩⟩

/-- **A result is installed at a version the entry has not had.** -/
theorem Paced.rises
    (hrunning : (s.evaluations task).phase =
      .running (s.entries (s.evaluations task).entry).evaluationGeneration)
    (hinitialized : (s.entries (s.evaluations task).entry).initialized = true) :
    (s.entries (s.evaluations task).entry).commitVersion < s.highWater :=
  (h.behind task _ hrunning rfl hinitialized).trans_le (h.dirty _)

theorem Paced.install {task e : Nat} {evaluated : QueryEvaluation} {now : Int}
    (htask : (s.evaluations task).entry = e)
    (hrunning : (s.evaluations task).phase = .running (s.entries e).evaluationGeneration)
    (hlinks : Links ((s.install options e evaluated now).setPhase task (.delivering []))) :
    Paced ((s.install options e evaluated now).setPhase task (.delivering [])) := by
  obtain ⟨generation, hentries⟩ := s.install_entries options e evaluated now
  have hself : ((s.install options e evaluated now).setPhase task (.delivering [])).entries e =
      (s.entries e).take evaluated (options.byteLength evaluated.encoded) generation :=
    (congrFun hentries e).trans (update_self ..)
  have hentries : ∀ other ≠ e,
      ((s.install options e evaluated now).setPhase task (.delivering [])).entries other =
        s.entries other :=
    fun other hother => (congrFun hentries other).trans (update_of_ne hother _ _)
  refine h.turn hlinks { h.timely with } le_rfl (fun other => ?_) fun other g hphase => ?_
  · by_cases hother : other = e
    · rw [hother, hself]
      exact h.dirty e
    · rw [hentries other hother]
      exact h.dirty other
  have hne : other ≠ task := by
    rintro rfl
    simp [State.install, State.setPhase] at hphase
  have hsame : ((s.install options e evaluated now).setPhase task (.delivering [])).evaluations
      other = s.evaluations other := by
    simp [State.install, State.setPhase, update_of_ne hne]
  rw [hsame] at hphase
  refine .inl ⟨hsame, ?_, fun hnewest => ?_⟩
  all_goals by_cases he : (s.evaluations other).entry = e
  · rw [he, hself]
    rfl
  · rw [hentries _ he]
  · -- the newest run of the entry was the one that ends here
    rw [he, hself] at hnewest
    refine absurd (h.alone other task (he.trans htask.symm) ?_ ?_) hne
    · rw [he, hphase, hnewest]
      rfl
    · rw [htask, hrunning]
  · rw [hentries _ he] at hnewest ⊢
    exact ⟨hnewest, fun hinitialized => ⟨hinitialized, rfl, le_rfl⟩⟩

theorem Paced.addEntry (key : QueryKey) : Paced (s.addEntry options key) := by
  refine h.turn (h.links.addEntry key) { h.timely with } (Nat.le_succ _) ?_
    fun task g hphase => .inl ⟨rfl, ?_, ?_⟩
  · exact (forall_update_iff s.entries fun _ entry => entry.dirtyVersion ≤ s.highWater).2
      ⟨Nat.zero_le _, fun e _ => h.dirty e⟩
  all_goals
    have hne := Nat.ne_of_lt (h.known task g hphase).1
    simp only [State.addEntry, update_of_ne hne]
    simp

theorem Paced.unlink (hlinks : Links (s.unlink e)) :
    Paced (s.unlink e) := by
  refine h.turn hlinks { h.timely with } le_rfl ?_ fun task g hphase => .inl ⟨rfl, ?_, ?_⟩
  · exact (forall_update_iff s.entries fun _ entry => entry.dirtyVersion ≤ s.highWater).2
      ⟨h.dirty e, fun other _ => h.dirty other⟩
  all_goals
    have hgeneration := (h.known task g hphase).2
    by_cases he : (s.evaluations task).entry = e
    · simp only [State.unlink, he, update_self] at hgeneration ⊢
      omega
    · simp only [State.unlink, update_of_ne he]
      simp

theorem Paced.submit (hlinks : Links (s.submit e)) :
    Paced (s.submit e) := by
  refine h.congr hlinks rfl rfl rfl rfl ?_ (samePace_update ⟨rfl, rfl, rfl, rfl⟩)
  intro task g hrunning
  by_cases htask : task = s.evaluationCount
  · subst htask
    simp [State.submit] at hrunning
  · simp [State.submit, update_of_ne htask]

/-- **Every change keeps the pace.** -/
theorem Paced.change (hchange : Change options event s t) : Paced t := by
  have hlinks := h.links.change hchange
  cases hchange with
  | publication _ _ processed _ hpublication hcarries =>
    exact h.publish processed hpublication hcarries
  | calls _ evaluationCount _ hevaluations hconvergences =>
    exact h.calls evaluationCount hevaluations (hconvergences h.timely)
  | mark _ _ hversion => exact h.mark (hversion h.timely) hlinks
  | start _ _ hlive hbehind => exact h.begin hlinks hlive hbehind
  | submit => exact h.submit hlinks
  | install _ _ _ _ _ _ _ htask hrunning =>
    exact h.install htask hrunning hlinks
  | addEntry key => exact h.addEntry key
  | unlink => exact h.unlink hlinks
  | releaseEntry | attach =>
    exact h.frame hlinks rfl rfl rfl rfl rfl (samePace_update ⟨rfl, rfl, rfl, rfl⟩)
  | detach =>
    unfold State.detach at hlinks ⊢
    dsimp only at hlinks ⊢
    split at hlinks
    · rename_i hfound
      rw [if_pos hfound]
      exact h.frame hlinks rfl rfl rfl rfl rfl (samePace_update ⟨rfl, rfl, rfl, rfl⟩)
    · rename_i hfound
      rw [if_neg hfound]
      exact h
  | detachEvent =>
    unfold State.detachEvent at hlinks ⊢
    dsimp only at hlinks ⊢
    split at hlinks
    · rename_i hfound
      rw [if_pos hfound]
      exact h.frame hlinks rfl rfl rfl rfl rfl fun _ => ⟨rfl, rfl, rfl, rfl⟩
    · rename_i hfound
      rw [if_neg hfound]
      exact h
  | reset =>
    rw [reset_eq_setOutbox] at hlinks ⊢
    exact h.frame hlinks rfl rfl rfl rfl rfl fun _ => ⟨rfl, rfl, rfl, rfl⟩
  | _ => exact h.frame hlinks rfl rfl rfl rfl rfl fun _ => ⟨rfl, rfl, rfl, rfl⟩

end

end Changes

theorem paced_of_reachable {options : ReactiveOptions} {guard : State → Event → Prop} {s : State}
    (hreach : Run.Reachable (step options) guard (initial options) s) : Paced s :=
  invariant_of_changes hreach (paced_initial options) fun _ _ _ _ h hchange => h.change hchange

end Reactive

end AckerDB
