import AckerDB.Subscriptions.Reactive.Ordered

/-!
# Turns that leave the queries alone

Detaching and attaching listeners, sending, reporting failures, pruning and
evicting: whatever these turns do, an entry that stays live keeps its outcome, its
versions and its evaluation.

* `Retires` — removing entries and detaching listeners, one at a time;
* `Keeps` — the relation between the states before and after such a turn;
* `Keeps.retires`, `Keeps.report`, `Keeps.failEntry`, … — the operations that are such turns.
-/

namespace AckerDB

open Protocol Function

namespace Reactive

/-! ## Retiring entries and listeners -/

/-- What removing entries and making room is made of. -/
inductive Retire : State → State → Prop
  | detach (s : State) (l : Nat) (now : Int) : Retire s (s.detach l now)
  | unlink (s : State) (e : Nat) (hlive : (s.entries e).removed = false) : Retire s (s.unlink e)
  | pruneHistory (s : State) (now : Int) : Retire s { s with history := s.history.prune now }

/-- A turn that only retires. -/
abbrev Retires : State → State → Prop :=
  Relation.ReflTransGen Retire

namespace Retires

theorem foldl {α : Type} {f : State → α → State} (hf : ∀ s a, Retires s (f s a)) (s : State)
    (items : List α) : Retires s (items.foldl f s) := by
  induction items generalizing s with
  | nil => exact .refl
  | cons a rest ih => exact (hf s a).trans (ih (f s a))

theorem detach (s : State) (l : Nat) (now : Int) : Retires s (s.detach l now) :=
  .single (.detach s l now)

theorem removeEntry (s : State) (e : Nat) : Retires s (s.removeEntry e) := by
  unfold State.removeEntry
  split
  · exact .refl
  · rename_i hlive
    exact .head (.unlink s e (Bool.eq_false_of_not_eq_true hlive))
      (foldl (fun s l => detach s l 0) _ _)

variable (options : ReactiveOptions)

theorem prune (s : State) (now : Int) :
    Retires s (s.prune options now) := by
  refine .head (.pruneHistory s now) (foldl ?_ _ _)
  intro s e
  split
  · exact removeEntry s e
  · exact .refl

theorem evict (room : State → Bool) (exclude : Option Nat) (turns : Nat) (s : State) :
    Retires s (s.evict room exclude turns).1 := by
  induction turns generalizing s with
  | zero => exact .refl
  | succ turns ih =>
    unfold State.evict
    split
    · exact .refl
    split
    · exact .refl
    · rename_i e _
      exact (removeEntry s e).trans (ih (s.removeEntry e))

theorem makeEntryCapacity (s : State) (now : Int) :
    Retires s (s.makeEntryCapacity options now).1 := by
  unfold State.makeEntryCapacity
  split
  · exact .refl
  · exact (prune options s now).trans (evict _ _ _ _)

theorem makeResultCapacity (s : State) (e nextBytes : Nat) :
    Retires s (s.makeResultCapacity options e nextBytes).1 := by
  unfold State.makeResultCapacity
  split
  · exact .refl
  · split
    · exact .refl
    · split <;> rename_i heq <;> exact (congrArg Prod.fst heq) ▸ evict _ _ _ _

theorem reportDetach (s : State) (kind : ReportKind) (l : Nat) (now : Int) :
    Retires s (s.reportDetach kind l now) := by
  unfold State.reportDetach
  split
  · exact detach s l now
  · exact detach s l now
  · exact .refl

/-- Retiring adds no listener to an entry. -/
theorem listeners {s t : State} (h : Retires s t) (e : Nat) :
    ∀ l ∈ (t.entries e).listeners, l ∈ (s.entries e).listeners := by
  induction h with
  | refl => exact fun _ => id
  | @tail r _ _ hretire ih =>
    refine fun other hother => ih other ?_
    cases hretire with
    | detach l =>
      unfold State.detach at hother
      dsimp only at hother
      split at hother
      · by_cases he : e = (r.outbox.listeners l).entry
        · subst he
          simp only [update_self] at hother
          exact List.mem_of_mem_filter hother
        · simpa only [update_of_ne he] using hother
      · exact hother
    | unlink removed =>
      by_cases he : e = removed
      · subst he
        simpa [State.unlink] using hother
      · simpa [State.unlink, update_of_ne he] using hother
    | pruneHistory => exact hother

end Retires

/-! ## Keeping the queries -/

/-- The same query state: only who listens, and since when nobody does, may differ. -/
def QueryEntry.SameQuery (a b : QueryEntry) : Prop :=
  a = { b with listeners := a.listeners, dormantAtMs := a.dormantAtMs }

/-- A turn that at most removes entries and rearranges listeners and sends. -/
structure Keeps (s t : State) : Prop where
  publication : t.publication = s.publication
  evaluations : t.evaluations = s.evaluations
  evaluationCount : t.evaluationCount = s.evaluationCount
  entryCount : t.entryCount = s.entryCount
  commits : t.commits = s.commits
  processed : t.processed = s.processed
  convergences : t.convergences = s.convergences
  entries : ∀ e, (t.entries e).removed = true ∨ (t.entries e).SameQuery (s.entries e)

namespace Keeps

section

variable (s : State)

theorem refl : Keeps s s :=
  ⟨rfl, rfl, rfl, rfl, rfl, rfl, rfl, fun _ => .inr rfl⟩

theorem trans {s t u : State} (h : Keeps s t) (h' : Keeps t u) : Keeps s u where
  publication := h'.publication.trans h.publication
  evaluations := h'.evaluations.trans h.evaluations
  evaluationCount := h'.evaluationCount.trans h.evaluationCount
  entryCount := h'.entryCount.trans h.entryCount
  commits := h'.commits.trans h.commits
  processed := h'.processed.trans h.processed
  convergences := h'.convergences.trans h.convergences
  entries := by
    intro e
    rcases h'.entries e with hremoved | hsame
    · exact .inl hremoved
    rcases h.entries e with hremoved | hsame'
    · left
      rw [hsame]
      exact hremoved
    · right
      rw [QueryEntry.SameQuery, hsame, hsame']

theorem foldl {α : Type} {f : State → α → State} (hf : ∀ s a, Keeps s (f s a)) (s : State)
    (items : List α) : Keeps s (items.foldl f s) := by
  induction items generalizing s with
  | nil => exact refl s
  | cons a rest ih => exact (hf s a).trans (ih (f s a))

theorem detach (l : Nat) (now : Int) : Keeps s (s.detach l now) := by
  unfold State.detach
  dsimp only
  split
  · refine ⟨rfl, rfl, rfl, rfl, rfl, rfl, rfl, ?_⟩
    intro e
    by_cases he : e = (s.outbox.listeners l).entry
    · right
      subst he
      simp only [update_self]
      rfl
    · right
      simp only [update_of_ne he]
      rfl
  · exact refl s

theorem detachEvent (m : Nat) : Keeps s (s.detachEvent m) := by
  unfold State.detachEvent
  dsimp only
  split
  · exact ⟨rfl, rfl, rfl, rfl, rfl, rfl, rfl, fun _ => .inr rfl⟩
  · exact refl s

theorem detachBinding (binding : Binding) (now : Int) :
    Keeps s (s.detachBinding binding now) := by
  cases binding with
  | query l => exact detach s l now
  | event m => exact detachEvent s m

theorem setEvent (m : Nat) (listener : EventListener) :
    Keeps s (s.setEvent m listener) :=
  ⟨rfl, rfl, rfl, rfl, rfl, rfl, rfl, fun _ => .inr rfl⟩

theorem attach (listener : QueryListener) : Keeps s (s.attach listener) := by
  refine ⟨rfl, rfl, rfl, rfl, rfl, rfl, rfl, ?_⟩
  intro e
  right
  by_cases he : e = listener.entry
  · subst he
    simp only [State.attach, update_self]
    rfl
  · simp only [State.attach, update_of_ne he]
    rfl

theorem unlink (e : Nat) : Keeps s (s.unlink e) := by
  refine ⟨rfl, rfl, rfl, rfl, rfl, rfl, rfl, ?_⟩
  intro other
  by_cases hother : other = e
  · left
    subst hother
    simp only [State.unlink, update_self]
  · right
    simp only [State.unlink, update_of_ne hother]
    rfl

end

theorem retires {s t : State} (h : Retires s t) : Keeps s t := by
  induction h with
  | refl => exact refl s
  | tail _ hretire ih =>
    refine ih.trans ?_
    cases hretire with
    | detach l now => exact detach _ l now
    | unlink e => exact unlink _ e
    | pruneHistory => exact ⟨rfl, rfl, rfl, rfl, rfl, rfl, rfl, fun _ => .inr rfl⟩

variable (options : ReactiveOptions)

variable (s : State)

theorem deliverTo (l : Nat)
    (positiveResume forceReset : Bool) :
    Keeps s (s.deliverTo options l positiveResume forceReset) :=
  ⟨rfl, rfl, rfl, rfl, rfl, rfl, rfl, fun _ => .inr rfl⟩

theorem deliverInstalled (e : Nat) (forceReset : Bool) :
    Keeps s (s.deliverInstalled options e forceReset).1 :=
  foldl (fun s l => deliverTo options s l false forceReset) s _

theorem tellQuery (r l : Nat) (report : Report)
    (rest : List Binding) (now : Int) : Keeps s (s.tellQuery options r l report rest now) :=
  trans (retires (.reportDetach s _ l now)) ⟨rfl, rfl, rfl, rfl, rfl, rfl, rfl, fun _ => .inr rfl⟩

theorem tellEvent (r m : Nat) (report : Report) (rest : List Binding) :
    Keeps s (s.tellEvent r m report rest) :=
  trans (detachEvent s m) ⟨rfl, rfl, rfl, rfl, rfl, rfl, rfl, fun _ => .inr rfl⟩

theorem reportNext (r : Nat) (now : Int) :
    Keeps s (s.reportNext options r now) := by
  unfold State.reportNext
  split
  · rename_i report _
    split
    · exact tellQuery options s r _ report _ now
    · exact tellEvent s r _ report _
    · exact refl s
  · exact refl s

theorem report (kind : ReportKind) (outcome : Outcome)
    (listeners : List Binding) (now : Int) :
    Keeps s (s.report options kind outcome listeners now) := by
  refine trans ?_ (reportNext options _ _ now)
  exact ⟨rfl, rfl, rfl, rfl, rfl, rfl, rfl, fun _ => .inr rfl⟩

theorem failEntry (e : Nat) (error : Thrown) :
    Keeps s (s.failEntry options e error).1 := by
  unfold State.failEntry
  split
  · exact refl s
  · exact (retires (.removeEntry s e)).trans (report options _ _ _ _ _)

theorem endBindings (subscriber nextAuthEpoch : Nat)
    (kind : ReportKind) (outcome : Outcome) (now : Int) :
    Keeps s (s.endBindings options subscriber nextAuthEpoch kind outcome now) := by
  unfold State.endBindings
  dsimp only
  split
  · exact refl s
  · exact report options s _ _ _ now

theorem subscribeEvent (subscriber id : Nat)
    (table : String) (matches_ : Nat → JsValue → Except Thrown Bool) (authEpoch : Nat) :
    Keeps s (s.subscribeEvent options subscriber id table matches_ authEpoch) := by
  unfold State.subscribeEvent
  split
  · exact refl s
  · exact ⟨rfl, rfl, rfl, rfl, rfl, rfl, rfl, fun _ => .inr rfl⟩

theorem scheduleEvents (commitVersion : Nat) (events : List ReactiveEvent) :
    Keeps s (s.scheduleEvents commitVersion events) :=
  foldl (fun s _ => foldl (fun s m => setEvent s m _) s _) s events

theorem setCall (c : Nat) (call : SubscribeCall) : Keeps s (s.setCall c call) :=
  ⟨rfl, rfl, rfl, rfl, rfl, rfl, rfl, fun _ => .inr rfl⟩

theorem rejectCall (c : Nat) (call : SubscribeCall) : Keeps s (s.rejectCall c call) := by
  unfold State.rejectCall
  dsimp only
  split
  · exact (retires (.removeEntry s call.entry)).trans (setCall _ c _)
  · exact setCall s c _

theorem establish (c : Nat) (call : SubscribeCall) :
    Keeps s (s.establish options c call) :=
  ((attach s _).trans (deliverTo options _ _ true false)).trans (setCall _ c _)

/-- A removed entry stays removed, and an entry that stays live is as it was. -/
theorem live {s t : State} (hkeeps : Keeps s t) {e : Nat} (hlive : (t.entries e).removed = false) :
    (s.entries e).removed = false ∧ (t.entries e).SameQuery (s.entries e) := by
  rcases hkeeps.entries e with hremoved | hsame
  · rw [hremoved] at hlive
    cases hlive
  · refine ⟨?_, hsame⟩
    rw [hsame] at hlive
    exact hlive

theorem finishSubscribe {s t : State} {c : Nat} {now : Int}
    (hstep : s.finishSubscribe c now = some t) : Keeps s t := by
  unfold State.finishSubscribe at hstep
  split at hstep
  · rename_i call _
    split at hstep
    · rename_i l _ _
      split at hstep
      · cases hstep
        exact setCall s c _
      · cases hstep
        exact (detach s l now).trans (rejectCall _ c call)
      · cases hstep
    · cases hstep
  · cases hstep

end Keeps

theorem installEvaluation_evaluations (options : ReactiveOptions) (s : State) (e : Nat)
    (evaluation : QueryEvaluation) (now : Int) :
    (s.installEvaluation options e evaluation now).1.evaluations = s.evaluations := by
  have hkeeps := Keeps.retires (.makeResultCapacity options s e (options.byteLength evaluation.encoded))
  unfold State.installEvaluation
  dsimp only
  split
  · rename_i room _ heq
    rw [heq] at hkeeps
    exact (Keeps.retires (.removeEntry room e)).evaluations.trans hkeeps.evaluations
  · rename_i room heq
    rw [heq] at hkeeps
    exact hkeeps.evaluations

/-! ## What a turn comes to -/

section

variable {options : ReactiveOptions} {s t : State} {c task : Nat} {now : Int}

theorem compareAndInstall_ok {τ : Type} {p : OrderedPublication τ} {version : Nat} {current : Bool}
    (h : p.compareAndInstall version = .ok current) :
    current = decide (version = p.committedHighWater) := by
  unfold OrderedPublication.compareAndInstall at h
  split_ifs at h
  cases h
  rfl

theorem resumeSubscribe_cases (h : s.resumeSubscribe options c now = some t) :
    ∃ call, s.calls[c]? = some call ∧ (t = s.rejectCall c call ∨
      t = s.enterCall options c call now ∨ t = s.awaitCurrent c call ∨
      s.identityFree call.subscriber call.id = true ∧ (s.entries call.entry).removed = false ∧
        t = s.establish options c call) := by
  unfold State.resumeSubscribe at h
  grind

theorem evaluated_cases {result : Result} {readSet : List String} {commitVersion : Nat}
    (h : s.evaluated options task result readSet commitVersion now = some t) :
    ∃ generation, (s.evaluations task).phase = .running generation ∧
      ((∃ error, t = s.setPhase task (.threw error)) ∨ t = s.closeEvaluation task ∨
      ∃ evaluation, encodeExecution result readSet commitVersion = .ok evaluation ∧
        commitVersion = s.highWater ∧ (s.entries (s.evaluations task).entry).removed = false ∧
        (s.entries (s.evaluations task).entry).evaluationGeneration = generation ∧
        t = (s.installEvaluation options (s.evaluations task).entry evaluation
            now).1.afterInstall options task
          (s.installEvaluation options (s.evaluations task).entry evaluation now).2) := by
  unfold State.evaluated at h
  grind [compareAndInstall_ok, State.highWater]

theorem catchEvaluation_cases (h : s.catchEvaluation options task = some t) :
    ∃ error, (s.evaluations task).phase = .threw error ∧
      (t = (s.removeEntry (s.evaluations task).entry).setPhase task (.finished (some error)) ∨
      t = (s.removeEntry (s.evaluations task).entry).setPhase task (.finished none) ∨
      ∃ failed report, s.failEntry options (s.evaluations task).entry error = (failed, report) ∧
        t = failed.setPhase task (report.elim (.finished none) .reporting)) := by
  unfold State.catchEvaluation at h
  grind

/-- A `converge` call goes on with an entry or with a binding of its subscriber. -/
theorem convergeNext_cases {convergence : Convergence}
    (h : s.convergeNext options c convergence = some t) :
    ∃ u next, next.minimumVersion = convergence.minimumVersion ∧ t = u.setConvergence c next ∧
      ((∃ e, (s.entries e).removed = true ∧ u = s.raiseDirty e convergence.minimumVersion) ∨
      (∃ e, (s.entries e).removed = false ∧ u = ((s.raiseDirty e
        convergence.minimumVersion).ensureCurrent e convergence.minimumVersion).1) ∨
      ∃ id l, (s.bySubscriber convergence.subscriber).lookup id = some (.query l) ∧
        u = s.deliverTo options l false false) := by
  have hself : ∀ e, ((s.raiseDirty e convergence.minimumVersion).entries e).removed =
      (s.entries e).removed := by
    simp [State.raiseDirty, State.setEntry]
  unfold State.convergeNext at h
  split at h
  · grind
  split at h
  · cases h
  rename_i l rest hleft
  cases h
  have hskips : s.skipsBinding convergence l = false := by
    have hhead := List.head?_dropWhile_not (s.skipsBinding convergence) convergence.bindingsLeft
    rw [hleft] at hhead
    simpa using hhead
  simp only [State.skipsBinding, Bool.or_eq_false_iff, decide_eq_false_iff_not,
    Decidable.not_not] at hskips
  refine ⟨_, _, ?_, rfl, .inr (.inr ⟨_, l, hskips.1.2, rfl⟩)⟩
  rfl

theorem resumeConverge_cases (h : s.resumeConverge options c = some t) :
    ∃ convergence, s.convergences[c]? = some convergence ∧
      (s.convergeNext options c convergence = some t ∨
      ∃ e task error failed report wait, convergence.wait = .evaluation e task ∧
        (s.evaluations task).phase = .settled (some error) ∧
        s.failEntry options e error = (failed, report) ∧
        t = failed.setConvergence c { convergence with wait }) := by
  unfold State.resumeConverge State.awaited at h
  split at h
  · cases h
  · rename_i convergence hfound
    refine ⟨convergence, hfound, ?_⟩
    clear hfound
    grind

end

/-! ## Removal -/

theorem detach_removed (s : State) (l : Nat) (now : Int) (e : Nat) :
    ((s.detach l now).entries e).removed = (s.entries e).removed := by
  unfold State.detach
  dsimp only
  split
  · by_cases he : e = (s.outbox.listeners l).entry
    · subst he
      simp only [update_self]
    · simp only [update_of_ne he]
  · rfl

theorem removeEntry_removed (s : State) (e : Nat) : ((s.removeEntry e).entries e).removed = true := by
  unfold State.removeEntry
  split
  · assumption
  have hunlinked : ((s.unlink e).entries e).removed = true := by
    simp only [State.unlink, update_self]
  generalize s.unlink e = unlinked at hunlinked
  generalize (s.entries e).listeners = listeners
  induction listeners generalizing unlinked with
  | nil => exact hunlinked
  | cons l rest ih => exact ih _ ((detach_removed unlinked l 0 e).trans hunlinked)

theorem removeEntry_removed_of_ne (s : State) {e other : Nat} (hne : other ≠ e) :
    ((s.removeEntry e).entries other).removed = (s.entries other).removed := by
  unfold State.removeEntry
  split
  · rfl
  have hfold : ∀ (listeners : List Nat) (s : State),
      ((listeners.foldl (fun s l => s.detach l 0) s).entries other).removed =
        (s.entries other).removed := by
    intro listeners
    induction listeners with
    | nil => exact fun _ => rfl
    | cons l rest ih => exact fun s => (ih _).trans (detach_removed s l 0 other)
  rw [hfold]
  simp only [State.unlink, update_of_ne hne]

/-- The entry that asks for room is not evicted. -/
theorem oldestDormant_ne (s : State) (e : Nat) : s.oldestDormant (some e) ≠ some e := by
  refine List.foldlRecOn s.liveEntries _ (motive := fun oldest => oldest ≠ some e) (by simp) ?_
  intro oldest hne candidate _
  split
  · exact hne
  rename_i hcond
  have hother : candidate ≠ e := fun heq => hcond (.inl (congrArg some heq))
  split
  · simpa using hother
  · split
    · simpa using hother
    · exact hne

theorem evict_removed (room : State → Bool) (e turns : Nat) (s : State) :
    ((s.evict room (some e) turns).1.entries e).removed = (s.entries e).removed := by
  induction turns generalizing s with
  | zero => rfl
  | succ turns ih =>
    unfold State.evict
    split
    · rfl
    split
    · rfl
    rename_i dormant hdormant
    have hne : e ≠ dormant := by
      rintro rfl
      exact oldestDormant_ne s e hdormant
    rw [ih, removeEntry_removed_of_ne s hne]

theorem makeResultCapacity_removed (options : ReactiveOptions) (s : State) (e nextBytes : Nat) :
    ((s.makeResultCapacity options e nextBytes).1.entries e).removed = (s.entries e).removed := by
  unfold State.makeResultCapacity
  split
  · rfl
  · split
    · rfl
    · split <;> rename_i heq <;> rw [← evict_removed _ e s.liveEntries.length s, heq]

end Reactive

end AckerDB
