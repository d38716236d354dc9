import AckerDB.Subscriptions.Reactive.Frame

/-!
# What a turn is made of

Every turn of the machine is a sequence of elementary changes.  What each of them does to the
counters, the listeners, the sends and the resume window is easy to see, so an invariant is
proved of the changes and holds of every turn.

* `Change` — the elementary changes, with what is known when they happen;
* `step_changes` — a turn is a sequence of changes;
* `invariant_of_changes` — the rule that follows.
-/

namespace AckerDB

open Protocol Function

namespace Reactive

open State

/-- The turns of the writer and of the publication. -/
def Event.Publishes : Event → Prop
  | .reserve _ _ => True
  | .resize _ => True
  | .cancel => True
  | .commit _ _ => True
  | .publish => True
  | .settle _ _ _ => True
  | .close => True
  | _ => False

/-- The turns that may attach a query listener or start, settle or continue a send to one. -/
def Event.Sends : Event → Prop
  | .resumeSubscribe _ _ => True
  | .reset _ _ _ => True
  | .converge _ _ => True
  | .resumeConverge _ => True
  | .revoke _ _ _ _ => True
  | .rotateAuth _ _ _ => True
  | .resumeReport _ _ => True
  | .evaluated _ _ _ _ _ => True
  | .catchEvaluation _ => True
  | .sent _ => True
  | .sendFailed _ => True
  | .resumeDelivery _ => True
  | _ => False

/-- The request of a `subscribeQuery` call: what does not change while it runs. -/
def SubscribeCall.SameRequest (a b : SubscribeCall) : Prop :=
  a.subscriber = b.subscriber ∧ a.id = b.id ∧ a.authEpoch = b.authEpoch ∧ a.cursor = b.cursor

/-- The listener a `subscribeQuery` call attaches. -/
def SubscribeCall.listener (call : SubscribeCall) : QueryListener :=
  { subscriber := call.subscriber, id := call.id, entry := call.entry
    authEpoch := call.authEpoch, cursor := call.cursor }

/-- The entry `installEvaluation` writes to, and what it retains. -/
def State.install (options : ReactiveOptions) (s : State) (e : Nat) (evaluated : QueryEvaluation)
    (now : Int) : State :=
  let resultBytes := options.byteLength evaluated.encoded
  let installed := installResult s.records e (s.entries e) s.history evaluated resultBytes
    (s.fresh options) now
  { s with
    entries := update s.entries e installed.entry
    history := installed.history
    resultBytes := s.resultBytes + (resultBytes - (s.entries e).resultBytes)
    records := s.records + 1
    outbox := { s.outbox with
      generations := s.outbox.generations + if installed.forceReset then 1 else 0 } }

/-- An installation writes to its entry. -/
theorem State.install_entries (options : ReactiveOptions) (s : State) (e : Nat)
    (evaluated : QueryEvaluation) (now : Int) :
    ∃ generation, (s.install options e evaluated now).entries = update s.entries e
      ((s.entries e).take evaluated (options.byteLength evaluated.encoded) generation) := by
  obtain ⟨generation, hentry⟩ := installResult_entry s.records e (s.entries e) s.history evaluated
    (options.byteLength evaluated.encoded) (s.fresh options) now
  exact ⟨generation, congrArg (update s.entries e) hentry⟩

/-- The entry of an evaluation and the evaluation, when it begins to run. -/
def State.begin (s : State) (t : Nat) : State :=
  let e := (s.evaluations t).entry
  let evaluationGeneration := (s.entries e).evaluationGeneration + 1
  (s.setEntry e { s.entries e with evaluationGeneration }).setPhase t
    (.running evaluationGeneration)

/-- The tables know the listener: its entry lists it, or its subscriber finds it. -/
def State.Knows (s : State) (l : Nat) : Prop :=
  (∃ e, l ∈ (s.entries e).listeners) ∨
    ∃ subscriber id, (s.bySubscriber subscriber).lookup id = some (.query l)

/-- What bounds the versions that entries are asked to reach: committed slots are not beyond the
high-water, and neither is what a `converge` call waits for. -/
structure Timely (s : State) : Prop where
  wellFormed : s.publication.WellFormed
  carries : s.publication.Carries s.commits
  converging : ∀ convergence ∈ s.convergences, convergence.minimumVersion ≤ s.highWater

/-- An elementary change in a turn of `event`. -/
inductive Change (options : ReactiveOptions) (event : Event) : State → State → Prop
  /-- The publication, and what the turns of the writer record. -/
  | publication (s : State) (publication : OrderedPublication ReactiveCommit)
      (commits : Nat → ReactiveCommit) (processed : List Nat) : event.Publishes →
      (s.publication.WellFormed →
        publication.WellFormed ∧ s.highWater ≤ publication.committedHighWater) →
      (s.publication.WellFormed → s.publication.Carries s.commits → publication.Carries commits) →
      Change options event s { s with publication, commits, processed }
  /-- Calls that only wait; no evaluation begins to run. -/
  | calls (s : State) (evaluations : Nat → Evaluation) (evaluationCount : Nat)
      (convergences : List Convergence) :
      (∀ t g, (evaluations t).phase = .running g → evaluations t = s.evaluations t) →
      (Timely s → ∀ convergence ∈ convergences, convergence.minimumVersion ≤ s.highWater) →
      Change options event s { s with evaluations, evaluationCount, convergences }
  | subscribe (s : State) (call : SubscribeCall) :
      (∃ address args fingerprint now, event = .subscribeQuery call.subscriber call.id address args
        fingerprint call.authEpoch call.cursor now) → call.authEpoch ≤ maxSafeInteger →
      Change options event s { s with calls := s.calls ++ [call] }
  | setCall (s : State) (c : Nat) (call before : SubscribeCall) : s.calls[c]? = some before →
      call.SameRequest before → Change options event s (s.setCall c call)
  | mark (s : State) (e version : Nat) :
      (Timely s → version ≤ max (s.entries e).dirtyVersion s.highWater) →
      Change options event s (s.raiseDirty e version)
  /-- An evaluation of an entry that is behind begins to run, under a new generation. -/
  | start (s : State) (t : Nat) : (s.evaluations t).phase = .queued →
      (s.entries (s.evaluations t).entry).removed = false →
      ((s.entries (s.evaluations t).entry).initialized = true →
        (s.entries (s.evaluations t).entry).commitVersion <
          (s.entries (s.evaluations t).entry).dirtyVersion) →
      Change options event s (s.begin t)
  | submit (s : State) (e : Nat) : (s.entries e).removed = false →
      (s.entries e).evaluation = none → Change options event s (s.submit e)
  | releaseEntry (s : State) (t : Nat) (now : Int) : event = .release t now →
      Change options event s (s.releaseEntry t now)
  | addEntry (s : State) (key : QueryKey) : Change options event s (s.addEntry options key)
  | unlink (s : State) (e : Nat) : (s.entries e).removed = false →
      Change options event s (s.unlink e)
  /-- The running evaluation of the entry ends with a result. -/
  | install (s : State) (t e : Nat) (result : Result) (readSet : List String) (commitVersion : Nat)
      (evaluated : QueryEvaluation) (now : Int) : (s.evaluations t).entry = e →
      (s.evaluations t).phase = .running (s.entries e).evaluationGeneration →
      (s.entries e).removed = false →
      encodeExecution result readSet commitVersion = .ok evaluated → commitVersion = s.highWater →
      (options.byteLength evaluated.encoded : Int) ≤
        options.maxSharedResultBytes - (s.resultBytes - (s.entries e).resultBytes) →
      Change options event s ((s.install options e evaluated now).setPhase t (.delivering []))
  | pruneHistory (s : State) (now : Int) :
      Change options event s { s with history := s.history.prune now }
  | detach (s : State) (l : Nat) (now : Int) : Change options event s (s.detach l now)
  | attach (s : State) (c : Nat) (call : SubscribeCall) : event.Sends → s.calls[c]? = some call →
      s.identityFree call.subscriber call.id = true → (s.entries call.entry).removed = false →
      Change options event s (s.attach call.listener)
  | deliver (s : State) (l : Nat) (positiveResume forceReset : Bool) : event.Sends →
      s.Knows l → Change options event s (s.deliverTo options l positiveResume forceReset)
  | reset (s : State) (subscriber id : Nat) (source : SubscriptionCursor) :
      event = .reset subscriber id source →
      Change options event s (s.reset options subscriber id source)
  | report (s : State) (report : Report) :
      (∀ n, report.kind = .revocation (some n) ∨ report.kind = .rotation n → n ≤ maxSafeInteger) →
      Change options event s { s with reports := s.reports ++ [report] }
  | tell (s : State) (r l : Nat) (report : Report) (left : List Binding)
      (waiting : Option ReportWait) : event.Sends → s.reports[r]? = some report →
      Change options event s { s with
        outbox := s.outbox.beginSend options l
          (reportSend report.kind report.outcome (s.outbox.listeners l))
        reports := s.reports.set r { report with left, waiting } }
  | setReport (s : State) (r : Nat) (report : Report) (left : List Binding)
      (waiting : Option ReportWait) : s.reports[r]? = some report →
      Change options event s { s with reports := s.reports.set r { report with left, waiting } }
  | sent (s : State) (l : Nat) (outbox : Outbox) : event.Sends →
      s.outbox.sent options l = some outbox →
      Change options event s { s with outbox }
  | sendFailed (s : State) (l : Nat) (outbox : Outbox) : event.Sends →
      s.outbox.sendFailed options l = some outbox → Change options event s { s with outbox }
  | resumeDelivery (s : State) (d : Nat) (outbox : Outbox) : event.Sends →
      s.outbox.resume options d = some outbox → Change options event s { s with outbox }
  | detachEvent (s : State) (m : Nat) : Change options event s (s.detachEvent m)
  | attachEvent (s : State) (subscriber id : Nat) (table : String)
      (matches_ : Nat → JsValue → Except Thrown Bool) (authEpoch : Nat) :
      s.identityFree subscriber id = true →
      Change options event s { s.attachEvent
          (openEvent subscriber id table matches_ authEpoch (s.fresh options) s.highWater) with
        outbox := { s.outbox with generations := s.outbox.generations + 1 } }
  | offer (s : State) (m commitVersion : Nat) (row : JsValue) : event = .publish →
      Change options event s (s.setEvent m ((s.events.listeners m).offer commitVersion row))
  | tellEvent (s : State) (m : Nat) (report : Report) :
      Change options event s (s.setEvent m (toldEvent report (s.events.listeners m)))
  | finishEvent (s : State) (m : Nat) : (s.events.listeners m).call = .failed →
      Change options event s (s.setEvent m { s.events.listeners m with call := .finished })
  | settleEvent (s : State) (m : Nat) (listener : EventListener) :
      (s.events.listeners m).sent = some listener ∨
        (s.events.listeners m).sendFailed = some listener →
      Change options event s (s.setEvent m listener)

/-- A sequence of elementary changes. -/
abbrev Changes (options : ReactiveOptions) (event : Event) : State → State → Prop :=
  Relation.ReflTransGen (Change options event)

variable {convergence : Convergence} {kind : ReportKind} {e : Nat}

section Decompose

variable {options : ReactiveOptions} {event : Event}

theorem Changes.of {s t : State} (h : Change options event s t) : Changes options event s t :=
  .single h

/-- A part of a turn that leaves the publication, the calls, the reports, the sends and the events
alone; it may draw generations. -/
structure Bare (options : ReactiveOptions) (event : Event) (s t : State) : Prop where
  changes : Changes options event s t
  publication : t.publication = s.publication
  commits : t.commits = s.commits
  convergences : t.convergences = s.convergences
  calls : t.calls = s.calls
  reports : t.reports = s.reports
  outbox : t.outbox = { s.outbox with generations := t.outbox.generations }
  events : t.events = s.events

namespace Bare

variable {s t : State} {version : Nat}

theorem refl (s : State) : Bare options event s s := ⟨.refl, rfl, rfl, rfl, rfl, rfl, rfl, rfl⟩

theorem trans {u : State} (h : Bare options event s t) (h' : Bare options event t u) :
    Bare options event s u where
  changes := h.changes.trans h'.changes
  publication := h'.publication.trans h.publication
  commits := h'.commits.trans h.commits
  convergences := h'.convergences.trans h.convergences
  calls := h'.calls.trans h.calls
  reports := h'.reports.trans h.reports
  outbox := by rw [h'.outbox, h.outbox]
  events := h'.events.trans h.events

theorem detach (s : State) (l : Nat) (now : Int) : Bare options event s (s.detach l now) := by
  refine ⟨.of (.detach s l now), ?_, ?_, ?_, ?_, ?_, ?_, ?_⟩
  all_goals
    unfold State.detach
    dsimp only
    split <;> rfl

theorem retires (h : Retires s t) : Bare options event s t := by
  induction h with
  | refl => exact refl s
  | tail _ hretire ih =>
    refine ih.trans ?_
    cases hretire with
    | detach l now => exact detach _ l now
    | unlink e hlive => exact ⟨.of (.unlink _ e hlive), rfl, rfl, rfl, rfl, rfl, rfl, rfl⟩
    | pruneHistory now => exact ⟨.of (.pruneHistory _ now), rfl, rfl, rfl, rfl, rfl, rfl, rfl⟩

/-- What is bounded before a part of a turn is bounded after it. -/
theorem timely (h : Bare options event s t) (htimely : Timely t) : Timely s where
  wellFormed := h.publication ▸ htimely.wellFormed
  carries := by
    have hcarries := htimely.carries
    rwa [h.publication, h.commits] at hcarries
  converging := by
    have hconverging := htimely.converging
    rwa [h.convergences, highWater, h.publication] at hconverging

theorem highWater (h : Bare options event s t) : t.highWater = s.highWater := by
  rw [State.highWater, h.publication]
  rfl

theorem raiseDirty (hversion : Timely s → version ≤ max (s.entries e).dirtyVersion s.highWater) :
    Bare options event s (s.raiseDirty e version) :=
  ⟨.of (.mark s e version hversion), rfl, rfl, rfl, rfl, rfl, rfl, rfl⟩

theorem setPhase (s : State) (t : Nat) {phase : EvaluationPhase}
    (hphase : ∀ g, phase ≠ .running g) : Bare options event s (s.setPhase t phase) := by
  refine ⟨.of (.calls s _ s.evaluationCount s.convergences ?_ fun h => h.converging), rfl, rfl, rfl,
    rfl, rfl, rfl, rfl⟩
  intro task g hrunning
  by_cases htask : task = t
  · subst htask
    rw [update_self] at hrunning
    exact absurd hrunning (hphase g)
  · rw [update_of_ne htask]

theorem ensureCurrent {target : Nat} (hlive : (s.entries e).removed = false)
    (htarget : Timely s → target ≤ max (s.entries e).dirtyVersion s.highWater) :
    Bare options event s (s.ensureCurrent e target).1 := by
  have hraised : Bare options event s (s.raiseDirty e target) := raiseDirty htarget
  have hself : ((s.raiseDirty e target).entries e).removed = (s.entries e).removed := by
    simp only [State.raiseDirty, State.setEntry, update_self]
  unfold State.ensureCurrent
  dsimp only
  split
  · exact hraised
  split
  · exact hraised
  · rename_i hnone
    exact hraised.trans ⟨.of (.submit _ e (hself.trans hlive) hnone), rfl, rfl, rfl, rfl, rfl, rfl, rfl⟩

theorem entryFor (s : State) (key : QueryKey) (now : Int) :
    Bare options event s (s.entryFor options key now).1 := by
  unfold State.entryFor
  split
  · exact refl s
  split <;> rename_i heq
  · have hroom : Bare options event s _ := retires (.makeEntryCapacity options s now)
    rw [heq] at hroom
    exact hroom.trans ⟨.of (.addEntry _ key), rfl, rfl, rfl, rfl, rfl, rfl, rfl⟩
  · have hroom : Bare options event s _ := retires (.makeEntryCapacity options s now)
    rw [heq] at hroom
    exact hroom

theorem closeEvaluation (s : State) (t : Nat) : Bare options event s (s.closeEvaluation t) := by
  unfold State.closeEvaluation
  dsimp only
  split <;> exact (raiseDirty fun _ => le_max_right _ _).trans (setPhase _ t (by simp))

theorem revalidate (e : Nat) (hversion : Timely s → version ≤ s.highWater) :
    Bare options event s (State.revalidate version s e) := by
  unfold State.revalidate
  split
  · exact refl s
  rename_i hcond
  have hraised : Bare options event s (s.raiseDirty e version) :=
    raiseDirty fun h => (hversion h).trans (le_max_right _ _)
  have hlive : ((s.raiseDirty e version).entries e).removed = false := by
    simp only [Bool.or_eq_true, not_or, Bool.not_eq_true] at hcond
    simp only [State.raiseDirty, State.setEntry, update_self]
    exact hcond.1
  refine hraised.trans (ensureCurrent hlive fun _ => ?_)
  simp [State.raiseDirty, State.setEntry]

theorem revalidates (entries : List Nat) (hversion : Timely s → version ≤ s.highWater) :
    Bare options event s (entries.foldl (State.revalidate version) s) := by
  induction entries generalizing s with
  | nil => exact refl s
  | cons e _ ih =>
    have hfirst : Bare options event s (State.revalidate version s e) := revalidate e hversion
    refine hfirst.trans (ih fun h => ?_)
    rw [hfirst.highWater]
    exact hversion (hfirst.timely h)

/-- What `release` does after the entry forgot the evaluation. -/
theorem release {task : Nat} {now : Int} (hstep : s.release task now = some t) :
    Bare options event (s.releaseEntry task now) t := by
  have hreleased : ∀ error, Bare options event (s.releaseEntry task now)
      ((s.releaseEntry task now).setPhase task (.settled error)) :=
    fun error => setPhase _ task (by simp)
  unfold State.release at hstep
  dsimp only at hstep
  split at hstep
  · split at hstep
    · rename_i hcond
      have hlive : (((s.releaseEntry task now).setPhase task (.settled none)).entries
          (s.evaluations task).entry).removed = false := by
        simp only [Bool.and_eq_true, Bool.not_eq_true'] at hcond
        exact hcond.1
      have hnext := (hreleased none).trans (ensureCurrent hlive fun _ => le_max_left _ _)
      split at hstep <;> rename_i heq <;> cases hstep <;> rw [heq] at hnext
      · exact hnext.trans (setPhase _ task (by simp))
      · exact hnext
    · cases hstep
      exact hreleased _
  · cases hstep
    exact hreleased _
  · cases hstep

end Bare

variable {s t : State} {c task : Nat} {before : SubscribeCall} {now : Int}

/-! ## Deliveries and reports -/

theorem Bare.call (h : Bare options event s t) (hcall : s.calls[c]? = some before) :
    t.calls[c]? = some before := by
  rw [h.calls, hcall]

theorem Changes.deliverInstalled (hsends : event.Sends) (s : State) (e : Nat) (forceReset : Bool) :
    Changes options event s (s.deliverInstalled options e forceReset).1 := by
  have hknows : ∀ l ∈ (s.entries e).listeners, s.Knows l := fun l hl => .inl ⟨e, hl⟩
  unfold State.deliverInstalled
  generalize (s.entries e).listeners = listeners at hknows ⊢
  induction listeners generalizing s with
  | nil => exact .refl
  | cons l _ ih =>
    refine .head (.deliver s l false forceReset hsends (hknows l List.mem_cons_self)) (ih _ ?_)
    exact fun other hother => hknows other (List.mem_cons_of_mem _ hother)

@[simp] theorem detachEvent_reports (s : State) (m : Nat) :
    (s.detachEvent m).reports = s.reports := by
  unfold detachEvent
  dsimp only
  split <;> rfl

theorem Changes.tellQuery (hsends : event.Sends) {r l : Nat} {report : Report} (rest : List Binding)
    (now : Int) (hreport : s.reports[r]? = some report) :
    Changes options event s (s.tellQuery options r l report rest now) := by
  have hdetach : Bare options event s (s.reportDetach report.kind l now) :=
    .retires (.reportDetach s report.kind l now)
  refine hdetach.changes.tail (.tell _ r l report rest _ hsends ?_)
  rw [hdetach.reports, hreport]

theorem Changes.tellEvent {r m : Nat} {report : Report} (rest : List Binding)
    (hreport : s.reports[r]? = some report) :
    Changes options event s (s.tellEvent r m report rest) := by
  have htold : Changes options event s ((s.detachEvent m).setEvent m
      (toldEvent report ((s.detachEvent m).events.listeners m))) :=
    (Changes.of (.detachEvent s m)).tail (.tellEvent _ m report)
  refine htold.tail (.setReport _ r report rest _ ?_)
  show (s.detachEvent m).reports[r]? = some report
  rw [detachEvent_reports, hreport]

theorem Changes.reportNext (hsends : event.Sends) (s : State) (r : Nat) (now : Int) :
    Changes options event s (s.reportNext options r now) := by
  unfold State.reportNext
  split
  · rename_i report hreport
    split
    · exact tellQuery hsends _ now hreport
    · exact tellEvent _ hreport
    · exact .refl
  · exact .refl

theorem Changes.report (hsends : event.Sends) (outcome : Outcome) (listeners : List Binding)
    (now : Int)
    (hkind : ∀ n, kind = .revocation (some n) ∨ kind = .rotation n → n ≤ maxSafeInteger) :
    Changes options event s (s.report options kind outcome listeners now) :=
  (Changes.of (.report s _ hkind)).trans (reportNext hsends _ _ now)

theorem Changes.failEntry (hsends : event.Sends) (s : State) (e : Nat) (error : Thrown) :
    Changes options event s (s.failEntry options e error).1 := by
  unfold State.failEntry
  split
  · exact .refl
  · refine (Bare.retires (.removeEntry s e)).changes.trans (Changes.report hsends _ _ 0 ?_)
    intro n hn
    split at hn <;> simp at hn

/-! ## The turns -/

theorem evict_room {room : State → Bool} {exclude : Option Nat} {turns : Nat}
    (h : s.evict room exclude turns = (t, true)) : room t = true := by
  induction turns generalizing s with
  | zero =>
    simp only [evict, Prod.mk.injEq] at h
    rw [← h.1]
    exact h.2
  | succ _ ih =>
    unfold evict at h
    split at h
    · rename_i hroom
      cases h
      exact hroom
    · split at h
      · cases h
      · exact ih h

/-- Where `makeResultCapacity` found room, the result fits. -/
theorem makeResultCapacity_fits {nextBytes : Nat}
    (h : s.makeResultCapacity options e nextBytes = (t, none)) :
    (nextBytes : Int) ≤ options.maxSharedResultBytes - (t.resultBytes - (t.entries e).resultBytes) := by
  unfold makeResultCapacity at h
  split at h
  · cases h
  split at h
  · cases h
  · split at h <;> rename_i heq <;> cases h
    exact of_decide_eq_true (evict_room heq)

theorem setPhase_setPhase (s : State) (t : Nat) (first second : EvaluationPhase) :
    (s.setPhase t first).setPhase t second = s.setPhase t second := by
  simp [setPhase]

theorem deliverInstalled_setPhase (s : State) (t e : Nat) (phase : EvaluationPhase)
    (forceReset : Bool) :
    (s.setPhase t phase).deliverInstalled options e forceReset =
      ((s.deliverInstalled options e forceReset).1.setPhase t phase,
        (s.deliverInstalled options e forceReset).2) := by
  unfold deliverInstalled
  refine Prod.ext ?_ rfl
  show (s.entries e).listeners.foldl _ (s.setPhase t phase) = _
  generalize (s.entries e).listeners = listeners
  induction listeners generalizing s with
  | nil => rfl
  | cons l _ ih => exact ih (s.deliverTo options l false forceReset)

/-- What `installEvaluation` does, once the evaluation is no longer running. -/
theorem Changes.installEvaluation {s : State} {t e : Nat} {result : Result}
    {readSet : List String} {commitVersion : Nat} {evaluation : QueryEvaluation} (now : Int)
    (htask : (s.evaluations t).entry = e)
    (hrunning : (s.evaluations t).phase = .running (s.entries e).evaluationGeneration)
    (hencoded : encodeExecution result readSet commitVersion = .ok evaluation)
    (hversion : commitVersion = s.highWater) (hlive : (s.entries e).removed = false) :
    Changes options event s
      ((s.installEvaluation options e evaluation now).1.setPhase t (.delivering [])) := by
  have hkeeps := Keeps.retires (.makeResultCapacity options s e (options.byteLength evaluation.encoded))
  have hremoved := makeResultCapacity_removed options s e (options.byteLength evaluation.encoded)
  have hroom : Bare options event s _ :=
    .retires (.makeResultCapacity options s e (options.byteLength evaluation.encoded))
  unfold State.installEvaluation
  dsimp only
  split <;> rename_i heq <;> rw [heq] at hkeeps hremoved hroom
  · exact hroom.changes.trans
      ((Bare.retires (.removeEntry _ e)).trans (Bare.setPhase _ t (by simp))).changes
  rename_i room
  have hroomLive := hremoved.trans hlive
  have hsame : (room.entries e).evaluationGeneration = (s.entries e).evaluationGeneration := by
    rcases hkeeps.entries e with hgone | hsame
    · exact absurd (hroomLive.symm.trans hgone) (by simp)
    · rw [hsame]
  refine hroom.changes.tail (.install _ t e result readSet commitVersion evaluation now ?_ ?_
    hroomLive hencoded ?_ (makeResultCapacity_fits heq))
  · rw [hkeeps.evaluations, htask]
  · rw [hkeeps.evaluations, hrunning, hsame]
  · rw [hversion, State.highWater, State.highWater, hkeeps.publication]

theorem Bare.overflow {evaluation : QueryEvaluation} {message : String} {listeners : List Nat}
    (h : (s.installEvaluation options e evaluation now).2 = .overflowed message listeners) :
    Bare options event s (s.installEvaluation options e evaluation now).1 := by
  have hroom : Bare options event s _ :=
    .retires (.makeResultCapacity options s e (options.byteLength evaluation.encoded))
  unfold installEvaluation at h ⊢
  dsimp only at h ⊢
  split at h <;> rename_i heq <;> rw [heq] at hroom
  · exact hroom.trans (.retires (.removeEntry _ e))
  · cases h

/-- An installed result is delivered. -/
theorem Changes.afterInstalled (hsends : event.Sends) (s : State) (t : Nat)
    (previousVersion : Option Nat) (forceReset : Bool) :
    Changes options event (s.setPhase t (.delivering []))
      (s.afterInstall options t (.installed previousVersion forceReset)) := by
  cases previousVersion with
  | none => exact .refl
  | some =>
    have hdelivered : Changes options event (s.setPhase t (.delivering [])) _ :=
      Changes.deliverInstalled hsends (s.setPhase t (.delivering [])) (s.evaluations t).entry
        forceReset
    rw [deliverInstalled_setPhase] at hdelivered
    have hphase := @Bare.setPhase options event
      ((s.deliverInstalled options (s.evaluations t).entry forceReset).1.setPhase t
        (.delivering [])) t
      (.delivering (s.deliverInstalled options (s.evaluations t).entry forceReset).2) (by simp)
    rw [setPhase_setPhase] at hphase
    exact hdelivered.trans hphase.changes

theorem Changes.afterOverflow (hsends : event.Sends) (s : State) (t : Nat) (message : String)
    (listeners : List Nat) :
    Changes options event s (s.afterInstall options t (.overflowed message listeners)) := by
  cases listeners with
  | nil => exact (Bare.setPhase s t (by simp)).changes
  | cons =>
    refine Relation.ReflTransGen.trans (Changes.report hsends _ _ 0 ?_)
      (Bare.setPhase _ t (by simp)).changes
    intro n hn
    simp at hn

theorem Changes.evaluated (hsends : event.Sends) {result : Result} {readSet : List String}
    {commitVersion : Nat}
    (hstep : s.evaluated options task result readSet commitVersion now = some t) :
    Changes options event s t := by
  obtain ⟨_, hphase, ⟨error, rfl⟩ | rfl | ⟨evaluation, hencoded, hversion, hlive, rfl, rfl⟩⟩ :=
    evaluated_cases hstep
  · exact (Bare.setPhase s task (by simp)).changes
  · exact (Bare.closeEvaluation s task).changes
  have hinstalled : Changes options event s _ :=
    Changes.installEvaluation now rfl hphase hencoded hversion hlive
  cases houtcome : (s.installEvaluation options (s.evaluations task).entry evaluation now).2 with
  | overflowed message listeners =>
    exact (Bare.overflow houtcome).changes.trans
      (Changes.afterOverflow hsends _ task message listeners)
  | installed previousVersion forceReset =>
    exact hinstalled.trans (Changes.afterInstalled hsends _ task previousVersion forceReset)

theorem Changes.catchEvaluation (hsends : event.Sends)
    (hstep : s.catchEvaluation options task = some t) : Changes options event s t := by
  have hremoved : Bare options event s (s.removeEntry (s.evaluations task).entry) :=
    .retires (.removeEntry s _)
  obtain ⟨error, _, rfl | rfl | ⟨failed, report, heq, rfl⟩⟩ := catchEvaluation_cases hstep
  · exact (hremoved.trans (.setPhase _ task (by simp))).changes
  · exact (hremoved.trans (.setPhase _ task (by simp))).changes
  have hfailed : Changes options event s _ :=
    Changes.failEntry hsends s (s.evaluations task).entry error
  rw [heq] at hfailed
  exact hfailed.trans (Bare.setPhase _ task (by cases report <;> simp)).changes

theorem Changes.finishEvaluation (hstep : s.finishEvaluation task = some t) :
    Changes options event s t := by
  unfold State.finishEvaluation at hstep
  split at hstep
  · split at hstep <;> cases hstep
    exact (Bare.closeEvaluation s task).changes
  · split at hstep <;> cases hstep
    exact (Bare.setPhase s task (by simp)).changes
  · cases hstep

theorem Changes.startEvaluation (hstep : s.startEvaluation task = some t) :
    Changes options event s t := by
  unfold State.startEvaluation at hstep
  dsimp only at hstep
  split at hstep
  · cases hstep
  split at hstep
  · cases hstep
    exact (Bare.setPhase s task (by simp)).changes
  rename_i hqueued hlive
  split at hstep <;> cases hstep
  · rename_i hbehind
    refine .of (.start s task (not_not.1 hqueued) (Bool.eq_false_of_not_eq_true hlive) ?_)
    intro hinitialized
    simpa [hinitialized] using hbehind
  · exact (Bare.setPhase s task (by simp)).changes

theorem Changes.finishChain (hstep : s.finishChain task = some t) :
    Changes options event s t := by
  unfold State.finishChain at hstep
  split at hstep
  · split at hstep <;> cases hstep
    exact (Bare.setPhase s task (by simp)).changes
  · cases hstep

/-! ## Subscriptions -/

theorem Changes.rejectCall {call : SubscribeCall} (hcall : s.calls[c]? = some before)
    (hsame : call.SameRequest before) :
    Changes options event s (s.rejectCall c call) := by
  unfold State.rejectCall
  dsimp only
  split
  · have hremoved : Bare options event s (s.removeEntry call.entry) :=
      .retires (.removeEntry s call.entry)
    exact hremoved.changes.tail (.setCall _ c _ before (hremoved.call hcall) hsame)
  · exact .single (.setCall s c _ before hcall hsame)

theorem Changes.awaitCurrent {call : SubscribeCall} (hcall : s.calls[c]? = some before)
    (hsame : call.SameRequest before) :
    Changes options event s (s.awaitCurrent c call) := by
  unfold State.awaitCurrent
  split
  · exact rejectCall hcall hsame
  rename_i hlive
  have hensured : Bare options event s (s.ensureCurrent call.entry s.highWater).1 :=
    .ensureCurrent (Bool.eq_false_of_not_eq_true hlive) fun _ => le_max_right _ _
  exact hensured.changes.tail (.setCall _ c _ before (hensured.call hcall) hsame)

theorem Changes.enterCall {call : SubscribeCall} (now : Int) (hcall : s.calls[c]? = some before)
    (hsame : call.SameRequest before) :
    Changes options event s (s.enterCall options c call now) := by
  have hentry : Bare options event s (s.entryFor options call.key now).1 :=
    .entryFor s call.key now
  unfold State.enterCall
  split <;> rename_i heq <;> rw [heq] at hentry
  · exact hentry.changes.trans (Changes.awaitCurrent (hentry.call hcall) hsame)
  · exact hentry.changes.trans (Changes.rejectCall (hentry.call hcall) hsame)

theorem Changes.establish (hsends : event.Sends) {call : SubscribeCall}
    (hcall : s.calls[c]? = some call) (hfree : s.identityFree call.subscriber call.id = true)
    (hlive : (s.entries call.entry).removed = false) :
    Changes options event s (s.establish options c call) := by
  have hknows : (s.attach call.listener).Knows s.outbox.listenerCount := by
    refine .inl ⟨call.entry, ?_⟩
    simp [attach, SubscribeCall.listener]
  exact ((Changes.of (.attach s c call hsends hcall hfree hlive)).tail
    (.deliver _ _ true false hsends hknows)).tail (.setCall _ c _ call hcall ⟨rfl, rfl, rfl, rfl⟩)

theorem Changes.resumeSubscribe (hsends : event.Sends)
    (hstep : s.resumeSubscribe options c now = some t) : Changes options event s t := by
  obtain ⟨call, hcall, rfl | rfl | rfl | ⟨hfree, hlive, rfl⟩⟩ := resumeSubscribe_cases hstep
  · exact rejectCall hcall ⟨rfl, rfl, rfl, rfl⟩
  · exact enterCall now hcall ⟨rfl, rfl, rfl, rfl⟩
  · exact awaitCurrent hcall ⟨rfl, rfl, rfl, rfl⟩
  · exact establish hsends hcall hfree hlive

theorem Changes.finishSubscribe (hstep : s.finishSubscribe c now = some t) :
    Changes options event s t := by
  unfold State.finishSubscribe at hstep
  split at hstep
  · rename_i call hcall
    have hself : call.SameRequest call := ⟨rfl, rfl, rfl, rfl⟩
    split at hstep
    · rename_i l _ _
      split at hstep
      · cases hstep
        exact .single (.setCall s c _ call hcall hself)
      · cases hstep
        have hdetach : Bare options event s (s.detach l now) := .detach s l now
        exact hdetach.changes.trans (Changes.rejectCall (hdetach.call hcall) hself)
      · cases hstep
    · cases hstep
  · cases hstep

theorem Changes.subscribeQuery (s : State) (subscriber id : Nat) (address : String)
    (args : JsValue) (fingerprint : String) (authEpoch : Nat) (cursor : Option SubscriptionCursor)
    (now : Int) :
    Changes options (.subscribeQuery subscriber id address args fingerprint authEpoch cursor now) s
      (s.subscribeQuery options subscriber id address args fingerprint authEpoch cursor now) := by
  unfold State.subscribeQuery
  split
  · exact .refl
  rename_i hcond
  simp only [Bool.or_eq_true, Bool.not_eq_true', not_or, Bool.not_eq_false,
    decide_eq_true_eq] at hcond
  split
  · exact .refl
  rename_i encodedArgs _
  have hentry : Bare options (.subscribeQuery subscriber id address args fingerprint authEpoch
      cursor now) s (s.entryFor options ⟨address, encodedArgs, fingerprint⟩ now).1 :=
    .entryFor s _ now
  dsimp only
  split <;> rename_i heq <;> rw [heq] at hentry
  · exact hentry.changes
  rename_i found e
  have hcalled := hentry.changes.tail (.subscribe found
    { subscriber, id, key := ⟨address, encodedArgs, fingerprint⟩, authEpoch, cursor
      entry := e, phase := .waiting none } ⟨address, args, fingerprint, now, rfl⟩ hcond.1)
  refine hcalled.trans (Changes.awaitCurrent ?_ ⟨rfl, rfl, rfl, rfl⟩)
  exact List.getElem?_concat_length

/-! ## Convergence -/

theorem Changes.setConvergence (c : Nat)
    (hminimum : Timely s → convergence.minimumVersion ≤ s.highWater) :
    Changes options event s (s.setConvergence c convergence) := by
  refine .of (.calls s s.evaluations s.evaluationCount _ (fun _ _ _ => rfl) ?_)
  intro htimely other hother
  rcases List.mem_or_eq_of_mem_set hother with hother | rfl
  · exact htimely.converging other hother
  · exact hminimum htimely

/-- The entry a `converge` call goes on with. -/
theorem Bare.convergeRaised {s : State} {e version : Nat}
    (hversion : Timely s → version ≤ s.highWater) : Bare options event s (s.raiseDirty e version) :=
  .raiseDirty fun h => (hversion h).trans (le_max_right _ _)

theorem Bare.convergeEntry {s : State} {e version : Nat}
    (hversion : Timely s → version ≤ s.highWater) (hlive : (s.entries e).removed = false) :
    Bare options event s ((s.raiseDirty e version).ensureCurrent e version).1 := by
  refine (Bare.convergeRaised hversion).trans (.ensureCurrent ?_ fun _ => ?_)
  all_goals simp [State.raiseDirty, State.setEntry, hlive]

theorem Changes.convergeNext (hsends : event.Sends)
    (hminimum : Timely s → convergence.minimumVersion ≤ s.highWater)
    (hstep : s.convergeNext options c convergence = some t) : Changes options event s t := by
  obtain ⟨u, next, hnext, rfl, ⟨e, _, rfl⟩ | ⟨e, hlive, rfl⟩ | ⟨id, l, hlookup, rfl⟩⟩ :=
    convergeNext_cases hstep
  · have hraised := @Bare.convergeRaised options event s e _ hminimum
    refine hraised.changes.trans (Changes.setConvergence c fun h => ?_)
    exact hnext ▸ hminimum (hraised.timely h)
  · have hensured := @Bare.convergeEntry options event s e _ hminimum hlive
    refine hensured.changes.trans (Changes.setConvergence c fun h => ?_)
    rw [hensured.highWater, hnext]
    exact hminimum (hensured.timely h)
  · refine .head (.deliver s l false false hsends (.inr ⟨_, _, hlookup⟩)) ?_
    exact Changes.setConvergence c fun h => hnext ▸ hminimum { h with }

theorem Changes.resumeConverge (hsends : event.Sends) (hstep : s.resumeConverge options c = some t) :
    Changes options event s t := by
  obtain ⟨convergence, hfound, hnext | ⟨e, _, error, failed, _, wait, _, _, heq, rfl⟩⟩ :=
    resumeConverge_cases hstep
  · exact convergeNext hsends (fun h => h.converging convergence (List.mem_of_getElem? hfound)) hnext
  have hfailed : Changes options event s _ := Changes.failEntry hsends s e error
  have hkeeps := Keeps.failEntry options s e error
  rw [heq] at hfailed hkeeps
  refine hfailed.trans (Changes.setConvergence c fun h => ?_)
  rw [← hkeeps.convergences] at hfound
  exact h.converging convergence (List.mem_of_getElem? hfound)

theorem Changes.converge (hsends : event.Sends) (s : State) (subscriber minimumVersion : Nat) :
    Changes options event s (s.converge options subscriber minimumVersion) := by
  unfold State.converge
  split
  · exact .refl
  rename_i hversion
  have hcalled : Changes options event s
      (s.addConvergence (s.convergenceFor subscriber minimumVersion)) := by
    refine .of (.calls s s.evaluations s.evaluationCount _ (fun _ _ _ => rfl) ?_)
    intro htimely convergence hmem
    rcases List.mem_append.1 hmem with hmem | hmem
    · exact htimely.converging convergence hmem
    · rw [List.mem_singleton] at hmem
      rw [hmem]
      exact not_lt.1 hversion
  dsimp only
  cases hnext : (s.addConvergence (s.convergenceFor subscriber minimumVersion)).convergeNext
      options s.convergences.length (s.convergenceFor subscriber minimumVersion) with
  | none => exact hcalled
  | some t =>
    refine hcalled.trans (convergeNext hsends (fun _ => ?_) hnext)
    exact not_lt.1 hversion

theorem Changes.endBindings (hsends : event.Sends) (s : State) (subscriber : Nat)
    {nextAuthEpoch : Nat} (outcome : Outcome) (now : Int)
    (hkind : ∀ n, kind = .revocation (some n) ∨ kind = .rotation n → n = nextAuthEpoch) :
    Changes options event s (s.endBindings options subscriber nextAuthEpoch kind outcome now) := by
  unfold State.endBindings
  dsimp only
  split
  · exact .refl
  rename_i hcond
  simp only [Bool.or_eq_true, Bool.not_eq_true', not_or, Bool.not_eq_false,
    decide_eq_true_eq] at hcond
  refine Changes.report hsends outcome _ now ?_
  intro n hn
  rw [hkind n hn]
  exact hcond.1

/-! ## Publications -/

theorem Changes.scheduleEvents (s : State) (commitVersion : Nat) (events : List ReactiveEvent) :
    Changes options .publish s (s.scheduleEvents commitVersion events) := by
  induction events generalizing s with
  | nil => exact .refl
  | cons first _ ih =>
    refine Relation.ReflTransGen.trans ?_ (ih _)
    unfold State.publishEvent
    generalize s.events.states first.table = listeners
    induction listeners generalizing s with
    | nil => exact .refl
    | cons m _ ihm => exact .head (.offer s m commitVersion first.row rfl) (ihm _)

theorem revalidates_publication (version : Nat) (entries : List Nat) (s : State)
    (publication : OrderedPublication ReactiveCommit) :
    entries.foldl (revalidate version) { s with publication } =
      { entries.foldl (revalidate version) s with publication } := by
  have hone : ∀ (s : State) e, revalidate version { s with publication } e =
      { revalidate version s e with publication } := by
    intro s e
    unfold revalidate
    split
    · rfl
    unfold ensureCurrent
    dsimp only [raiseDirty, setEntry]
    split
    · rfl
    · split <;> rfl
  induction entries generalizing s with
  | nil => rfl
  | cons _ _ ih => rw [List.foldl_cons, List.foldl_cons, hone, ih]

theorem Changes.publish (hstep : s.publish = some t) :
    Changes options .publish s t := by
  simp only [State.publish, Option.bind_eq_bind, Option.bind_eq_some_iff] at hstep
  obtain ⟨⟨publication, slot⟩, hstart, hnext⟩ := hstep
  cases hnext
  have hfold : Bare options .publish s
      ((s.affected (slot.value.getD ⟨[], []⟩).writeKeys).foldl (State.revalidate slot.version) s) :=
    .revalidates _ fun h => (h.carries.startScheduled hstart).2.2
  -- the entries are told before the publication changes: they do not look at it
  unfold State.processPublication
  rw [show State.affected { s with publication } = s.affected from rfl, revalidates_publication]
  generalize (s.affected (slot.value.getD ⟨[], []⟩).writeKeys).foldl
    (State.revalidate slot.version) s = revalidated at hfold ⊢
  have hstarted : Change options .publish revalidated { revalidated with publication } := by
    have hsame := hfold.publication
    refine .publication revalidated publication revalidated.commits revalidated.processed
      (by trivial) (fun hwf => ?_) fun _ hcarries => ?_
    · rw [hsame] at hwf
      obtain ⟨hstartedWf, -, hwater, -⟩ := hwf.startScheduled hstart
      rw [hfold.highWater]
      exact ⟨hstartedWf, hwater.ge⟩
    · rw [hsame] at hcarries
      exact (hcarries.startScheduled hstart).1
  have hscheduled := (hfold.changes.tail hstarted).trans
    (Changes.scheduleEvents _ slot.version (slot.value.getD ⟨[], []⟩).events)
  refine hscheduled.tail (.publication _ _ _ _ (by trivial) (fun hwf => ?_)
    fun hwf hcarries => hcarries.handedOff hwf)
  exact ⟨hwf.handedOff, le_of_eq (OrderedPublication.handedOff_committedHighWater _).symm⟩

theorem Changes.settle {s t : State} {id : Nat} {failed : Bool} {now : Int}
    (hstep : s.settle options id failed now = some t) :
    Changes options (.settle id failed now) s t := by
  simp only [State.settle, Option.bind_eq_bind, Option.bind_eq_some_iff] at hstep
  obtain ⟨slot, hslot, hnext⟩ := hstep
  split at hnext
  · rename_i hstate
    cases hnext
    have hmem := List.mem_of_find?_eq_some hslot
    have hpruned : Bare options (.settle id failed now) s
        (if failed then s else s.prune options now) := by
      split
      · exact .refl s
      · exact .retires (.prune options s now)
    have hpublication : (if failed then s else s.prune options now).publication =
        s.publication := by
      split
      · rfl
      · exact (Keeps.retires (.prune options s now)).publication
    have hclosed : s.publication.WellFormed → s.publication.openReservation ≠ some slot.id :=
      fun hwf => hwf.processing_ne_open hmem hstate.1
    rw [← hpublication] at hclosed
    refine hpruned.changes.tail (.publication _ _ _ _ (by trivial) (fun hwf => ?_)
      fun hwf hcarries => hcarries.settle hwf (hclosed hwf) failed)
    exact ⟨hwf.settle (hclosed hwf) failed, by simp [State.highWater]⟩
  · cases hnext

theorem Changes.reserve (s : State) (bytes : Nat) (now : Int) :
    Changes options (.reserve bytes now) s (s.reserve bytes now) := by
  unfold State.reserve
  split
  · rename_i publication id heq
    refine .single (.publication s publication s.commits s.processed (by trivial) (fun hwf => ?_)
      fun _ hcarries => hcarries.reserve heq)
    exact ⟨hwf.reserve heq, (OrderedPublication.reserve_committedHighWater heq).ge⟩
  · exact .refl

theorem Changes.resize {bytes : Nat} (hstep : s.resize bytes = some t) :
    Changes options (.resize bytes) s t := by
  simp only [State.resize, Option.bind_eq_bind, Option.bind_eq_some_iff] at hstep
  obtain ⟨id, -, hstep⟩ := hstep
  split at hstep <;> cases hstep
  · rename_i publication heq
    refine .single (.publication s publication s.commits s.processed (by trivial) (fun hwf => ?_)
      fun _ hcarries => hcarries.resizeSlot heq)
    obtain ⟨hresized, -, hwater⟩ := hwf.resizeSlot heq
    exact ⟨hresized, hwater.ge⟩
  · exact .refl

theorem Changes.cancel (hstep : s.cancel = some t) : Changes options .cancel s t := by
  simp only [State.cancel, Option.bind_eq_bind, Option.bind_eq_some_iff] at hstep
  obtain ⟨id, -, hstep⟩ := hstep
  split at hstep <;> cases hstep
  rename_i publication heq
  refine .single (.publication s publication s.commits s.processed (by trivial) (fun hwf => ?_)
    fun _ hcarries => hcarries.cancelSlot heq)
  obtain ⟨hcancelled, -, -, hwater⟩ := hwf.cancelSlot heq
  exact ⟨hcancelled, hwater.ge⟩

theorem Changes.commit {writeKeys : List String} {events : List ReactiveEvent}
    (hstep : s.commit ⟨writeKeys, events⟩ = some t) :
    Changes options (.commit writeKeys events) s t := by
  simp only [State.commit, Option.bind_eq_bind, Option.bind_eq_some_iff] at hstep
  obtain ⟨id, -, hstep⟩ := hstep
  split at hstep <;> cases hstep
  rename_i publication heq
  refine .single (.publication s publication _ s.processed (by trivial) (fun hwf => ?_)
    fun hwf hcarries => hcarries.commitSlot hwf heq)
  obtain ⟨hcommitted, -, -, hwater⟩ := hwf.commitSlot heq
  refine ⟨hcommitted, ?_⟩
  show s.publication.committedHighWater ≤ publication.committedHighWater
  omega

theorem Changes.detachBinding (s : State) (binding : Binding) (now : Int) :
    Changes options event s (s.detachBinding binding now) := by
  cases binding with
  | query l => exact .single (.detach s l now)
  | event m => exact .single (.detachEvent s m)

theorem Changes.subscribeEvent (s : State) (subscriber id : Nat) (table : String)
    (matches_ : Nat → JsValue → Except Thrown Bool) (authEpoch : Nat) :
    Changes options event s (s.subscribeEvent options subscriber id table matches_ authEpoch) := by
  unfold State.subscribeEvent
  split
  · exact .refl
  · rename_i hcond
    simp only [Bool.or_eq_true, Bool.not_eq_true', not_or, Bool.not_eq_false] at hcond
    exact .single (.attachEvent s subscriber id table matches_ authEpoch hcond.2)

/-- **A turn is a sequence of elementary changes.** -/
theorem step_changes (hstep : step options s event = some t) :
    Changes options event s t := by
  cases event with
  | reserve bytes now =>
    cases hstep
    exact Changes.reserve s bytes now
  | resize => exact Changes.resize hstep
  | cancel => exact Changes.cancel hstep
  | commit => exact Changes.commit hstep
  | publish => exact Changes.publish hstep
  | settle => exact Changes.settle hstep
  | subscribeQuery subscriber id address args fingerprint authEpoch cursor now =>
    cases hstep
    exact Changes.subscribeQuery s subscriber id address args fingerprint authEpoch cursor now
  | resumeSubscribe => exact Changes.resumeSubscribe (by trivial) hstep
  | finishSubscribe => exact Changes.finishSubscribe hstep
  | unsubscribe _ _ now =>
    cases hstep
    unfold unsubscribe
    split
    · exact Changes.detachBinding s _ now
    · exact .refl
  | disconnect subscriber now =>
    cases hstep
    unfold disconnect
    generalize (s.bySubscriber subscriber).map Prod.snd = bindings
    induction bindings generalizing s with
    | nil => exact .refl
    | cons binding _ ih => exact (Changes.detachBinding s binding now).trans ih
  | reset subscriber id source =>
    cases hstep
    exact .single (.reset s subscriber id source rfl)
  | converge subscriber minimumVersion =>
    cases hstep
    exact Changes.converge (by trivial) s subscriber minimumVersion
  | resumeConverge => exact Changes.resumeConverge (by trivial) hstep
  | revoke subscriber _ outcome now =>
    cases hstep
    refine Changes.endBindings (by trivial) s subscriber outcome now ?_
    intro n hn
    simpa [eq_comm] using hn
  | rotateAuth subscriber _ now =>
    cases hstep
    refine Changes.endBindings (by trivial) s subscriber _ now ?_
    intro n hn
    simpa [eq_comm] using hn
  | subscribeEvent subscriber id table matches_ authEpoch =>
    cases hstep
    exact Changes.subscribeEvent s subscriber id table matches_ authEpoch
  | failSubscribeEvent m =>
    simp only [Reactive.step, failSubscribeEvent] at hstep
    split at hstep <;> cases hstep
    rename_i hfailed
    exact .head (.finishEvent s m hfailed) (.single (.detachEvent _ m))
  | settleEvent m failed =>
    simp only [Reactive.step, settleEvent, Option.map_eq_some_iff] at hstep
    obtain ⟨listener, hlistener, rfl⟩ := hstep
    refine .single (.settleEvent s m listener ?_)
    cases failed with
    | false => exact .inl hlistener
    | true => exact .inr hlistener
  | resumeReport report now =>
    simp only [Reactive.step, resumeReport] at hstep
    split at hstep
    · split at hstep <;> cases hstep
      exact Changes.reportNext (by trivial) s report now
    · cases hstep
  | startEvaluation => exact Changes.startEvaluation hstep
  | failEvaluation task =>
    simp only [Reactive.step, failEvaluation] at hstep
    split at hstep <;> cases hstep
    exact (Bare.setPhase s task (by simp)).changes
  | evaluated => exact Changes.evaluated (by trivial) hstep
  | catchEvaluation => exact Changes.catchEvaluation (by trivial) hstep
  | finishEvaluation => exact Changes.finishEvaluation hstep
  | release task now => exact .head (.releaseEntry s task now rfl) (Bare.release hstep).changes
  | finishChain => exact Changes.finishChain hstep
  | sent l =>
    simp only [Reactive.step, Option.map_eq_some_iff] at hstep
    obtain ⟨outbox, houtbox, rfl⟩ := hstep
    exact .single (.sent s l outbox trivial houtbox)
  | sendFailed l =>
    simp only [Reactive.step, Option.map_eq_some_iff] at hstep
    obtain ⟨outbox, houtbox, rfl⟩ := hstep
    exact .single (.sendFailed s l outbox trivial houtbox)
  | resumeDelivery d =>
    simp only [Reactive.step, Option.map_eq_some_iff] at hstep
    obtain ⟨outbox, houtbox, rfl⟩ := hstep
    exact .single (.resumeDelivery s d outbox trivial houtbox)
  | prune now =>
    cases hstep
    exact (Bare.retires (.prune options s now)).changes
  | close =>
    cases hstep
    refine .single (.publication s s.publication.close s.commits s.processed (by trivial) ?_
      fun _ hcarries => ⟨hcarries.committed, hcarries.scheduled⟩)
    exact fun hwf => ⟨{ hwf with }, le_rfl⟩

end Decompose

/-- **What every change keeps, every run keeps.**  The guard may constrain the events. -/
theorem invariant_of_changes {options : ReactiveOptions} {guard : State → Event → Prop}
    {inv : State → Prop} {s : State}
    (hreach : Run.Reachable (step options) guard (initial options) s) (hstart : inv (initial options))
    (hchange : ∀ event, (∃ s, guard s event) → ∀ s t, inv s → Change options event s t → inv t) :
    inv s := by
  refine hreach.induct hstart fun s event t _ hinv hguard hstep => ?_
  have hchanges := step_changes hstep
  clear hstep
  induction hchanges with
  | refl => exact hinv
  | tail _ hlast ih => exact hchange event ⟨s, hguard⟩ _ _ ih hlast

end Reactive

end AckerDB
