import AckerDB.Subscriptions.Progress
import AckerDB.Subscriptions.Reactive.Pacing
import AckerDB.Subscriptions.Reactive.Relay

/-!
# No live event is lost silently

The publications are processed one after another, in the order of their versions, and
each of them offers the rows of its commit to the listeners its tables have.  So what a
listener meets is a stretch of the committed rows of its table.

* `committedRows` — the rows that commits added to an event table, in order;
* `Heard` — what a listener met is a stretch of them, up to now while it is attached;
* `live_events_complete` — what two delivered rows enclose.
-/

namespace AckerDB

open Protocol Function

namespace Reactive

open OrderedPublication List Option

/-- The rows the commits of some versions added to a table. -/
def committedRows (commits : Nat → ReactiveCommit) (table : String) (versions : List Nat) :
    List (Nat × JsValue) :=
  versions.flatMap fun version =>
    ((commits version).events.filter fun event => event.table = table).map fun event =>
      (version, event.row)

theorem committedRows_congr {commits commits' : Nat → ReactiveCommit} (table : String)
    {versions : List Nat} (h : ∀ version ∈ versions, commits' version = commits version) :
    committedRows commits' table versions = committedRows commits table versions :=
  flatMap_congr fun version hversion => by rw [h version hversion]

theorem committedRows_append (commits : Nat → ReactiveCommit) (table : String)
    (versions others : List Nat) :
    committedRows commits table (versions ++ others) =
      committedRows commits table versions ++ committedRows commits table others :=
  flatMap_append

/-! ## Listeners that are told -/

namespace EventListener

theorem offered_start (listener : EventListener) : listener.start.offered = listener.offered := by
  unfold start
  split <;> rfl

theorem offered_enqueue (listener : EventListener) (work : EventWork) :
    (listener.enqueue work).offered = listener.offered := by
  unfold enqueue
  split
  · exact offered_start _
  · rfl

theorem offered_settled {listener after : EventListener}
    (h : listener.sent = some after ∨ listener.sendFailed = some after) :
    after.offered = listener.offered := by
  rcases h with h | h
  · unfold sent at h
    split at h <;> cases h <;> exact offered_start _
  · unfold sendFailed at h
    split at h <;> cases h <;> exact offered_start _

theorem offered_offer (listener : EventListener) (commitVersion : Nat) (row : JsValue) :
    (listener.offer commitVersion row).offered.map Offer.content =
      listener.offered.map Offer.content ++ [(commitVersion, row)] := by
  have hmet : (listener.offer commitVersion row).offered = listener.offered ++
      [⟨commitVersion, row, listener.matches_ listener.offered.length row⟩] := by
    unfold offer
    dsimp only
    split
    · exact offered_enqueue _ _
    · rfl
    · exact offered_enqueue _ _
  rw [hmet, map_append]
  rfl

end EventListener

theorem relays_toldEvent {listener : EventListener} (report : Report) (h : Relays listener) :
    Relays (State.toldEvent report listener) := by
  unfold State.toldEvent
  split
  · exact h
  · exact h.told _

/-- What a change of a turn does to the event listeners. -/
inductive EventChange (options : ReactiveOptions) (event : Event) :
    EventTable → EventTable → Prop
  | keep (table : EventTable) : EventChange options event table table
  | detach (table : EventTable) (m : Nat) : EventChange options event table
      { table with
        states := update table.states (table.listeners m).table
          ((table.states (table.listeners m).table).filter fun other => other ≠ m)
        bound := table.bound - 1 }
  | attach (table : EventTable) (subscriber id : Nat) (name : String)
      (matches_ : Nat → JsValue → Except Thrown Bool) (authEpoch : Nat) (generation : String)
      (highWater : Nat) : EventChange options event table
      { listeners := update table.listeners table.listenerCount
          (openEvent subscriber id name matches_ authEpoch generation highWater)
        listenerCount := table.listenerCount + 1
        states := update table.states
          (openEvent subscriber id name matches_ authEpoch generation highWater).table
          (table.states (openEvent subscriber id name matches_ authEpoch generation
            highWater).table ++ [table.listenerCount])
        bound := table.bound + 1 }
  | offer (table : EventTable) (m commitVersion : Nat) (row : JsValue) : event = .publish →
      EventChange options event table
        { table with
          listeners := update table.listeners m
            ((table.listeners m).offer commitVersion row) }
  /-- A listener is told, or a send to it settles. -/
  | tell (table : EventTable) (m : Nat) (listener : EventListener) :
      (Relays (table.listeners m) → Relays listener) →
      listener.offered = (table.listeners m).offered → listener.table = (table.listeners m).table →
      EventChange options event table
        { table with listeners := update table.listeners m listener }

variable {options : ReactiveOptions} {event : Event} {s : State}

/-- **What a change does to the event listeners and to the record of commits.** -/
theorem Change.events {t : State} (h : Change options event s t) :
    EventChange options event s.events t.events ∧
      (event.Publishes ∨ t.publication = s.publication ∧ t.commits = s.commits) := by
  cases h with
  | publication _ _ _ hpublishes => exact ⟨.keep _, .inl hpublishes⟩
  | calls | subscribe | setCall | mark | start | submit | releaseEntry | addEntry | unlink |
    install | pruneHistory | attach | deliver | report | tell | setReport | sent | sendFailed |
    resumeDelivery => exact ⟨.keep _, .inr ⟨rfl, rfl⟩⟩
  | detach l now =>
    have hbare := @Bare.detach options event s l now
    exact ⟨hbare.events ▸ .keep _, .inr ⟨hbare.publication, hbare.commits⟩⟩
  | reset =>
    unfold State.reset
    split <;> exact ⟨.keep _, .inr ⟨rfl, rfl⟩⟩
  | detachEvent m =>
    unfold State.detachEvent
    dsimp only
    split
    · exact ⟨.detach _ m, .inr ⟨rfl, rfl⟩⟩
    · exact ⟨.keep _, .inr ⟨rfl, rfl⟩⟩
  | attachEvent subscriber id table matches_ authEpoch =>
    exact ⟨.attach s.events subscriber id table matches_ authEpoch _ _, .inr ⟨rfl, rfl⟩⟩
  | offer m commitVersion row hevent =>
    exact ⟨.offer s.events m commitVersion row hevent, .inr ⟨rfl, rfl⟩⟩
  | tellEvent m report =>
    refine ⟨.tell s.events m _ (relays_toldEvent report) ?_ ?_, .inr ⟨rfl, rfl⟩⟩
    · unfold State.toldEvent
      split
      · rfl
      · exact EventListener.offered_enqueue _ _
    unfold State.toldEvent
    split
    · rfl
    · exact (EventListener.same_enqueue _ _).table
  | finishEvent m =>
    refine ⟨.tell s.events m _ (fun h => ?_) rfl rfl, .inr ⟨rfl, rfl⟩⟩
    exact ⟨{ h.keeping with }, h.sending, h.fresh⟩
  | settleEvent m listener hsettled =>
    refine ⟨.tell s.events m listener (fun h => ?_)
      (EventListener.offered_settled hsettled) ?_, .inr ⟨rfl, rfl⟩⟩
    · exact hsettled.elim h.sent h.sendFailed
    · exact (hsettled.elim EventListener.same_sent EventListener.same_sendFailed).table

/-- A change keeps what every listener keeps. -/
theorem EventChange.relays {table next : EventTable} (h : EventChange options event table next)
    (hrelays : ∀ m, Relays (table.listeners m)) (m : Nat) : Relays (next.listeners m) := by
  have hupdate : ∀ changed listener, Relays listener →
      Relays (update table.listeners changed listener m) := by
    intro changed listener hlistener
    by_cases hm : m = changed
    · subst hm
      rwa [update_self]
    · rw [update_of_ne hm]
      exact hrelays m
  cases h with
  | keep | detach => exact hrelays m
  | attach =>
    exact hupdate _ _ (relays_openEvent ..)
  | offer changed commitVersion row => exact hupdate _ _ ((hrelays changed).offer commitVersion row)
  | tell changed _ hkept => exact hupdate _ _ (hkept (hrelays changed))

variable {guard : State → Event → Prop}

/-- Every listener relays, in every run. -/
theorem relays_of_reachable (hreach : Run.Reachable (step options) guard (initial options) s) :
    ∀ m, Relays (s.events.listeners m) := by
  refine @invariant_of_changes options guard (fun s => ∀ m, Relays (s.events.listeners m)) s hreach
    ?_ ?_
  · intro m
    refine ⟨⟨by simp [initial], ⟨[], [], rfl, .nothing, rfl⟩, ?_, isChain_nil, ?_⟩, rfl, ?_⟩
    · simp [initial]
    · simp [initial]
    · simp [initial]
  · intro event _ s t hrelays hchange
    exact hchange.events.1.relays hrelays

/-! ## What a listener meets -/

/-- **What a listener met** is what some consecutive versions committed to its table, up to the
version that was started last while it is attached. -/
def Heard (options : ReactiveOptions) (s : State) (m : Nat) : Prop :=
  ∃ since count, options.initialVersion ≤ since ∧
    since + count ≤ s.publication.startedHighWater ∧
    (s.events.listeners m).offered.map Offer.content =
      committedRows s.commits (s.events.listeners m).table (range' (since + 1) count) ∧
    (m ∈ s.events.states (s.events.listeners m).table →
      since + count = s.publication.startedHighWater)

/-- The publication is in order, and every listener met a stretch of the commits. -/
structure Covers (options : ReactiveOptions) (s : State) : Prop where
  ordered : s.publication.Ordered options.initialVersion
  heard : ∀ m < s.events.listenerCount, Heard options s m

section Covers

variable {options : ReactiveOptions} {event : Event} {s t : State}

/-- A turn that starts no publication and offers nothing. -/
theorem Heard.of_same {m : Nat} (h : Heard options s m)
    (hstarted : t.publication.startedHighWater = s.publication.startedHighWater)
    (hcommits : ∀ version ≤ s.publication.startedHighWater, t.commits version = s.commits version)
    (hoffered : (t.events.listeners m).offered = (s.events.listeners m).offered)
    (htable : (t.events.listeners m).table = (s.events.listeners m).table)
    (hstates : m ∈ t.events.states (s.events.listeners m).table →
      m ∈ s.events.states (s.events.listeners m).table) : Heard options t m := by
  obtain ⟨since, count, hinitial, hbound, hmet, hattached⟩ := h
  refine ⟨since, count, hinitial, by omega, ?_, ?_⟩
  · rw [hoffered, htable, hmet]
    refine (committedRows_congr _ fun version hversion => hcommits version ?_).symm
    rw [mem_range'_1] at hversion
    omega
  intro hmem
  rw [htable] at hmem
  rw [hstarted]
  exact hattached (hstates hmem)

section

variable (h : Covers options s)

include h

/-- **A change outside publications** attaches listeners that have met nothing, and offers
nothing to the others. -/
theorem Covers.change (hevent : ¬ event.Publishes)
    (hchange : Change options event s t) : Covers options t := by
  obtain ⟨hevents, hrecord⟩ := hchange.events
  obtain ⟨hpublication, hcommits⟩ := hrecord.resolve_left hevent
  refine ⟨hpublication ▸ h.ordered, ?_⟩
  have hstarted : t.publication.startedHighWater = s.publication.startedHighWater := by
    rw [hpublication]
  have hcommitsEq : ∀ version ≤ s.publication.startedHighWater,
      t.commits version = s.commits version := fun version _ => by rw [hcommits]
  generalize htable : t.events = table at hevents
  intro m hm
  cases hevents with
  | keep =>
    exact (h.heard m hm).of_same hstarted hcommitsEq (by rw [htable]) (by rw [htable])
      (by rw [htable]; exact id)
  | detach gone =>
    refine (h.heard m hm).of_same hstarted hcommitsEq (by rw [htable]) (by rw [htable]) ?_
    rw [htable]
    intro hmem
    by_cases hsame : (s.events.listeners m).table = (s.events.listeners gone).table
    · rw [hsame] at hmem ⊢
      dsimp only at hmem
      rw [update_self] at hmem
      exact mem_of_mem_filter hmem
    · dsimp only at hmem
      rwa [update_of_ne hsame] at hmem
  | attach =>
    by_cases hnew : m = s.events.listenerCount
    · subst hnew
      refine ⟨s.publication.startedHighWater, 0, ?_, ?_, ?_, ?_⟩
      · exact h.ordered.start_le.trans h.ordered.settled_le
      · omega
      · rw [htable]
        dsimp only
        rw [update_self]
        rfl
      · intro _
        omega
    have hold : m < s.events.listenerCount := by
      dsimp only at hm
      omega
    have hlistener : t.events.listeners m = s.events.listeners m := by
      rw [htable]
      dsimp only
      rw [update_of_ne hnew]
    refine (h.heard m hold).of_same hstarted hcommitsEq (by rw [hlistener])
      (by rw [hlistener]) ?_
    rw [htable]
    intro hmem
    dsimp only at hmem
    rw [update_apply] at hmem
    split at hmem
    · rename_i hsame
      rw [hsame]
      exact (mem_append.1 hmem).resolve_right (by simpa using hnew)
    · exact hmem
  | offer _ _ _ hpublish =>
    subst hpublish
    exact absurd trivial hevent
  | tell changed _ _ hoffered hlistenerTable =>
    have hlistener : (t.events.listeners m).offered = (s.events.listeners m).offered ∧
        (t.events.listeners m).table = (s.events.listeners m).table := by
      rw [htable]
      dsimp only
      by_cases hsame : m = changed
      · subst hsame
        rw [update_self]
        exact ⟨hoffered, hlistenerTable⟩
      · rw [update_of_ne hsame]
        exact ⟨rfl, rfl⟩
    refine (h.heard m hm).of_same hstarted hcommitsEq hlistener.1 hlistener.2 ?_
    rw [htable]
    exact id

/-! ## The turns of the writer -/

/-- A turn that changes the publication, but starts none of its slots. -/
theorem Covers.publication
    {publication : OrderedPublication ReactiveCommit} {commits : Nat → ReactiveCommit}
    (hordered : publication.Ordered options.initialVersion)
    (hstarted : publication.startedHighWater = s.publication.startedHighWater)
    (hcommits : ∀ version ≤ s.publication.startedHighWater,
      commits version = s.commits version) :
    Covers options { s with publication, commits } :=
  ⟨hordered, fun m hm => (h.heard m hm).of_same hstarted hcommits rfl rfl fun hmem => hmem⟩

theorem Covers.reserve (bytes : Nat) (now : Int) :
    Covers options (s.reserve bytes now) := by
  unfold State.reserve
  split
  · rename_i publication id hreserve
    exact h.publication (h.ordered.reserve hreserve)
      (quiet_reserve hreserve).started fun _ _ => rfl
  · exact h

theorem Covers.resize {bytes : Nat} (hstep : s.resize bytes = some t) :
    Covers options t := by
  simp only [State.resize, bind_eq_bind, bind_eq_some_iff] at hstep
  obtain ⟨id, -, hstep⟩ := hstep
  split at hstep <;> cases hstep
  · rename_i publication hresize
    exact h.publication (h.ordered.resizeSlot hresize)
      (h.ordered.wellFormed.quiet_resizeSlot hresize).started fun _ _ => rfl
  · exact h

theorem Covers.cancel (hstep : s.cancel = some t) : Covers options t := by
  simp only [State.cancel, bind_eq_bind, bind_eq_some_iff] at hstep
  obtain ⟨id, -, hstep⟩ := hstep
  split at hstep <;> cases hstep
  rename_i publication hcancel
  exact h.publication (h.ordered.cancelSlot hcancel)
    (h.ordered.wellFormed.quiet_cancelSlot hcancel).started fun _ _ => rfl

theorem Covers.commit {published : ReactiveCommit}
    (hstep : s.commit published = some t) : Covers options t := by
  simp only [State.commit, bind_eq_bind, bind_eq_some_iff] at hstep
  obtain ⟨id, -, hstep⟩ := hstep
  split at hstep <;> cases hstep
  rename_i publication hcommit
  have hwater := (h.ordered.wellFormed.commitSlot hcommit).2.2.2
  refine h.publication (h.ordered.commitSlot hcommit)
    (h.ordered.wellFormed.quiet_commitSlot hcommit).started ?_
  -- the version that is committed was not started yet
  intro version hversion
  have hfront := h.ordered.front_le
  have hle := startedHighWater_le_front s.publication
  rw [update_of_ne (by omega)]

theorem Covers.settle {id : Nat} {failed : Bool} {now : Int}
    (hstep : s.settle options id failed now = some t) : Covers options t := by
  simp only [State.settle, bind_eq_bind, bind_eq_some_iff] at hstep
  obtain ⟨slot, hslot, hnext⟩ := hstep
  split at hnext
  · rename_i hstate
    cases hnext
    have hmem := mem_of_find?_eq_some hslot
    have hid : slot.id = id := by simpa using find?_some hslot
    have hpruned : Bare options (.settle id failed now) s
        (if failed then s else s.prune options now) := by
      split
      · exact .refl s
      · exact .retires (.prune options s now)
    generalize (if failed then s else s.prune options now) = pruned at hpruned
    have hsettled : Covers options pruned := by
      refine ⟨hpruned.publication ▸ h.ordered, fun m hm => ?_⟩
      rw [hpruned.events] at hm
      refine (h.heard m hm).of_same ?_ ?_ ?_ ?_ ?_
      · rw [hpruned.publication]
      · exact fun version _ => by rw [hpruned.commits]
      · rw [hpruned.events]
      · rw [hpruned.events]
      · rw [hpruned.events]
        exact fun hmem => hmem
    rw [← hpruned.publication] at hmem
    have hscheduled : pruned.publication.scheduled ≠ some slot.id := by
      rw [hpruned.publication, hid]
      exact hstate.2
    have hunsettled : slot.version ∈ pruned.publication.unsettledVersions :=
      (hsettled.ordered.processing slot hmem hstate.1).resolve_left hscheduled
    have hleft := hsettled.ordered.settleSlot hmem hunsettled hstate.1 failed
    refine hsettled.publication hleft.pump ?_ fun _ _ => rfl
    rw [settle_eq_pump, hleft.wellFormed.quiet_pump.started]
    obtain ⟨failures, lastFailureVersion, heq⟩ := pruned.publication.settleSlot_eq slot failed
    rw [heq]
    rfl
  · cases hnext

/-! ## A publication offers the rows of its commit -/

omit h in
/-- The listeners after a row was offered to some of them. -/
theorem offer_listeners (commitVersion : Nat) (row : JsValue) (members : List Nat)
    (hdistinct : members.Nodup) (s : State) :
    (members.foldl (fun s m =>
        s.setEvent m ((s.events.listeners m).offer commitVersion row)) s).events =
      { s.events with
        listeners := fun m => if m ∈ members then (s.events.listeners m).offer commitVersion row
          else s.events.listeners m } := by
  induction members generalizing s with
  | nil => simp
  | cons first _ ih =>
    obtain ⟨hfirst, hrest⟩ := nodup_cons.1 hdistinct
    rw [foldl_cons, ih hrest]
    simp only [State.setEvent, EventTable.mk.injEq, and_true]
    funext m
    by_cases hm : m = first
    · subst hm
      simp [hfirst]
    · simp [hm]

omit h in
/-- **The rows of a commit meet the listeners of their tables**, in order. -/
theorem scheduleEvents_offered (commitVersion : Nat) (events : List ReactiveEvent)
    (hdistinct : ∀ table, (s.events.states table).Nodup)
    (hlisted : ∀ table, ∀ m ∈ s.events.states table, (s.events.listeners m).table = table) :
    (s.scheduleEvents commitVersion events).events.states = s.events.states ∧
    (s.scheduleEvents commitVersion events).events.listenerCount = s.events.listenerCount ∧
    ∀ m, ((s.scheduleEvents commitVersion events).events.listeners m).table =
        (s.events.listeners m).table ∧
      ((s.scheduleEvents commitVersion events).events.listeners m).offered.map Offer.content =
        (s.events.listeners m).offered.map Offer.content ++
          if m ∈ s.events.states (s.events.listeners m).table then
            (events.filter fun event => event.table = (s.events.listeners m).table).map
              fun event => (commitVersion, event.row)
          else [] := by
  unfold State.scheduleEvents
  induction events generalizing s with
  | nil => simp
  | cons first _ ih =>
    have hfirst := offer_listeners commitVersion first.row _ (hdistinct first.table) s
    rw [foldl_cons]
    generalize hnext : State.publishEvent commitVersion s first = next
    rw [State.publishEvent] at hnext
    rw [hnext] at hfirst
    have htable : ∀ m, (next.events.listeners m).table = (s.events.listeners m).table := by
      intro m
      rw [hfirst]
      dsimp only
      split
      · exact (EventListener.same_offer _ _ _).table
      · rfl
    have hstates : next.events.states = s.events.states := by rw [hfirst]
    obtain ⟨hrestStates, hrestCount, hrest⟩ := ih (s := next) (by rw [hstates]; exact hdistinct)
      (fun table m hm => by
        rw [htable]
        rw [hstates] at hm
        exact hlisted table m hm)
    refine ⟨hrestStates.trans hstates, hrestCount.trans (by rw [hfirst]), fun m => ?_⟩
    obtain ⟨hmTable, hmOffered⟩ := hrest m
    refine ⟨hmTable.trans (htable m), ?_⟩
    rw [hmOffered, htable, hstates]
    have hlistener : next.events.listeners m =
        if m ∈ s.events.states first.table then
          (s.events.listeners m).offer commitVersion first.row
        else s.events.listeners m := by
      rw [hfirst]
    rw [hlistener]
    by_cases hmember : m ∈ s.events.states first.table
    · have hown := hlisted first.table m hmember
      rw [if_pos hmember, EventListener.offered_offer]
      rw [hown, if_pos hmember, if_pos hmember, filter_cons_of_pos (by simp)]
      simp
    rw [if_neg hmember]
    by_cases hattached : m ∈ s.events.states (s.events.listeners m).table
    · have hne : first.table ≠ (s.events.listeners m).table := by
        intro heq
        rw [heq] at hmember
        exact hmember hattached
      rw [if_pos hattached, if_pos hattached, filter_cons_of_neg (by simpa using hne)]
    · rw [if_neg hattached, if_neg hattached]

/-- **A publication** offers what the version after the started one committed. -/
theorem Covers.publish (htimely : Timely s) (hlinks : Links s)
    (hstep : s.publish = some t) : Covers options t := by
  simp only [State.publish, bind_eq_bind, bind_eq_some_iff] at hstep
  obtain ⟨⟨publication, slot⟩, hstart, hnext⟩ := hstep
  obtain ⟨hordered, -, -, hversion, -, hpublication⟩ := h.ordered.startScheduled hstart
  have hstartedNow : publication.startedHighWater = s.publication.startedHighWater + 1 := by
    rw [hpublication]
    exact hversion
  have hnone : publication.scheduled = none := by rw [hpublication]
  have hvalue := (htimely.carries.startScheduled hstart).2.1
  have hfold : Bare options .publish s
      ((s.affected (slot.value.getD ⟨[], []⟩).writeKeys).foldl (State.revalidate slot.version) s) :=
    .revalidates _ fun h => (h.carries.startScheduled hstart).2.2
  cases hnext
  unfold State.processPublication
  dsimp only
  rw [show State.affected { s with publication } = s.affected from rfl, revalidates_publication]
  generalize (s.affected (slot.value.getD ⟨[], []⟩).writeKeys).foldl
    (State.revalidate slot.version) s = revalidated at hfold ⊢
  have hkeeps := Keeps.scheduleEvents { revalidated with publication } slot.version
    (slot.value.getD ⟨[], []⟩).events
  have hdistinct : ∀ table,
      (({ revalidated with publication } : State).events.states table).Nodup := by
    intro table
    rw [hfold.events]
    exact hlinks.live.distinct table
  have hlisted : ∀ table, ∀ m ∈ ({ revalidated with publication } : State).events.states table,
      (({ revalidated with publication } : State).events.listeners m).table = table := by
    show ∀ table, ∀ m ∈ revalidated.events.states table,
      (revalidated.events.listeners m).table = table
    rw [hfold.events]
    exact fun table m hm => (hlinks.live.listed table m hm).2.1
  obtain ⟨hstates, hcount, hoffered⟩ := scheduleEvents_offered slot.version
    (slot.value.getD ⟨[], []⟩).events hdistinct hlisted
  generalize State.scheduleEvents { revalidated with publication } slot.version
    (slot.value.getD ⟨[], []⟩).events = scheduled at hkeeps hstates hcount hoffered ⊢
  have hscheduled := hkeeps.publication
  have hcommits := hkeeps.commits.trans hfold.commits
  rw [hfold.events] at hstates hcount hoffered
  have hidle := hordered.idle hnone
  refine ⟨?_, ?_⟩
  · rw [hscheduled]
    exact hordered.handedOff hnone
  intro m hm
  have hstartedLater : scheduled.publication.handedOff.startedHighWater =
      s.publication.startedHighWater + 1 := by
    rw [hscheduled, ← hstartedNow]
    exact hidle.wellFormed.quiet_pump.started
  obtain ⟨htable, hmet⟩ := hoffered m
  obtain ⟨since, count, hinitial, hbound, hrows, hattached⟩ := h.heard m (hcount ▸ hm)
  by_cases hmember : m ∈ s.events.states (s.events.listeners m).table
  · -- the listener is attached: it met the rows of this commit as well
    have hreached := hattached hmember
    refine ⟨since, count + 1, hinitial, ?_, ?_, ?_⟩
    · show since + (count + 1) ≤ scheduled.publication.handedOff.startedHighWater
      omega
    · show (scheduled.events.listeners m).offered.map Offer.content =
        committedRows scheduled.commits (scheduled.events.listeners m).table _
      rw [hmet, hrows, htable, hcommits, range'_concat, committedRows_append, if_pos hmember,
        hvalue, getD_some, show slot.version = since + 1 + 1 * count by omega]
      simp [committedRows]
    · intro _
      show since + (count + 1) = scheduled.publication.handedOff.startedHighWater
      omega
  refine ⟨since, count, hinitial, ?_, ?_, ?_⟩
  · show since + count ≤ scheduled.publication.handedOff.startedHighWater
    omega
  · show (scheduled.events.listeners m).offered.map Offer.content =
      committedRows scheduled.commits (scheduled.events.listeners m).table _
    rw [hmet, hrows, htable, hcommits, if_neg hmember, append_nil]
  intro hstill
  rw [htable, hstates] at hstill
  exact absurd hstill hmember

/-- **Every turn** keeps the publication in order and the stretches whole. -/
theorem Covers.step (hpaced : Paced s)
    (hstep : Reactive.step options s event = some t) : Covers options t := by
  by_cases hpublishes : event.Publishes
  · cases event with
    | reserve bytes now =>
      cases hstep
      exact h.reserve bytes now
    | resize => exact h.resize hstep
    | cancel => exact h.cancel hstep
    | commit => exact h.commit hstep
    | publish => exact h.publish hpaced.timely hpaced.links hstep
    | settle => exact h.settle hstep
    | close =>
      cases hstep
      exact h.publication h.ordered.close rfl fun _ _ => rfl
    | _ => exact hpublishes.elim
  have hchanges := step_changes hstep
  clear hstep
  induction hchanges with
  | refl => exact h
  | tail _ hlast ih => exact ih.change hpublishes hlast

end

theorem covers_of_reachable
    (hreach : Run.Reachable (Reactive.step options) guard (initial options) s) :
    Covers options s := by
  refine hreach.induct ⟨ordered_initial _ _, ?_⟩ ?_
  · intro m hm
    simp [initial] at hm
  · intro s event t hbefore h _ hstep
    exact h.step (paced_of_reachable hbefore) hstep

end Covers

/-! ## What the subscriber sees -/

/-- The rows of every commit to a table since the stored version, in commit order. -/
def State.committed (options : ReactiveOptions) (s : State) (table : String) :
    List (Nat × JsValue) :=
  committedRows s.commits table
    (range' (options.initialVersion + 1) (s.highWater - options.initialVersion))

/-- What a listener met is a stretch of the rows committed to its table. -/
theorem Covers.stretch (h : Covers options s) {m : Nat} (hm : m < s.events.listenerCount) :
    ∃ earlier later, s.committed options (s.events.listeners m).table =
      earlier ++ (s.events.listeners m).offered.map Offer.content ++ later := by
  obtain ⟨since, count, hinitial, hbound, hrows, -⟩ := h.heard m hm
  have hfront := h.ordered.front_le
  have hle := startedHighWater_le_front s.publication
  have hwater : s.highWater = s.publication.committedHighWater := rfl
  obtain ⟨skipped, rfl⟩ := Nat.exists_eq_add_of_le hinitial
  obtain ⟨pending, hpending⟩ := Nat.exists_eq_add_of_le
    (show options.initialVersion + skipped + count ≤ s.highWater by omega)
  have hsplit : range' (options.initialVersion + 1) (s.highWater - options.initialVersion) =
      range' (options.initialVersion + 1) skipped ++
        range' (options.initialVersion + skipped + 1) count ++
        range' (options.initialVersion + skipped + count + 1) pending := by
    rw [show s.highWater - options.initialVersion = skipped + count + pending by omega,
      ← range'_append_1, ← range'_append_1,
      show options.initialVersion + 1 + skipped = options.initialVersion + skipped + 1 by omega,
      show options.initialVersion + 1 + (skipped + count) =
        options.initialVersion + skipped + count + 1 by omega]
  rw [State.committed, hsplit, committedRows_append, committedRows_append, hrows]
  exact ⟨_, _, rfl⟩

/-- **Live events are never lost silently.**  The delivered cursors are numbered one by one; and
where two rows are delivered with neither a gap nor a reset between them, every row that was
committed to the table between them did not match or was delivered between them, in order. -/
theorem live_events_complete {options : ReactiveOptions} {s : State}
    (hreach : Run.Reachable (step options) (fun _ _ => True) (initial options) s) {m : Nat}
    (hm : m < s.events.listenerCount) :
    let listener := s.events.listeners m
    Numbered listener.delivered ∧
    (∃ earlier later, s.committed options listener.table =
      earlier ++ listener.offered.map Offer.content ++ later) ∧
    (∀ k offer, listener.offered[k]? = some offer →
      offer.verdict = listener.matches_ k offer.row) ∧
    ∀ before cursor row middle cursor' row' after,
      listener.delivered =
        before ++ .row cursor row :: middle ++ .row cursor' row' :: after → Rows middle →
      ∃ earlier first enclosed last later,
        listener.offered = earlier ++ first :: enclosed ++ last :: later ∧
        first.content = (cursor.commitVersion, row) ∧
        last.content = (cursor'.commitVersion, row') ∧ Complete enclosed middle := by
  have hkeeping := (relays_of_reachable hreach m).keeping
  refine ⟨hkeeping.numbered, (covers_of_reachable hreach).stretch hm, hkeeping.verdicts, ?_⟩
  intro before cursor row middle cursor' row' after hsplit hrows
  obtain ⟨dealt, left, hoffered, htold, -⟩ := hkeeping.told
  obtain ⟨earlier, first, enclosed, last, later, hdealt, hrest⟩ := htold.between hsplit hrows
  refine ⟨earlier, first, enclosed, last, later ++ left, ?_, hrest⟩
  rw [hoffered, hdealt]
  simp

/-- A subscription, a commit of a row that matches and of one that does not, and another commit. -/
def liveRun : List Event :=
  [.subscribeEvent 0 1 "notes" (fun _ row => .ok (row ≠ .null)) 0, .settleEvent 0 false,
    .reserve 1 0, .commit [] [⟨"notes", .bool true⟩, ⟨"notes", .null⟩], .publish,
    .settleEvent 0 false, .reserve 1 0, .commit [] [⟨"notes", .bool false⟩], .publish,
    .settleEvent 0 false]

theorem live_events_complete_rows :
    ∃ s, Run.run (step sampleOptions) (initial sampleOptions) liveRun = some s ∧
      (s.events.listeners 0).delivered =
        [.reset ⟨"g0", 0, 0⟩, .row ⟨"g0", 1, 1⟩ (.bool true), .row ⟨"g0", 2, 2⟩ (.bool false)] ∧
      Numbered (s.events.listeners 0).delivered ∧
      ∃ earlier first enclosed last later,
        (s.events.listeners 0).offered = earlier ++ first :: enclosed ++ last :: later ∧
        first.content = (1, .bool true) ∧ last.content = (2, .bool false) ∧
        Complete enclosed [] := by
  have hrun : (Run.run (step sampleOptions) (initial sampleOptions) liveRun).map (fun s =>
      (s.events.listenerCount, (s.events.listeners 0).delivered)) = some (1,
        [.reset ⟨"g0", 0, 0⟩, .row ⟨"g0", 1, 1⟩ (.bool true),
          .row ⟨"g0", 2, 2⟩ (.bool false)]) := by
    decide +kernel
  obtain ⟨s, hs, hfields⟩ := map_eq_some_iff.1 hrun
  simp only [Prod.mk.injEq] at hfields
  obtain ⟨hnumbered, -, -, hbetween⟩ :=
    live_events_complete (Run.reachable_of_run hs) (show 0 < s.events.listenerCount by omega)
  exact ⟨s, hs, hfields.2, hnumbered, hbetween [_] _ _ [] _ _ [] hfields.2 nofun⟩

end Reactive

end AckerDB
