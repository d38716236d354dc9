import AckerDB.Lib.Registry
import AckerDB.Subscriptions.Reactive.Changes

/-!
# Counters and tables

`OrderedReactive` keeps five counters and, for its listeners, two tables that name each
other: by subscriber and id, and by entry or event table.

* `Links` — the tables agree, in every run;
* `Ledger` — the counters agree with the tables as well;
* `ReleasesKept` — what a run has to avoid for that: the closure that runs when an evaluation
  has settled counts an entry as dormant also when it was removed meanwhile.
-/

namespace AckerDB

open Protocol Registry Function

namespace Reactive

open EventListener State Outbox

/-! ## The listeners as registries -/

/-- The query listeners, by subscriber and id, and by entry. -/
def State.queries (s : State) : Registry (Nat × Nat) Binding Nat where
  binding k := (s.bySubscriber k.1).lookup k.2
  key l := ((s.outbox.listeners l).subscriber, (s.outbox.listeners l).id)
  group l := (s.outbox.listeners l).entry
  members e := (s.entries e).listeners
  count := s.outbox.listenerCount

/-- The event listeners, by subscriber and id, and by table. -/
def State.live (s : State) : Registry (Nat × Nat) Binding String where
  binding k := (s.bySubscriber k.1).lookup k.2
  key m := ((s.events.listeners m).subscriber, (s.events.listeners m).id)
  group m := (s.events.listeners m).table
  members := s.events.states
  count := s.events.listenerCount

/-- **Listeners are in both tables or in none.** -/
structure Links (s : State) : Prop where
  queries : Linked Binding.query s.queries
  live : Linked Binding.event s.live
  /-- Numbers no entry has taken yet. -/
  unused : ∀ e, s.entryCount ≤ e → (s.entries e).removed = true ∧ (s.entries e).listeners = []
  /-- A listener listens to an entry that was made. -/
  known : ∀ l < s.outbox.listenerCount, (s.outbox.listeners l).entry < s.entryCount

theorem Binding.query_injective : Function.Injective Binding.query := fun _ _ h => by
  simpa using h

theorem Binding.event_injective : Function.Injective Binding.event := fun _ _ h => by
  simpa using h

theorem lookup_cons_of_ne {β : Type} (value : β) (rest : List (Nat × β)) {first other : Nat}
    (h : other ≠ first) : ((first, value) :: rest).lookup other = rest.lookup other := by
  have hbeq : (other == first) = false := by simpa using h
  rw [List.lookup_cons, hbeq]

theorem lookup_filter_ne {β : Type} (bindings : List (Nat × β)) (id other : Nat) :
    (bindings.filter fun binding => decide (binding.1 ≠ id)).lookup other =
      if other = id then none else bindings.lookup other := by
  induction bindings with
  | nil => simp
  | cons binding _ ih =>
    obtain ⟨first, value⟩ := binding
    by_cases hfirst : first = id
    · subst hfirst
      rw [List.filter_cons_of_neg (by simp), ih]
      split
      · rfl
      · rename_i hne
        rw [lookup_cons_of_ne _ _ hne]
    rw [List.filter_cons_of_pos (by simpa using hfirst)]
    by_cases hother : other = first
    · subst hother
      simp [hfirst]
    · rw [lookup_cons_of_ne _ _ hother, lookup_cons_of_ne _ _ hother, ih]

variable {subscriber : Nat}

/-- The bindings of a subscriber change under one identity. -/
theorem binding_update (table : Nat → List (Nat × Binding)) {id : Nat}
    {bindings : List (Nat × Binding)} {value : Option Binding}
    (h : ∀ key, bindings.lookup key = if key = id then value else (table subscriber).lookup key) :
    (fun k : Nat × Nat => (update table subscriber bindings k.1).lookup k.2) =
      update (fun k : Nat × Nat => (table k.1).lookup k.2) (subscriber, id) value := by
  funext ⟨other, key⟩
  by_cases hsubscriber : other = subscriber
  · subst hsubscriber
    simp only [update_self, h]
    by_cases hid : key = id
    · subst hid
      simp
    · rw [if_neg hid, update_of_ne (by simpa using hid)]
  · have hne : (other, key) ≠ (subscriber, id) := by simp [hsubscriber]
    rw [update_of_ne hne]
    simp only [update_of_ne hsubscriber]

theorem binding_erase (table : Nat → List (Nat × Binding)) (subscriber id : Nat) :
    (fun k : Nat × Nat => (update table subscriber
        ((table subscriber).filter fun binding => decide (binding.1 ≠ id)) k.1).lookup k.2) =
      update (fun k : Nat × Nat => (table k.1).lookup k.2) (subscriber, id) none :=
  binding_update table (lookup_filter_ne _ id)

theorem binding_append (table : Nat → List (Nat × Binding)) {id : Nat} (binding : Binding)
    (hfree : (table subscriber).lookup id = none) :
    (fun k : Nat × Nat => (update table subscriber
        (table subscriber ++ [(id, binding)]) k.1).lookup k.2) =
      update (fun k : Nat × Nat => (table k.1).lookup k.2) (subscriber, id)
        (some binding) := by
  refine binding_update table fun key => ?_
  rw [List.lookup_append]
  by_cases hid : key = id
  · subst hid
    simp [hfree]
  · rw [lookup_cons_of_ne _ _ hid]
    simp [hid]

variable {listener : EventListener} {event : Event} {entry : QueryEntry} {outbox : Outbox}
  {m e l : Nat}

section Changes

variable {options : ReactiveOptions} {s t : State}

/-! ## What the operations do to them -/

theorem queries_congr (hby : t.bySubscriber = s.bySubscriber)
    (houtbox : t.outbox.SameListeners s.outbox)
    (hentries : ∀ e, (t.entries e).listeners = (s.entries e).listeners) : t.queries = s.queries := by
  unfold queries
  rw [hby, houtbox.count]
  congr 1
  · funext l
    rw [(houtbox.listener l).subscriber, (houtbox.listener l).id]
  · funext l
    rw [(houtbox.listener l).entry]
  · funext e
    rw [hentries e]

theorem tables_detach (now : Int) (hbound : s.queries.binding (s.queries.key l) = some (.query l)) :
    (s.detach l now).queries = s.queries.remove l ∧
      (s.detach l now).live = s.live.rebind (s.queries.key l) none := by
  have hlookup : (s.bySubscriber (s.outbox.listeners l).subscriber).lookup
      (s.outbox.listeners l).id = some (.query l) := hbound
  unfold detach
  rw [if_pos hlookup]
  unfold queries live
  rw [binding_erase]
  refine ⟨?_, rfl⟩
  congr 1
  exact comp_update QueryEntry.listeners _ _ _

theorem detach_of_unbound (now : Int)
    (hbound : s.queries.binding (s.queries.key l) ≠ some (.query l)) : s.detach l now = s := by
  exact if_neg hbound

theorem tables_detachEvent (hbound : s.live.binding (s.live.key m) = some (.event m)) :
    (s.detachEvent m).live = s.live.remove m ∧
      (s.detachEvent m).queries = s.queries.rebind (s.live.key m) none := by
  have hlookup : (s.bySubscriber (s.events.listeners m).subscriber).lookup
      (s.events.listeners m).id = some (.event m) := hbound
  unfold detachEvent
  rw [if_pos hlookup]
  unfold queries live Registry.remove
  rw [binding_erase]
  exact ⟨rfl, rfl⟩

theorem detachEvent_of_unbound (hbound : s.live.binding (s.live.key m) ≠ some (.event m)) :
    s.detachEvent m = s := by
  exact if_neg hbound

theorem identityFree_lookup {id : Nat} (h : s.identityFree subscriber id = true) :
    (s.bySubscriber subscriber).lookup id = none := by
  simp only [identityFree, Bool.and_eq_true, Option.isNone_iff_eq_none] at h
  exact h.2

theorem queries_attach {listener : QueryListener}
    (hfree : s.identityFree listener.subscriber listener.id = true) :
    (s.attach listener).queries =
      s.queries.insert .query (listener.subscriber, listener.id) listener.entry := by
  unfold attach queries addListener
  rw [binding_append _ _ (identityFree_lookup hfree)]
  congr 1
  · exact comp_update (fun l : QueryListener => (l.subscriber, l.id)) _ _ _
  · exact comp_update QueryListener.entry _ _ _
  · exact comp_update QueryEntry.listeners _ _ _

theorem live_attach {listener : QueryListener}
    (hfree : s.identityFree listener.subscriber listener.id = true) :
    (s.attach listener).live = s.live.rebind (listener.subscriber, listener.id)
      (some (.query s.outbox.listenerCount)) := by
  unfold attach live Registry.rebind
  rw [binding_append _ _ (identityFree_lookup hfree)]

theorem live_attachEvent (hfree : s.identityFree listener.subscriber listener.id = true) :
    (s.attachEvent listener).live =
      s.live.insert .event (listener.subscriber, listener.id) listener.table := by
  unfold attachEvent live
  rw [binding_append _ _ (identityFree_lookup hfree)]
  congr 1
  · exact comp_update (fun m : EventListener => (m.subscriber, m.id)) _ _ _
  · exact comp_update EventListener.table _ _ _

theorem queries_attachEvent (hfree : s.identityFree listener.subscriber listener.id = true) :
    (s.attachEvent listener).queries = s.queries.rebind (listener.subscriber, listener.id)
      (some (.event s.events.listenerCount)) := by
  unfold attachEvent queries Registry.rebind
  rw [binding_append _ _ (identityFree_lookup hfree)]

theorem live_setEvent (hsame : listener.Same (s.events.listeners m)) :
    (s.setEvent m listener).live = s.live := by
  unfold setEvent live
  dsimp only
  congr 1
  · funext other
    by_cases hm : other = m
    · subst hm
      rw [update_self, hsame.subscriber, hsame.id]
    · rw [update_of_ne hm]
  funext other
  by_cases hm : other = m
  · subst hm
    rw [update_self, hsame.table]
  · rw [update_of_ne hm]

/-! ## The tables agree -/

theorem links_initial (options : ReactiveOptions) : Links (initial options) where
  queries := ⟨by simp [queries, initial], by simp [queries, initial],
    by simp [queries, initial]⟩
  live := ⟨by simp [live, initial], by simp [live, initial],
    by simp [live, initial]⟩
  unused := fun _ _ => by simp [initial]
  known := by simp [initial]

/-- Changes that neither attach nor detach. -/
theorem Links.congr (h : Links s) (hby : t.bySubscriber = s.bySubscriber)
    (houtbox : t.outbox.SameListeners s.outbox) (hlive : t.live = s.live)
    (hcount : t.entryCount = s.entryCount)
    (hentries : ∀ e, (t.entries e).listeners = (s.entries e).listeners ∧
      ((s.entries e).removed = true → (t.entries e).removed = true)) : Links t where
  queries := by
    rw [queries_congr hby houtbox fun e => (hentries e).1]
    exact h.queries
  live := hlive ▸ h.live
  unused := by
    intro e he
    obtain ⟨hremoved, hnone⟩ := h.unused e (hcount ▸ he)
    exact ⟨(hentries e).2 hremoved, (hentries e).1.trans hnone⟩
  known := by
    intro l hl
    rw [(houtbox.listener l).entry, hcount]
    exact h.known l (houtbox.count ▸ hl)

/-- Sends. -/
theorem Links.setOutbox (h : Links s) (hsame : outbox.SameListeners s.outbox) :
    Links { s with outbox } :=
  h.congr rfl hsame rfl rfl fun _ => ⟨rfl, id⟩

/-- Another entry under the same number, with the same listeners. -/
theorem Links.setEntry (h : Links s) (hby : t.bySubscriber = s.bySubscriber)
    (houtbox : t.outbox.SameListeners s.outbox) (hlive : t.live = s.live)
    (hcount : t.entryCount = s.entryCount) (hentries : t.entries = update s.entries e entry)
    (hlisteners : entry.listeners = (s.entries e).listeners)
    (hremoved : (s.entries e).removed = true → entry.removed = true) : Links t := by
  refine h.congr hby houtbox hlive hcount fun other => ?_
  rw [hentries]
  exact (forall_update_iff s.entries fun i new => new.listeners = (s.entries i).listeners ∧
    ((s.entries i).removed = true → new.removed = true)).2
      ⟨⟨hlisteners, hremoved⟩, fun _ _ => ⟨rfl, id⟩⟩ other

theorem Links.setEvent (h : Links s) (hsame : listener.Same (s.events.listeners m)) :
    Links (s.setEvent m listener) :=
  h.congr rfl (.refl _) (live_setEvent hsame) rfl fun _ => ⟨rfl, id⟩

theorem Links.lt_of_live (h : Links s) (hlive : (s.entries e).removed = false) :
    e < s.entryCount := by
  by_contra hge
  rw [(h.unused e (Nat.le_of_not_lt hge)).1] at hlive
  cases hlive

theorem detach_kept (s : State) (l : Nat) (now : Int) :
    (s.detach l now).outbox = s.outbox ∧ (s.detach l now).entryCount = s.entryCount := by
  unfold detach
  dsimp only
  split <;> exact ⟨rfl, rfl⟩

theorem Links.detach (h : Links s) (l : Nat) (now : Int) : Links (s.detach l now) := by
  by_cases hbound : s.queries.binding (s.queries.key l) = some (.query l)
  · obtain ⟨houtbox, hcount⟩ := detach_kept s l now
    refine ⟨?_, ?_, ?_, ?_⟩
    · rw [(tables_detach now hbound).1]
      exact h.queries.remove Binding.query_injective hbound
    · rw [(tables_detach now hbound).2]
      refine h.live.rebind (fun m hm => ?_) (by simp)
      have hquery : s.live.binding (s.queries.key l) = some (.query l) := hbound
      rw [hquery] at hm
      cases hm
    · rw [hcount]
      intro e he
      have hne : e ≠ (s.outbox.listeners l).entry := by
        have hlt := h.known l (h.queries.found _ l hbound).1
        omega
      have hsame : (s.detach l now).entries e = s.entries e := by
        unfold State.detach
        dsimp only
        split
        · exact update_of_ne hne _ _
        · rfl
      rw [hsame]
      exact h.unused e he
    · rw [houtbox, hcount]
      exact h.known
  · rw [detach_of_unbound now hbound]
    exact h

theorem Links.detachEvent (h : Links s) (m : Nat) : Links (s.detachEvent m) := by
  by_cases hbound : s.live.binding (s.live.key m) = some (.event m)
  · have hsame : (s.detachEvent m).entries = s.entries ∧
        (s.detachEvent m).entryCount = s.entryCount ∧ (s.detachEvent m).outbox = s.outbox := by
      unfold State.detachEvent
      dsimp only
      split <;> exact ⟨rfl, rfl, rfl⟩
    refine ⟨?_, ?_, ?_, ?_⟩
    · rw [(tables_detachEvent hbound).2]
      refine h.queries.rebind (fun l hl => ?_) (by simp)
      have hevent : s.queries.binding (s.live.key m) = some (.event m) := hbound
      rw [hevent] at hl
      cases hl
    · rw [(tables_detachEvent hbound).1]
      exact h.live.remove Binding.event_injective hbound
    · rw [hsame.1, hsame.2.1]
      exact h.unused
    · rw [hsame.2.1, hsame.2.2]
      exact h.known
  · rw [detachEvent_of_unbound hbound]
    exact h

theorem Links.attach (h : Links s) {listener : QueryListener}
    (hfree : s.identityFree listener.subscriber listener.id = true)
    (hlive : (s.entries listener.entry).removed = false) : Links (s.attach listener) where
  queries := by
    rw [queries_attach hfree]
    exact h.queries.insert Binding.query_injective _ (identityFree_lookup hfree)
  live := by
    rw [live_attach hfree]
    refine h.live.rebind (fun m hm => ?_) (by simp)
    have hnone : s.live.binding (listener.subscriber, listener.id) = none :=
      identityFree_lookup hfree
    rw [hnone] at hm
    cases hm
  unused := by
    intro e he
    have hne : e ≠ listener.entry := by
      rintro rfl
      exact absurd (h.lt_of_live hlive) (Nat.not_lt.2 he)
    simp only [State.attach, update_of_ne hne]
    exact h.unused e he
  known := by
    intro l hl
    by_cases hnew : l = s.outbox.listenerCount
    · subst hnew
      simp only [State.attach, addListener, update_self]
      exact h.lt_of_live hlive
    · simp only [State.attach, addListener, update_of_ne hnew]
      exact h.known l (Nat.lt_of_le_of_ne (Nat.le_of_lt_succ hl) hnew)

theorem Links.attachEvent (h : Links s)
    (hfree : s.identityFree listener.subscriber listener.id = true) :
    Links (s.attachEvent listener) where
  __ := h
  queries := by
    rw [queries_attachEvent hfree]
    refine h.queries.rebind (fun m hm => ?_) (by simp)
    have hnone : s.queries.binding (listener.subscriber, listener.id) = none :=
      identityFree_lookup hfree
    rw [hnone] at hm
    cases hm
  live := by
    rw [live_attachEvent hfree]
    exact h.live.insert Binding.event_injective _ (identityFree_lookup hfree)

theorem Links.addEntry (h : Links s) (key : QueryKey) : Links (s.addEntry options key) := by
  refine ⟨?_, h.live, ?_, fun l hl => Nat.lt_succ_of_lt (h.known l hl)⟩
  · have hqueries : (s.addEntry options key).queries = s.queries := by
      refine queries_congr rfl ⟨rfl, fun _ => ⟨rfl, rfl, rfl, rfl, rfl⟩⟩ fun e => ?_
      by_cases he : e = s.entryCount
      · subst he
        simp only [State.addEntry, update_self]
        exact (h.unused _ le_rfl).2.symm
      · simp only [State.addEntry, update_of_ne he]
    rw [hqueries]
    exact h.queries
  intro e he
  have hne := Nat.ne_of_gt he
  simp only [State.addEntry, update_of_ne hne]
  exact h.unused e (Nat.le_of_succ_le he)

theorem installResult_kept (uid id : Nat) (entry : QueryEntry) (history : TransitionHistory)
    (evaluated : QueryEvaluation) (bytes : Nat) (fresh : String) (now : Int) :
    (installResult uid id entry history evaluated bytes fresh now).entry.listeners =
        entry.listeners ∧
      (installResult uid id entry history evaluated bytes fresh now).entry.removed =
        entry.removed := by
  obtain ⟨generation, hentry⟩ := installResult_entry uid id entry history evaluated bytes fresh now
  rw [hentry]
  exact ⟨rfl, rfl⟩

theorem sameListeners_reset (subscriber id : Nat) (source : SubscriptionCursor) :
    (s.reset options subscriber id source).outbox.SameListeners s.outbox := by
  unfold reset
  split
  · exact .refl _
  · exact .refl _
  · dsimp only
    exact sameListeners_begin _ _ _

theorem reset_eq_setOutbox (subscriber id : Nat) (source : SubscriptionCursor) :
    s.reset options subscriber id source =
      { s with outbox := (s.reset options subscriber id source).outbox } := by
  unfold reset
  split <;> rfl

theorem same_toldEvent (report : Report) (listener : EventListener) :
    (toldEvent report listener).Same listener := by
  unfold toldEvent
  split
  · exact .refl _
  · exact same_enqueue _ _

theorem openEvent_identity {id : Nat} (hfree : s.identityFree subscriber id = true) (table : String)
    (matches_ : Nat → JsValue → Except Thrown Bool) (authEpoch : Nat) (generation : String)
    (highWater : Nat) :
    s.identityFree
      (openEvent subscriber id table matches_ authEpoch generation highWater).subscriber
      (openEvent subscriber id table matches_ authEpoch generation highWater).id = true := by
  have hsame := same_enqueue
    { subscriber, id, table, matches_, authEpoch
      cursor := { generation, commitVersion := highWater, sequence := 0 } } .reset
  exact hfree

/-- **Every change keeps the tables in agreement.** -/
theorem Links.change (h : Links s) (hchange : Change options event s t) :
    Links t := by
  cases hchange with
  | publication | calls | subscribe | setCall | pruneHistory | report | setReport =>
    exact { h with }
  | mark | start | submit | releaseEntry => exact h.setEntry rfl (.refl _) rfl rfl rfl rfl id
  | addEntry key => exact h.addEntry key
  | unlink => exact h.setEntry rfl (.refl _) rfl rfl rfl rfl fun _ => rfl
  | install _ e _ _ _ evaluated now =>
    obtain ⟨hlisteners, hremoved⟩ := installResult_kept s.records e (s.entries e) s.history
      evaluated (options.byteLength evaluated.encoded) (s.fresh options) now
    refine h.setEntry rfl ⟨rfl, fun _ => ⟨rfl, rfl, rfl, rfl, rfl⟩⟩ rfl rfl rfl hlisteners ?_
    exact fun h => hremoved.trans h
  | detach l now => exact h.detach l now
  | attach _ _ _ _ hfree hlive => exact h.attach hfree hlive
  | deliver =>
    exact h.setOutbox (sameListeners_begin _ _ _)
  | reset subscriber id source =>
    rw [reset_eq_setOutbox]
    exact h.setOutbox (sameListeners_reset subscriber id source)
  | tell r l report =>
    have hsent := h.setOutbox (@sameListeners_beginSend options s.outbox l
      (reportSend report.kind report.outcome (s.outbox.listeners l)))
    exact { hsent with }
  | sent _ _ _ houtbox => exact h.setOutbox (sameListeners_sent houtbox)
  | sendFailed _ _ _ houtbox => exact h.setOutbox (sameListeners_sendFailed houtbox)
  | resumeDelivery _ _ _ houtbox => exact h.setOutbox (sameListeners_resume houtbox)
  | detachEvent m => exact h.detachEvent m
  | attachEvent _ _ table matches_ authEpoch hfree =>
    have hattached := h.attachEvent (openEvent_identity hfree table matches_ authEpoch
      (s.fresh options) s.highWater)
    exact { hattached with }
  | offer => exact h.setEvent (same_offer _ _ _)
  | tellEvent m report => exact h.setEvent (same_toldEvent report _)
  | finishEvent => exact h.setEvent ⟨rfl, rfl, rfl, rfl, rfl⟩
  | settleEvent _ _ hsettled =>
    rcases hsettled with hsent | hfailed
    · exact h.setEvent (same_sent hsent)
    · exact h.setEvent (same_sendFailed hfailed)

end Changes

/-! ## The counters -/

/-- What an entry adds to `dormantEntries`. -/
def dormantWeight (entry : QueryEntry) : Int :=
  if !entry.removed && entry.dormantAtMs.isSome then 1 else 0

/-- What an entry adds to `evaluatingEntries`. -/
def evaluatingWeight (entry : QueryEntry) : Int :=
  if !entry.removed && entry.evaluation.isSome then 1 else 0

/-- What an entry adds to `resultBytes`. -/
def bytesWeight (entry : QueryEntry) : Int :=
  if !entry.removed then (entry.resultBytes : Int) else 0

/-- **The counters are the sums they stand for**, but for a drift of `dormantEntries`. -/
structure Ledger (options : ReactiveOptions) (drift : Int) (s : State) : Prop where
  links : Links s
  retired : ∀ e, (s.entries e).removed = true → (s.entries e).evaluation = none
  queryListeners : s.queryListeners = size .query s.queries
  eventListeners : s.events.bound = size .event s.live
  dormant : s.dormantEntries = total dormantWeight s.entries s.entryCount + drift
  evaluating : s.evaluatingEntries = total evaluatingWeight s.entries s.entryCount
  bytes : s.resultBytes = total bytesWeight s.entries s.entryCount
  limit : s.resultBytes ≤ options.maxSharedResultBytes

section Counters

variable {options : ReactiveOptions} {drift : Int} {s t : State}

theorem ledger_initial (options : ReactiveOptions) : Ledger options 0 (initial options) where
  links := links_initial options
  retired := by simp [initial]
  queryListeners := by simp [initial, size, queries, total]
  eventListeners := by simp [initial, size, live, total]
  dormant := by simp [initial, total]
  evaluating := by simp [initial, total]
  bytes := by simp [initial, total]
  limit := by simp [initial]

section

variable (h : Ledger options drift s)

include h

/-- A change of one entry, with what it adds to the counters. -/
theorem Ledger.setEntry (hlinks : Links t) (hcount : t.entryCount = s.entryCount)
    (hentries : t.entries = update s.entries e entry)
    (hretired : entry.removed = true → entry.evaluation = none)
    (hqueries : t.queryListeners = size .query t.queries)
    (hlive : t.events.bound = size .event t.live)
    (hdormant : t.dormantEntries =
      s.dormantEntries + (dormantWeight entry - dormantWeight (s.entries e)))
    (hevaluating : t.evaluatingEntries =
      s.evaluatingEntries + (evaluatingWeight entry - evaluatingWeight (s.entries e)))
    (hbytes : t.resultBytes = s.resultBytes + (bytesWeight entry - bytesWeight (s.entries e)))
    (hlimit : t.resultBytes ≤ options.maxSharedResultBytes) : Ledger options drift t := by
  -- an entry that was never made is removed before and after, and counts nowhere
  have hknown : ∀ weight : QueryEntry → Int, (∀ entry, entry.removed = true → weight entry = 0) →
      e < s.entryCount ∨ weight entry = weight (s.entries e) := by
    intro weight hweight
    refine (Nat.lt_or_ge e s.entryCount).imp_right fun hge => ?_
    have hafter := (hlinks.unused e (hcount ▸ hge)).1
    rw [hentries, update_self] at hafter
    rw [hweight entry hafter, hweight _ (h.links.unused e hge).1]
  refine ⟨hlinks, ?_, hqueries, hlive, ?_, ?_, ?_, hlimit⟩
  · intro other hother
    rw [hentries] at hother ⊢
    by_cases he : other = e
    · subst he
      rw [update_self] at hother ⊢
      exact hretired hother
    · rw [update_of_ne he] at hother ⊢
      exact h.retired other hother
  · rw [hdormant, hentries, hcount, total_update e entry
      (hknown dormantWeight fun entry hremoved => by simp [dormantWeight, hremoved]), h.dormant]
    omega
  · rw [hevaluating, hentries, hcount, total_update e entry
      (hknown evaluatingWeight fun entry hremoved => by simp [evaluatingWeight, hremoved]),
      h.evaluating]
  · rw [hbytes, hentries, hcount, total_update e entry
      (hknown bytesWeight fun entry hremoved => by simp [bytesWeight, hremoved]), h.bytes]

/-- A change of no entry. -/
theorem Ledger.congr (hlinks : Links t) (hcount : t.entryCount = s.entryCount)
    (hentries : t.entries = s.entries) (hqueries : t.queryListeners = size .query t.queries)
    (hlive : t.events.bound = size .event t.live) (hdormant : t.dormantEntries = s.dormantEntries)
    (hevaluating : t.evaluatingEntries = s.evaluatingEntries)
    (hbytes : t.resultBytes = s.resultBytes) : Ledger options drift t := by
  refine ⟨hlinks, ?_, hqueries, hlive, ?_, ?_, ?_, ?_⟩
  · rw [hentries]
    exact h.retired
  · rw [hdormant, hentries, hcount, h.dormant]
  · rw [hevaluating, hentries, hcount, h.evaluating]
  · rw [hbytes, hentries, hcount, h.bytes]
  · rw [hbytes]
    exact h.limit

theorem Ledger.queries_of_eq (hqueries : t.queries = s.queries)
    (hcounter : t.queryListeners = s.queryListeners) :
    t.queryListeners = size .query t.queries := by
  rw [hqueries, hcounter, h.queryListeners]

theorem Ledger.live_of_eq (hlive : t.live = s.live)
    (hcounter : t.events.bound = s.events.bound) : t.events.bound = size .event t.live := by
  rw [hlive, hcounter, h.eventListeners]

/-- Sends. -/
theorem Ledger.setOutbox (hsame : outbox.SameListeners s.outbox) :
    Ledger options drift { s with outbox } :=
  h.congr (h.links.setOutbox hsame) rfl rfl
    (h.queries_of_eq (queries_congr rfl hsame fun _ => rfl) rfl) h.eventListeners rfl rfl rfl

theorem Ledger.setEvent (hsame : listener.Same (s.events.listeners m)) :
    Ledger options drift (s.setEvent m listener) :=
  h.congr (h.links.setEvent hsame) rfl rfl h.queryListeners
    (h.live_of_eq (live_setEvent hsame) rfl) rfl rfl rfl

omit h in
theorem queries_setEntry {e : Nat} {entry : QueryEntry} (hby : t.bySubscriber = s.bySubscriber)
    (houtbox : t.outbox.SameListeners s.outbox)
    (hentries : t.entries = update s.entries e entry)
    (hlisteners : entry.listeners = (s.entries e).listeners) : t.queries = s.queries := by
  refine queries_congr hby houtbox fun other => ?_
  rw [hentries]
  exact (forall_update_iff s.entries fun i new => new.listeners = (s.entries i).listeners).2
    ⟨hlisteners, fun _ _ => rfl⟩ other

theorem Ledger.mark (e dirtyVersion evaluationGeneration : Nat) :
    Ledger options drift
      (s.setEntry e { s.entries e with dirtyVersion, evaluationGeneration }) := by
  refine h.setEntry (h.links.setEntry rfl (.refl _) rfl rfl rfl rfl id) rfl rfl (h.retired e)
    (h.queries_of_eq (queries_setEntry rfl (.refl _) rfl rfl) rfl) h.eventListeners ?_ ?_ ?_ h.limit
  · simp [dormantWeight, State.setEntry]
  · simp [evaluatingWeight, State.setEntry]
  · simp [bytesWeight, State.setEntry]

theorem Ledger.submit (hlive : (s.entries e).removed = false)
    (hidle : (s.entries e).evaluation = none) : Ledger options drift (s.submit e) := by
  refine h.setEntry (h.links.setEntry rfl (.refl _) rfl rfl rfl rfl id) rfl rfl ?_
    (h.queries_of_eq (queries_setEntry rfl (.refl _) rfl rfl) rfl) h.eventListeners ?_ ?_ ?_ h.limit
  · intro hremoved
    rw [hlive] at hremoved
    cases hremoved
  · simp [dormantWeight, State.submit]
  · simp [evaluatingWeight, State.submit, hlive, hidle]
  · simp [bytesWeight, State.submit]

theorem Ledger.unlink (hlive : (s.entries e).removed = false) :
    Ledger options drift (s.unlink e) := by
  refine h.setEntry (h.links.setEntry rfl (.refl _) rfl rfl rfl rfl fun _ => rfl) rfl rfl
    (fun _ => rfl) (h.queries_of_eq (queries_setEntry rfl (.refl _) rfl rfl) rfl) h.eventListeners
    ?_ ?_ ?_ ?_
  · simp only [State.unlink, dormantWeight, hlive]
    cases (s.entries e).dormantAtMs.isSome <;> simp
    omega
  · simp only [State.unlink, evaluatingWeight, hlive]
    cases (s.entries e).evaluation.isSome <;> simp
    omega
  · simp only [State.unlink, bytesWeight, hlive]
    simp
    omega
  · have hlimit := h.limit
    simp only [State.unlink]
    omega

theorem Ledger.install {e : Nat} {evaluated : QueryEvaluation} (now : Int)
    (hlive : (s.entries e).removed = false) (hfits : (options.byteLength evaluated.encoded : Int) ≤
      options.maxSharedResultBytes - (s.resultBytes - (s.entries e).resultBytes)) :
    Ledger options drift (s.install options e evaluated now) := by
  obtain ⟨generation, hentries⟩ := s.install_entries options e evaluated now
  have houtbox : (s.install options e evaluated now).outbox.SameListeners s.outbox :=
    ⟨rfl, fun _ => ⟨rfl, rfl, rfl, rfl, rfl⟩⟩
  refine h.setEntry (h.links.setEntry rfl houtbox rfl rfl hentries rfl id) rfl hentries ?_
    (h.queries_of_eq (queries_setEntry rfl houtbox hentries rfl) rfl) h.eventListeners ?_ ?_ ?_ ?_
  · intro hremoved
    exact absurd (hlive.symm.trans hremoved) (by simp)
  · simp [State.install, dormantWeight, QueryEntry.take]
  · simp [State.install, evaluatingWeight, QueryEntry.take]
  · simp [State.install, bytesWeight, QueryEntry.take, hlive]
  · simp only [State.install]
    omega

theorem Ledger.addEntry (key : QueryKey) :
    Ledger options drift (s.addEntry options key) := by
  refine ⟨h.links.addEntry key, ?_, ?_, h.eventListeners, ?_, ?_, ?_, h.limit⟩
  · intro e he
    by_cases hnew : e = s.entryCount
    · subst hnew
      simp [State.addEntry] at he
    · simp only [State.addEntry, update_of_ne hnew] at he ⊢
      exact h.retired e he
  · refine h.queries_of_eq (queries_setEntry rfl ⟨rfl, fun _ => ⟨rfl, rfl, rfl, rfl, rfl⟩⟩ rfl ?_) rfl
    exact (h.links.unused _ le_rfl).2.symm
  · simp only [State.addEntry]
    rw [total_append, h.dormant]
    simp [dormantWeight]
  · simp only [State.addEntry]
    rw [total_append, h.evaluating]
    simp [evaluatingWeight]
  · simp only [State.addEntry]
    rw [total_append, h.bytes]
    simp [bytesWeight]

theorem Ledger.detach (l : Nat) (now : Int) :
    Ledger options drift (s.detach l now) := by
  by_cases hbound : s.queries.binding (s.queries.key l) = some (.query l)
  · have hqueries : size .query (s.detach l now).queries = s.queryListeners - 1 := by
      rw [(tables_detach now hbound).1, h.queryListeners,
        size_remove h.links.queries Binding.query_injective hbound]
    have hlive : size .event (s.detach l now).live = s.events.bound := by
      rw [(tables_detach now hbound).2, size_rebind _ (by simp), h.eventListeners]
      intro m hm
      have hquery : s.live.binding (s.queries.key l) = some (.query l) := hbound
      rw [hquery] at hm
      cases hm
    have hlinks := h.links.detach l now
    have hlookup : (s.bySubscriber (s.outbox.listeners l).subscriber).lookup
        (s.outbox.listeners l).id = some (.query l) := hbound
    unfold State.detach at hqueries hlive hlinks ⊢
    rw [if_pos hlookup] at hqueries hlive hlinks ⊢
    refine h.setEntry hlinks rfl rfl (h.retired _) hqueries.symm hlive.symm ?_ ?_ ?_ h.limit
    · simp only [dormantWeight]
      cases (s.entries (s.outbox.listeners l).entry).dormantAtMs <;>
        cases (s.entries (s.outbox.listeners l).entry).removed <;> simp
    · simp [evaluatingWeight]
    · simp [bytesWeight]
  · rw [detach_of_unbound now hbound]
    exact h

theorem Ledger.attach {listener : QueryListener}
    (hfree : s.identityFree listener.subscriber listener.id = true)
    (hlive : (s.entries listener.entry).removed = false) : Ledger options drift (s.attach listener) := by
  have hnone : s.live.binding (listener.subscriber, listener.id) = none :=
    identityFree_lookup hfree
  have hfound : s.queries.binding (listener.subscriber, listener.id) = none := hnone
  refine h.setEntry (h.links.attach hfree hlive) rfl rfl (h.retired _) ?_ ?_ ?_ ?_ ?_ h.limit
  · rw [queries_attach hfree, size_insert Binding.query_injective _ hfound, ← h.queryListeners]
    rfl
  · rw [live_attach hfree, size_rebind (by simp [hnone]) (by simp), ← h.eventListeners]
    rfl
  · simp only [State.attach, dormantWeight, hlive]
    cases (s.entries listener.entry).dormantAtMs <;> simp
    omega
  · simp [State.attach, evaluatingWeight]
  · simp [State.attach, bytesWeight]

theorem Ledger.detachEvent (m : Nat) : Ledger options drift (s.detachEvent m) := by
  by_cases hbound : s.live.binding (s.live.key m) = some (.event m)
  · have hlive : size .event (s.detachEvent m).live = s.events.bound - 1 := by
      rw [(tables_detachEvent hbound).1, h.eventListeners,
        size_remove h.links.live Binding.event_injective hbound]
    have hqueries : size .query (s.detachEvent m).queries = s.queryListeners := by
      rw [(tables_detachEvent hbound).2, size_rebind _ (by simp), h.queryListeners]
      intro l hl
      have hevent : s.queries.binding (s.live.key m) = some (.event m) := hbound
      rw [hevent] at hl
      cases hl
    have hlinks := h.links.detachEvent m
    have hlookup : (s.bySubscriber (s.events.listeners m).subscriber).lookup
        (s.events.listeners m).id = some (.event m) := hbound
    unfold State.detachEvent at hqueries hlive hlinks ⊢
    rw [if_pos hlookup] at hqueries hlive hlinks ⊢
    exact h.congr hlinks rfl rfl hqueries.symm hlive.symm rfl rfl rfl
  · rw [detachEvent_of_unbound hbound]
    exact h

theorem Ledger.attachEvent (hfree : s.identityFree listener.subscriber listener.id = true) :
    Ledger options drift (s.attachEvent listener) := by
  have hnone : s.queries.binding (listener.subscriber, listener.id) = none :=
    identityFree_lookup hfree
  have hfound : s.live.binding (listener.subscriber, listener.id) = none := hnone
  refine h.congr (h.links.attachEvent hfree) rfl rfl ?_ ?_ rfl rfl rfl
  · rw [queries_attachEvent hfree, size_rebind (by simp [hnone]) (by simp), ← h.queryListeners]
    rfl
  · rw [live_attachEvent hfree, size_insert Binding.event_injective _ hfound, ← h.eventListeners]
    rfl

omit h in
/-- The entry falls asleep after it was removed. -/
def State.oversleeps (s : State) (task : Nat) : Bool :=
  let entry := s.entries (s.evaluations task).entry
  entry.removed && entry.listeners.isEmpty && entry.initialized && entry.dormantAtMs.isNone

/-- A release counts an entry that falls asleep, whether it was removed or not. -/
theorem Ledger.releaseEntry (task : Nat) (now : Int) :
    Ledger options (drift + if s.oversleeps task then 1 else 0) (s.releaseEntry task now) := by
  have hdrifted : Ledger options (drift + if s.oversleeps task then 1 else 0)
      { s with dormantEntries := s.dormantEntries + if s.oversleeps task then 1 else 0 } := by
    refine { h with links := { h.links with }, dormant := ?_ }
    have hdormant := h.dormant
    show s.dormantEntries + _ = total dormantWeight s.entries s.entryCount + _
    omega
  have hlinks : Links (s.releaseEntry task now) :=
    h.links.setEntry rfl (.refl _) rfl rfl rfl rfl id
  refine hdrifted.setEntry hlinks rfl rfl ?_
    (h.queries_of_eq (queries_setEntry rfl (.refl _) rfl rfl) rfl) h.eventListeners ?_ ?_ ?_ h.limit
  · intro hremoved
    simp [h.retired _ hremoved]
  · simp only [State.releaseEntry, dormantWeight, State.oversleeps]
    rcases Bool.eq_false_or_eq_true (s.entries (s.evaluations task).entry).removed with
      hremoved | hremoved <;>
    rcases Option.eq_none_or_eq_some (s.entries (s.evaluations task).entry).dormantAtMs with
      hasleep | ⟨since, hasleep⟩ <;> simp [hremoved, hasleep]
  · cases hremoved : (s.entries (s.evaluations task).entry).removed with
    | true => simp [State.releaseEntry, evaluatingWeight, hremoved, h.retired _ hremoved]
    | false =>
      simp only [State.releaseEntry, evaluatingWeight, hremoved]
      split
      · rename_i howned
        rw [beq_iff_eq] at howned
        simp [howned]
        omega
      · simp
  · simp [State.releaseEntry, bytesWeight]

end

/-- **Every change but a release keeps the counters.** -/
theorem Ledger.change (hevent : ∀ task now, event ≠ .release task now) (h : Ledger options drift s)
    (hchange : Change options event s t) : Ledger options drift t := by
  have hlinks := h.links.change hchange
  cases hchange with
  | publication | calls | subscribe | setCall | pruneHistory | report | setReport =>
    exact h.congr hlinks rfl rfl h.queryListeners h.eventListeners rfl rfl rfl
  | mark e => exact h.mark e _ _
  | start task =>
    have hmarked := h.mark (s.evaluations task).entry
      (s.entries (s.evaluations task).entry).dirtyVersion
      ((s.entries (s.evaluations task).entry).evaluationGeneration + 1)
    exact hmarked.congr hlinks rfl rfl hmarked.queryListeners hmarked.eventListeners rfl rfl rfl
  | submit e hlive hidle => exact h.submit hlive hidle
  | releaseEntry task now hrelease => exact absurd hrelease (hevent task now)
  | addEntry key => exact h.addEntry key
  | unlink e hlive => exact h.unlink hlive
  | install _ _ _ _ _ _ now _ _ hlive _ _ hfits =>
      have hinstalled := h.install now hlive hfits
      exact hinstalled.congr hlinks rfl rfl hinstalled.queryListeners hinstalled.eventListeners
        rfl rfl rfl
  | detach l now => exact h.detach l now
  | attach _ _ _ _ hfree hlive => exact h.attach hfree hlive
  | deliver =>
    exact h.setOutbox (sameListeners_begin _ _ _)
  | reset subscriber id source =>
    rw [reset_eq_setOutbox]
    exact h.setOutbox (sameListeners_reset subscriber id source)
  | tell r l report =>
    have hsent := h.setOutbox (@sameListeners_beginSend options s.outbox l
      (reportSend report.kind report.outcome (s.outbox.listeners l)))
    exact hsent.congr hlinks rfl rfl hsent.queryListeners hsent.eventListeners rfl rfl rfl
  | sent _ _ _ houtbox => exact h.setOutbox (sameListeners_sent houtbox)
  | sendFailed _ _ _ houtbox => exact h.setOutbox (sameListeners_sendFailed houtbox)
  | resumeDelivery _ _ _ houtbox => exact h.setOutbox (sameListeners_resume houtbox)
  | detachEvent m => exact h.detachEvent m
  | attachEvent _ _ table matches_ authEpoch hfree =>
    have hattached := h.attachEvent (openEvent_identity hfree table matches_ authEpoch
      (s.fresh options) s.highWater)
    exact hattached.congr hlinks rfl rfl hattached.queryListeners hattached.eventListeners
      rfl rfl rfl
  | offer => exact h.setEvent (same_offer _ _ _)
  | tellEvent m report => exact h.setEvent (same_toldEvent report _)
  | finishEvent => exact h.setEvent ⟨rfl, rfl, rfl, rfl, rfl⟩
  | settleEvent _ _ hsettled =>
    rcases hsettled with hsent | hfailed
    · exact h.setEvent (same_sent hsent)
    · exact h.setEvent (same_sendFailed hfailed)

theorem Ledger.changes (hevent : ∀ task now, event ≠ .release task now) (h : Ledger options drift s)
    (hchanges : Changes options event s t) :
    Ledger options drift t := by
  induction hchanges with
  | refl => exact h
  | tail _ hlast ih => exact ih.change hevent hlast

/-- How much further `dormantEntries` drifts in a turn. -/
def driftOf (s : State) : Event → Int
  | .release task _ => if s.oversleeps task then 1 else 0
  | _ => 0

/-- **A turn keeps the counters, up to the drift.** -/
theorem Ledger.step (h : Ledger options drift s) (hstep : step options s event = some t) :
    Ledger options (drift + driftOf s event) t := by
  cases event with
  | release task now =>
    have hrest : Changes options .close (s.releaseEntry task now) t := (Bare.release hstep).changes
    exact (h.releaseEntry task now).changes (by simp) hrest
  | _ =>
    rw [driftOf, add_zero]
    · exact h.changes (by simp) (step_changes hstep)
    all_goals simp

end Counters

/-! ## Exact bookkeeping -/

/-- **The counters and tables of `OrderedReactive` are exact.** -/
structure Exact (options : ReactiveOptions) (s : State) : Prop where
  queryListeners : s.queryListeners = ((List.range s.outbox.listenerCount).countP fun l =>
    decide ((s.bySubscriber (s.outbox.listeners l).subscriber).lookup (s.outbox.listeners l).id =
      some (.query l)) : Nat)
  eventListeners : s.events.bound = ((List.range s.events.listenerCount).countP fun m =>
    decide ((s.bySubscriber (s.events.listeners m).subscriber).lookup (s.events.listeners m).id =
      some (.event m)) : Nat)
  dormantEntries : s.dormantEntries =
    (s.liveEntries.countP fun e => (s.entries e).dormantAtMs.isSome : Nat)
  evaluatingEntries : s.evaluatingEntries =
    (s.liveEntries.countP fun e => (s.entries e).evaluation.isSome : Nat)
  resultBytes : s.resultBytes = ((s.liveEntries.map fun e => (s.entries e).resultBytes).sum : Nat)
  limit : s.resultBytes ≤ options.maxSharedResultBytes
  query : ∀ subscriber id l, (s.bySubscriber subscriber).lookup id = some (.query l) ↔
    l < s.outbox.listenerCount ∧ (s.outbox.listeners l).subscriber = subscriber ∧
      (s.outbox.listeners l).id = id ∧ l ∈ (s.entries (s.outbox.listeners l).entry).listeners
  event : ∀ subscriber id m, (s.bySubscriber subscriber).lookup id = some (.event m) ↔
    m < s.events.listenerCount ∧ (s.events.listeners m).subscriber = subscriber ∧
      (s.events.listeners m).id = id ∧ m ∈ s.events.states (s.events.listeners m).table

/-- No evaluation is released whose entry was removed with a result and never slept. -/
def ReleasesKept (s : State) (event : Event) : Prop :=
  ∀ task now, event = .release task now → s.oversleeps task = false

/-- `ReleasesKept`, computed. -/
def releasesKept (s : State) : Event → Bool
  | .release task _ => !s.oversleeps task
  | _ => true

theorem releasesKept_sound (s : State) (event : Event) (h : releasesKept s event = true) :
    ReleasesKept s event := by
  rintro task now rfl
  simpa [releasesKept] using h

theorem driftOf_eq_zero {s : State} :
    driftOf s event = 0 ↔ ReleasesKept s event := by
  cases event <;> simp [driftOf, ReleasesKept]

variable {options : ReactiveOptions}

/-- The bookkeeping is exact where nothing drifted. -/
theorem Ledger.exact_iff {drift : Int} {s : State} (h : Ledger options drift s) :
    Exact options s ↔ drift = 0 := by
  have hdormant : s.dormantEntries =
      (s.liveEntries.countP fun e => (s.entries e).dormantAtMs.isSome : Nat) + drift := by
    rw [h.dormant]
    congr 1
    exact total_countP (fun entry : QueryEntry => !entry.removed) (fun entry => entry.dormantAtMs.isSome) _ _
  refine ⟨fun hexact => ?_, ?_⟩
  · have hcount := hexact.dormantEntries
    omega
  rintro rfl
  refine ⟨?_, ?_, ?_, ?_, ?_, h.limit, ?_, ?_⟩
  · exact h.queryListeners.trans (size_eq_countP _ _)
  · exact h.eventListeners.trans (size_eq_countP _ _)
  · omega
  · rw [h.evaluating]
    exact total_countP (fun entry : QueryEntry => !entry.removed) (fun entry => entry.evaluation.isSome) _ _
  · rw [h.bytes]
    exact total_filter (fun entry : QueryEntry => !entry.removed) (fun entry => entry.resultBytes) _ _
  · intro subscriber id l
    constructor
    · intro hlookup
      obtain ⟨hlt, hkey, hmem⟩ := h.links.queries.found (subscriber, id) l hlookup
      have hpair := Prod.mk.inj hkey
      exact ⟨hlt, hpair.1, hpair.2, hmem⟩
    · rintro ⟨-, rfl, rfl, hmem⟩
      exact (h.links.queries.listed _ l hmem).2.2
  · intro subscriber id m
    constructor
    · intro hlookup
      obtain ⟨hlt, hkey, hmem⟩ := h.links.live.found (subscriber, id) m hlookup
      have hpair := Prod.mk.inj hkey
      exact ⟨hlt, hpair.1, hpair.2, hmem⟩
    · rintro ⟨-, rfl, rfl, hmem⟩
      exact (h.links.live.listed _ m hmem).2.2

theorem ledger_of_reachable {s : State}
    (hreach : Run.Reachable (step options) ReleasesKept (initial options) s) :
    Ledger options 0 s := by
  refine hreach.induct (ledger_initial options) fun s event t _ h hkept hstep => ?_
  have hnext := h.step hstep
  rw [driftOf_eq_zero.2 hkept, add_zero] at hnext
  exact hnext

/-- **Bookkeeping.**  In a run that releases no evaluation of an entry that was removed with a
result, every state has exact counters and tables; and they stay exact in the next turn exactly
where that turn is no such release either. -/
theorem bookkeeping_exact (options : ReactiveOptions) {s : State}
    (hreach : Run.Reachable (step options) ReleasesKept (initial options) s) :
    Exact options s ∧ ∀ event t, step options s event = some t →
      (Exact options t ↔ ReleasesKept s event) := by
  have hledger := ledger_of_reachable hreach
  refine ⟨hledger.exact_iff.2 rfl, fun event t hstep => ?_⟩
  rw [(hledger.step hstep).exact_iff, zero_add, driftOf_eq_zero]

/-- A subscribed query is evaluated again after a commit, and the second evaluation fails. -/
def failingRun : List Event :=
  [.subscribeQuery 1 1 "notes.list" .null "" 0 none 0, .startEvaluation 0,
    .evaluated 0 (.ok .null) ["notes"] 0 0, .finishEvaluation 0, .release 0 0, .resumeSubscribe 0 0,
    .sent 0, .finishSubscribe 0 0, .reserve 1 0, .commit ["notes"], .publish, .startEvaluation 1,
    .failEvaluation 1 (.foreign "query"), .catchEvaluation 1, .sent 0, .finishEvaluation 1]

theorem bookkeeping_exact_failing :
    ∃ s, Run.run (step sampleOptions) (initial sampleOptions) failingRun = some s ∧
      Exact sampleOptions s ∧ ∀ event t, step sampleOptions s event = some t →
        (Exact sampleOptions t ↔ ReleasesKept s event) := by
  have hsome : (Run.run (step sampleOptions) (initial sampleOptions) failingRun).isSome = true := by
    decide +kernel
  obtain ⟨s, hrun⟩ := Option.isSome_iff_exists.1 hsome
  have hchecks : Run.checks (step sampleOptions) releasesKept (initial sampleOptions) failingRun =
      true := by
    decide +kernel
  exact ⟨s, hrun, bookkeeping_exact sampleOptions
    (Run.Reachable.refl.run (Run.guarded_of_checks releasesKept_sound hchecks) hrun)⟩

/-- The entry of the failed evaluation is gone, and its release counts it as dormant. -/
theorem dormantEntries_drifts :
    ∃ s, Run.Reachable (step sampleOptions) (fun _ _ => True) (initial sampleOptions) s ∧
      s.liveEntries = [] ∧ s.dormantEntries = 1 ∧ ¬ Exact sampleOptions s := by
  have hcounts : (Run.run (step sampleOptions) (initial sampleOptions)
      (failingRun ++ [.release 1 0])).map (fun s => (s.liveEntries, s.dormantEntries)) =
        some ([], 1) := by
    decide +kernel
  obtain ⟨s, hrun, hpair⟩ := Option.map_eq_some_iff.1 hcounts
  obtain ⟨hlive, hdormant⟩ := Prod.mk.inj hpair
  refine ⟨s, Run.reachable_of_run hrun, hlive, hdormant, fun hexact => ?_⟩
  have hcount := hexact.dormantEntries
  rw [hlive, hdormant] at hcount
  simp at hcount

end Reactive

end AckerDB
