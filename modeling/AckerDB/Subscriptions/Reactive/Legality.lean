import AckerDB.Core.Frames
import AckerDB.Subscriptions.Reactive.Bookkeeping
import AckerDB.Subscriptions.Reactive.Versions

/-!
# Legal frames

The server chooses the transitions it sends from the cursor of the listener, the
retained history and the outcome of the entry; the client parses them and gives up on a
frame that does not parse.  What can go wrong is in the outcomes: a value that is
`undefined` has no field on the wire, an answer to a reset request states a value also where
the entry holds an application error, and an application error can only be told to a
predecessor in the same stream.

* `Wired` — cursors parse, values are encodable and the window advances, in every run;
* `emitted_accepted_iff` — the transitions that are legal frames.
-/

namespace AckerDB

open Protocol Function

namespace Reactive

open TransitionHistory List Outbox

/-- The cursors and ids a client supplies come out of the parser. -/
def ClientParsed (_ : State) : Event → Prop
  | .subscribeQuery _ id _ _ _ _ cursor _ => id ≤ maxProtocolId ∧ ∀ c ∈ cursor, c.Valid
  | .reset _ _ source => source.Valid
  | _ => True

/-! ## What can be sent -/

/-- What is on the wire of an entry. -/
structure EntryWire (entry : QueryEntry) : Prop where
  generation : Bounded entry.generation maxCursorPartLength
  identity : Bounded entry.identity maxCursorPartLength
  value : Wire.Encodable entry.value
  error : ∀ error ∈ entry.applicationError, Wire.Encodable error.toJs

variable {entry : QueryEntry} {authEpoch : Nat}

theorem EntryWire.cursor_valid (h : EntryWire entry) (hepoch : authEpoch ≤ maxSafeInteger) :
    (entry.cursor authEpoch).Valid :=
  ⟨h.generation, hepoch, h.identity⟩

/-- What an entry says is in four of its fields. -/
theorem EntryWire.congr {a b : QueryEntry} (h : EntryWire b) (hgeneration : a.generation = b.generation)
    (hidentity : a.identity = b.identity) (hvalue : a.value = b.value)
    (herror : a.applicationError = b.applicationError) : EntryWire a := by
  refine ⟨?_, ?_, ?_, ?_⟩
  · rw [hgeneration]
    exact h.generation
  · rw [hidentity]
    exact h.identity
  · rw [hvalue]
    exact h.value
  · rw [herror]
    exact h.error

/-- A send whose cursor parses. -/
def Send.Wired : Send → Prop
  | .transition sent => sent.target.Valid
  | .error _ => True
  | .revocation nextAuthEpoch _ => nextAuthEpoch ≤ maxSafeInteger

/-- A listener whose cursors parse. -/
structure ListenerWire (listener : QueryListener) : Prop where
  authEpoch : listener.authEpoch ≤ maxSafeInteger
  cursor : ∀ cursor ∈ listener.cursor, cursor.Valid
  queue : ∀ queued ∈ listener.queue, queued.send.Wired

variable {listener : QueryListener}

theorem ListenerWire.hand (h : ListenerWire listener) {fresh : String}
    (hfresh : Bounded fresh maxCursorPartLength) : ListenerWire (listener.hand fresh) := by
  unfold QueryListener.hand
  split
  · exact h
  · exact { h with }
  · exact h
  · rename_i nextAuthEpoch outcome delivery rest hqueue
    have hrest : ∀ queued ∈ rest, queued.send.Wired := by
      intro queued hqueued
      exact h.queue queued (hqueue ▸ mem_cons_of_mem _ hqueued)
    have hhead : (Send.revocation nextAuthEpoch outcome).Wired :=
      h.queue ⟨_, delivery⟩ (hqueue ▸ mem_cons_self)
    have hepoch : nextAuthEpoch ≤ maxSafeInteger := hhead
    split
    · refine ⟨h.authEpoch, h.cursor, ?_⟩
      intro queued hqueued
      rcases mem_cons.1 hqueued with rfl | hqueued
      · trivial
      · exact hrest queued hqueued
    rename_i source hsource
    refine ⟨h.authEpoch, h.cursor, ?_⟩
    exact forall_mem_cons.2 ⟨⟨hfresh, hepoch, (h.cursor source hsource).identity⟩, hrest⟩

/-- Listeners and deliveries whose cursors parse. -/
structure OutboxWire (outbox : Outbox) : Prop where
  listener : ∀ l, ListenerWire (outbox.listeners l)
  rest : ∀ d, ∀ transition ∈ (outbox.deliveries d).rest, transition.target.Valid

variable {after : Outbox} {l : Nat}

section Outbox

variable {options : ReactiveOptions} {outbox : Outbox}

theorem ReactiveOptions.fresh_bounded (options : ReactiveOptions) (n : Nat) :
    Bounded (options.nextGeneration n) maxCursorPartLength :=
  options.nextGeneration_bounded n

section

variable (h : OutboxWire outbox)

include h

theorem OutboxWire.setListener (hlistener : ListenerWire listener) (generations : Nat) :
    OutboxWire { outbox with listeners := update outbox.listeners l listener, generations } where
  listener := (forall_update_iff outbox.listeners fun _ listener => ListenerWire listener).2
    ⟨hlistener, fun other _ => h.listener other⟩
  rest := h.rest

theorem OutboxWire.setDelivery {d : Nat} {delivery : Delivery}
    (hdelivery : ∀ transition ∈ delivery.rest, transition.target.Valid) (deliveryCount : Nat) :
    OutboxWire { outbox with
      deliveries := update outbox.deliveries d delivery, deliveryCount } where
  listener := h.listener
  rest := (forall_update_iff outbox.deliveries fun _ delivery =>
    ∀ transition ∈ delivery.rest, transition.target.Valid).2
      ⟨hdelivery, fun other _ => h.rest other⟩

theorem OutboxWire.start (hlistener : ListenerWire listener) :
    OutboxWire (start options outbox l listener) :=
  h.setListener (hlistener.hand (options.fresh_bounded _)) _

theorem OutboxWire.enqueue (l : Nat) {queued : QueuedSend}
    (hqueued : queued.send.Wired) : OutboxWire (Outbox.enqueue options outbox l queued) := by
  have hextended : ListenerWire
      { outbox.listeners l with queue := (outbox.listeners l).queue ++ [queued] } := by
    refine ⟨(h.listener l).authEpoch, (h.listener l).cursor, ?_⟩
    exact forall_mem_append.2 ⟨(h.listener l).queue, forall_mem_singleton.2 hqueued⟩
  unfold Outbox.enqueue
  dsimp only
  split
  · exact h.start hextended
  · exact h.setListener hextended outbox.generations

theorem OutboxWire.beginSend (l : Nat) {send : Send} (hsend : send.Wired) :
    OutboxWire (beginSend options outbox l send) :=
  (h.setDelivery (by simp) _).enqueue l hsend

theorem OutboxWire.begin (l : Nat) {transitions : List SubscriptionTransition}
    (htransitions : ∀ transition ∈ transitions, transition.target.Valid) :
    OutboxWire (begin options outbox l transitions) := by
  cases transitions with
  | nil => exact h.setDelivery (by simp) _
  | cons first rest =>
    have hrest : ∀ transition ∈ rest, transition.target.Valid :=
      fun transition hmem => htransitions transition (mem_cons_of_mem _ hmem)
    refine (h.setDelivery hrest _).enqueue l ?_
    exact htransitions first mem_cons_self

theorem OutboxWire.sent (hsent : outbox.sent options l = some after) : OutboxWire after := by
  unfold Outbox.sent at hsent
  dsimp only at hsent
  split at hsent
  · cases hsent
  rename_i send d rest hqueue
  cases hsent
  have hlistener := h.listener l
  have hsend := hlistener.queue _ (hqueue ▸ mem_cons_self)
  have hrest : ∀ transition ∈ (outbox.deliveries d).afterSent.rest, transition.target.Valid :=
    h.rest d
  refine (h.setDelivery hrest outbox.deliveryCount).start ⟨hlistener.authEpoch, ?_, ?_⟩
  · intro cursor hcursor
    cases send with
    | transition =>
      cases hcursor
      exact hsend
    | error | revocation => exact hlistener.cursor cursor hcursor
  · intro queued hqueued
    exact hlistener.queue queued (hqueue ▸ mem_cons_of_mem _ hqueued)

theorem OutboxWire.sendFailed (hfailed : outbox.sendFailed options l = some after) :
    OutboxWire after := by
  unfold Outbox.sendFailed at hfailed
  dsimp only at hfailed
  split at hfailed
  · cases hfailed
  rename_i send d rest hqueue
  cases hfailed
  have hlistener := h.listener l
  refine (h.setDelivery (by simp [Delivery.afterFailure]) outbox.deliveryCount).start
    ⟨hlistener.authEpoch, hlistener.cursor, ?_⟩
  intro queued hqueued
  exact hlistener.queue queued (hqueue ▸ mem_cons_of_mem _ hqueued)

theorem OutboxWire.resume {d : Nat} (hresume : outbox.resume options d = some after) :
    OutboxWire after := by
  unfold Outbox.resume at hresume
  split at hresume
  · rename_i l next rest hdelivery
    cases hresume
    have hall := h.rest d
    rw [hdelivery] at hall
    have hrest : ∀ transition ∈ rest, transition.target.Valid :=
      fun transition hmem => hall transition (mem_cons_of_mem _ hmem)
    refine (h.setDelivery hrest outbox.deliveryCount).enqueue l ?_
    exact hall next mem_cons_self
  · cases hresume

end

end Outbox

/-! ## The invariant -/

/-- What a retained transition says can be encoded. -/
def ChangeWire : HistoryChange → Prop
  | .value found => Wire.Encodable found
  | .applicationError error => Wire.Encodable error.toJs
  | .checkpoint => True

/-- **What is known of the wire in every run.** -/
structure Wired (s : State) : Prop where
  call : ∀ call ∈ s.calls, call.authEpoch ≤ maxSafeInteger ∧ call.id ≤ maxProtocolId ∧
    ∀ cursor ∈ call.cursor, cursor.Valid
  outbox : OutboxWire s.outbox
  identified : ∀ l < s.outbox.listenerCount,
    1 ≤ (s.outbox.listeners l).id ∧ (s.outbox.listeners l).id ≤ maxProtocolId
  entry : ∀ e < s.entryCount, EntryWire (s.entries e)
  record : ∀ e, ∀ record ∈ s.history.streams e, ChangeWire record.change
  epoch : ∀ report ∈ s.reports, ∀ n, report.kind = .revocation (some n) ∨
    report.kind = .rotation n → n ≤ maxSafeInteger

theorem wired_initial (options : ReactiveOptions) : Wired (initial options) where
  call := by simp [initial]
  outbox := ⟨fun l => ⟨Nat.zero_le _, by simp [initial], by simp [initial]⟩, by simp [initial]⟩
  identified := by simp [initial]
  entry := by simp [initial]
  record := by simp [initial]
  epoch := by simp [initial]

variable {cursor : SubscriptionCursor} {source : Option SubscriptionCursor} {report : Report}

section Changes

variable {options : ReactiveOptions} {s : State}

/-- Replacing one entry by one that says the same. -/
theorem Wired.setEntry (h : Wired s) {e : Nat} (hentry : e < s.entryCount → EntryWire entry) :
    Wired (s.setEntry e entry) where
  __ := h
  entry := by
    intro other hother
    by_cases he : other = e
    · subst he
      simp only [State.setEntry, update_self]
      exact hentry hother
    · simp only [State.setEntry, update_of_ne he]
      exact h.entry other hother

/-- The fields the invariant reads. -/
theorem Wired.congr {t : State} (h : Wired s) (hcalls : t.calls = s.calls)
    (houtbox : t.outbox = s.outbox) (hcount : t.entryCount = s.entryCount)
    (hentries : t.entries = s.entries) (hreports : t.reports = s.reports)
    (hhistory : ∀ e, ∀ record ∈ t.history.streams e, record ∈ s.history.streams e) : Wired t where
  call := hcalls ▸ h.call
  outbox := houtbox ▸ h.outbox
  identified := houtbox ▸ h.identified
  entry := by
    rw [hcount, hentries]
    exact h.entry
  record := fun e record hmem => h.record e record (hhistory e record hmem)
  epoch := hreports ▸ h.epoch

/-- Sends leave the listeners who they are. -/
theorem Wired.setOutbox (h : Wired s) {outbox : Outbox} (hwire : OutboxWire outbox)
    (hsame : outbox.SameListeners s.outbox) : Wired { s with outbox } where
  __ := h
  outbox := hwire
  identified := by
    intro l hl
    rw [(hsame.listener l).id]
    exact h.identified l (hsame.count ▸ hl)

/-! ## Deliveries -/

theorem chainTransitions_target (hcursor : cursor.Valid) (chain : List HistoryRecord) :
    ∀ transition ∈ chainTransitions cursor chain, transition.target.Valid := by
  induction chain generalizing cursor with
  | nil => simp [chainTransitions]
  | cons record _ ih =>
    have htarget : { cursor with commitVersion := record.toVersion : SubscriptionCursor }.Valid :=
      { hcursor with }
    intro transition hmem
    rcases mem_cons.1 hmem with rfl | hmem
    · cases record.change <;> exact htarget
    · exact ih htarget transition hmem

theorem deliverQuery_target {history : TransitionHistory} {id : Nat}
    (positiveResume forceReset : Bool) (hentry : EntryWire entry)
    (hepoch : authEpoch ≤ maxSafeInteger) (hsource : ∀ cursor ∈ source, cursor.Valid) :
    ∀ transition ∈ deliverQuery history id entry authEpoch source positiveResume forceReset,
      transition.target.Valid := by
  have htarget := hentry.cursor_valid hepoch
  unfold deliverQuery
  dsimp only
  split
  · split
    · simpa [SubscriptionTransition.target] using htarget
    · simp
  split
  · rename_i cursor chain heq
    obtain ⟨hcursor, -⟩ := resumeChain_eq_some heq
    exact chainTransitions_target (hsource cursor hcursor) chain
  intro transition hmem
  rw [mem_singleton] at hmem
  subst hmem
  unfold QueryEntry.statement
  split <;> exact htarget

/-- What an evaluation says can be encoded. -/
theorem encodeExecution_encodable {result : Result} {readSet : List String} {commitVersion : Nat}
    {evaluation : QueryEvaluation}
    (h : encodeExecution result readSet commitVersion = .ok evaluation) :
    Wire.Encodable evaluation.value ∧
      ∀ error ∈ evaluation.applicationError, Wire.Encodable error.toJs := by
  rw [encodeExecution, Except.bind_eq_ok] at h
  obtain ⟨encoded, hencoded, h⟩ := h
  have hencodable := (Wire.encode_eq_ok_iff _).1 ⟨encoded, hencoded⟩
  cases result with
  | ok =>
    cases h
    exact ⟨hencodable, by simp⟩
  | err =>
    cases h
    refine ⟨trivial, ?_⟩
    intro found hfound
    cases hfound
    exact hencodable

theorem changeWire_historyChange {evaluated : QueryEvaluation}
    (hvalue : Wire.Encodable evaluated.value)
    (herror : ∀ error ∈ evaluated.applicationError, Wire.Encodable error.toJs) :
    ChangeWire (historyChange entry evaluated) := by
  unfold historyChange
  split
  · split
    · rename_i error hfound
      exact herror error hfound
    · exact hvalue
  · trivial

theorem Wired.install (h : Wired s) (hlinks : Links s) {e : Nat} {result : Result} {readSet : List String}
    {commitVersion : Nat} {evaluated : QueryEvaluation} (now : Int)
    (hlive : (s.entries e).removed = false)
    (hencoded : encodeExecution result readSet commitVersion = .ok evaluated) :
    Wired (s.install options e evaluated now) := by
  obtain ⟨hvalue, herror⟩ := encodeExecution_encodable hencoded
  have hbefore := h.entry e (hlinks.lt_of_live hlive)
  have hinstalled : EntryWire (installResult s.records e (s.entries e) s.history evaluated
      (options.byteLength evaluated.encoded) (s.fresh options) now).entry := by
    unfold installResult
    split
    · split
      · exact ⟨hbefore.generation, hbefore.identity, hvalue, herror⟩
      · exact ⟨options.fresh_bounded _, hbefore.identity, hvalue, herror⟩
    · exact ⟨hbefore.generation, hbefore.identity, hvalue, herror⟩
  have hset := h.setEntry (e := e) fun _ => hinstalled
  refine ⟨h.call, ⟨h.outbox.listener, h.outbox.rest⟩, h.identified, hset.entry, ?_,
    h.epoch⟩
  intro other record hmem
  rcases installResult_record hmem with hold | ⟨-, -, -, rfl⟩
  · exact h.record other record hold
  · exact changeWire_historyChange hvalue herror

theorem Wired.addEntry (h : Wired s) (key : QueryKey) : Wired (s.addEntry options key) where
  __ := h
  outbox := ⟨h.outbox.listener, h.outbox.rest⟩
  entry := by
    intro e he
    by_cases hnew : e = s.entryCount
    · subst hnew
      simp only [State.addEntry, update_self]
      exact ⟨options.fresh_bounded _, options.identity_bounded key, trivial, by simp⟩
    · simp only [State.addEntry, update_of_ne hnew]
      exact h.entry e (Nat.lt_of_le_of_ne (Nat.le_of_lt_succ he) hnew)

theorem Wired.detach (h : Wired s) (l : Nat) (now : Int) : Wired (s.detach l now) := by
  unfold State.detach
  dsimp only
  split
  · refine Wired.congr (h.setEntry (e := (s.outbox.listeners l).entry) fun he => ?_) rfl rfl rfl rfl
      rfl fun _ _ => id
    exact (h.entry _ he).congr rfl rfl rfl rfl
  · exact h

theorem Wired.detachEvent (h : Wired s) (m : Nat) : Wired (s.detachEvent m) := by
  unfold State.detachEvent
  dsimp only
  split
  · exact h.congr rfl rfl rfl rfl rfl fun _ _ => id
  · exact h

theorem Wired.attach (h : Wired s) {c : Nat} {call : SubscribeCall} (hcall : s.calls[c]? = some call)
    (hfree : s.identityFree call.subscriber call.id = true) : Wired (s.attach call.listener) := by
  obtain ⟨hepoch, hid, hcursor⟩ := h.call call (mem_of_getElem? hcall)
  simp only [State.identityFree, Bool.and_eq_true, decide_eq_true_eq] at hfree
  have hset : Wired (s.setEntry call.entry { s.entries call.entry with
      listeners := (s.entries call.entry).listeners ++ [s.outbox.listenerCount]
      dormantAtMs := none }) :=
    h.setEntry fun he => (h.entry _ he).congr rfl rfl rfl rfl
  have hlistener : ListenerWire call.listener := ⟨hepoch, hcursor, by simp [SubscribeCall.listener]⟩
  refine ⟨h.call, ⟨?_, h.outbox.rest⟩, ?_, hset.entry, h.record, h.epoch⟩
  · intro l
    exact (h.outbox.setListener hlistener s.outbox.generations).listener l
  intro l hl
  by_cases hnew : l = s.outbox.listenerCount
  · subst hnew
    simp only [State.attach, addListener, update_self]
    exact ⟨hfree.1.1, hid⟩
  · simp only [State.attach, addListener, update_of_ne hnew]
    exact h.identified l (Nat.lt_of_le_of_ne (Nat.le_of_lt_succ hl) hnew)

theorem Wired.setReport (h : Wired s) {r : Nat} (hreport : s.reports[r]? = some report)
    (left : List Binding) (waiting : Option ReportWait) :
    Wired { s with reports := s.reports.set r { report with left, waiting } } := by
  refine { h with epoch := ?_ }
  intro other hother
  rcases mem_or_eq_of_mem_set hother with hother | rfl
  · exact h.epoch other hother
  · exact h.epoch report (mem_of_getElem? hreport)

/-- The tables only know listeners that were attached. -/
theorem Links.attached (h : Links s) (hknows : s.Knows l) :
    l < s.outbox.listenerCount := by
  rcases hknows with ⟨e, hl⟩ | ⟨subscriber, id, hlookup⟩
  · exact (h.queries.listed e l hl).1
  · exact (h.queries.found (subscriber, id) l hlookup).1

theorem Wired.entryOf (h : Wired s) (hlinks : Links s) (hl : l < s.outbox.listenerCount) :
    EntryWire (s.entries (s.outbox.listeners l).entry) :=
  h.entry _ (hlinks.known l hl)

theorem Wired.deliverTo (h : Wired s) (hlinks : Links s) (hknows : s.Knows l)
    (positiveResume forceReset : Bool) :
    Wired (s.deliverTo options l positiveResume forceReset) := by
  have hlistener := h.outbox.listener l
  refine h.setOutbox (h.outbox.begin l ?_) (sameListeners_begin _ _ _)
  exact deliverQuery_target positiveResume forceReset (h.entryOf hlinks (hlinks.attached hknows))
    hlistener.authEpoch hlistener.cursor

theorem Wired.reset (h : Wired s) (hlinks : Links s) (subscriber id : Nat)
    (source : SubscriptionCursor) : Wired (s.reset options subscriber id source) := by
  unfold State.reset
  split
  · exact h
  · exact h
  rename_i l hlookup
  have hentry := h.entryOf hlinks (hlinks.attached (.inr ⟨subscriber, id, hlookup⟩))
  have htargets : ∀ transition ∈ [resetTransition (s.entries (s.outbox.listeners l).entry)
      (s.outbox.listeners l).authEpoch source], transition.target.Valid := by
    intro transition hmem
    rw [mem_singleton] at hmem
    rw [hmem]
    exact hentry.cursor_valid (h.outbox.listener l).authEpoch
  exact h.setOutbox (h.outbox.begin l htargets) (sameListeners_begin _ _ _)

/-- A report says at most what the listener's own epoch or its new one is. -/
theorem Wired.reportSend (h : Wired s) (hreport : report ∈ s.reports) (l : Nat) :
    (State.reportSend report.kind report.outcome (s.outbox.listeners l)).Wired := by
  have hepoch := h.epoch report hreport
  cases hkind : report.kind with
  | error => trivial
  | revocation nextAuthEpoch =>
    cases nextAuthEpoch with
    | none => exact (h.outbox.listener l).authEpoch
    | some n => exact hepoch n (.inl hkind)
  | rotation n => exact hepoch n (.inr hkind)

/-- **Every change keeps the invariant.** -/
theorem Wired.change {event : Event} {t : State} (hparsed : ∃ s, ClientParsed s event)
    (h : Wired s) (hlinks : Links s) (hchange : Change options event s t) : Wired t := by
  obtain ⟨_, hparsed⟩ := hparsed
  cases hchange with
  | publication | calls | offer | tellEvent | finishEvent | settleEvent =>
    exact h.congr rfl rfl rfl rfl rfl fun _ _ => id
  | subscribe call hevent hepoch =>
    obtain ⟨address, args, fingerprint, now, rfl⟩ := hevent
    refine { h with call := ?_ }
    exact forall_mem_append.2 ⟨h.call, forall_mem_singleton.2 ⟨hepoch, hparsed.1, hparsed.2⟩⟩
  | setCall c call before hbefore hsame =>
    refine { h with call := ?_ }
    intro other hother
    rcases mem_or_eq_of_mem_set hother with hother | rfl
    · exact h.call other hother
    · obtain ⟨-, hid, hepoch, hcursor⟩ := hsame
      rw [hid, hepoch, hcursor]
      exact h.call before (mem_of_getElem? hbefore)
  | mark e => exact h.setEntry fun he => (h.entry e he).congr rfl rfl rfl rfl
  | start task | releaseEntry task =>
    refine Wired.congr (h.setEntry (e := (s.evaluations task).entry) fun he => ?_)
      rfl rfl rfl rfl rfl fun _ _ => id
    exact (h.entry _ he).congr rfl rfl rfl rfl
  | submit e =>
    refine Wired.congr (h.setEntry (e := e) fun he => ?_) rfl rfl rfl rfl rfl fun _ _ => id
    exact (h.entry e he).congr rfl rfl rfl rfl
  | addEntry key => exact h.addEntry key
  | unlink e =>
    refine Wired.congr (h.setEntry (e := e) fun he => ?_) rfl rfl rfl rfl rfl fun _ _ hmem =>
      mem_clear hmem
    exact (h.entry e he).congr rfl rfl rfl rfl
  | install _ _ _ _ _ _ now _ _ hlive hencoded =>
    exact (h.install hlinks now hlive hencoded).congr rfl rfl rfl rfl rfl fun _ _ => id
  | pruneHistory =>
    exact h.congr rfl rfl rfl rfl rfl fun _ _ hmem => mem_prune hmem
  | detach l now => exact h.detach l now
  | attach _ _ _ hcall hfree => exact h.attach hcall hfree
  | deliver _ positiveResume forceReset _ hknows =>
    exact h.deliverTo hlinks hknows positiveResume forceReset
  | reset subscriber id source => exact h.reset hlinks subscriber id source
  | report _ hkind =>
    refine { h with epoch := ?_ }
    exact forall_mem_append.2 ⟨h.epoch, forall_mem_singleton.2 hkind⟩
  | tell _ l _ left waiting _ hreport =>
    have hsend := h.reportSend (mem_of_getElem? hreport) l
    exact (h.setOutbox (h.outbox.beginSend l hsend)
      (sameListeners_beginSend s.outbox l _)).setReport hreport left waiting
  | setReport _ _ left waiting hreport => exact h.setReport hreport left waiting
  | sent _ outbox _ hsent => exact h.setOutbox (h.outbox.sent hsent) (sameListeners_sent hsent)
  | sendFailed _ outbox _ hfailed =>
    exact h.setOutbox (h.outbox.sendFailed hfailed) (sameListeners_sendFailed hfailed)
  | resumeDelivery _ outbox _ hresume =>
    exact h.setOutbox (h.outbox.resume hresume) (sameListeners_resume hresume)
  | detachEvent m => exact h.detachEvent m
  | attachEvent =>
    exact { h with outbox := ⟨h.outbox.listener, h.outbox.rest⟩ }

end Changes

theorem wired_of_reachable {options : ReactiveOptions} {s : State}
    (hreach : Run.Reachable (step options) ClientParsed (initial options) s) : Links s ∧ Wired s :=
  @invariant_of_changes options ClientParsed (fun s => Links s ∧ Wired s) s hreach
    ⟨links_initial options, wired_initial options⟩
    fun _ hparsed _ _ h hchange => ⟨h.1.change hchange, h.2.change hparsed h.1 hchange⟩

/-! ## What is emitted -/

/-- A call that makes transitions for a listener: `deliverQuery`, `reset` or `sendRevocation`. -/
inductive Emission where
  | deliver (positiveResume forceReset : Bool)
  | reset (source : SubscriptionCursor)
  | revoke (nextAuthEpoch : Nat) (outcome : Outcome)

/-- The cursor of a reset request comes out of the parser, and epochs are safe integers. -/
def Emission.Parsed : Emission → Prop
  | deliver _ _ => True
  | reset source => source.Valid
  | revoke nextAuthEpoch _ => nextAuthEpoch ≤ maxSafeInteger

/-- The transitions a call makes for a listener. -/
def emitted (options : ReactiveOptions) (s : State) (l : Nat) :
    Emission → List SubscriptionTransition
  | .deliver positiveResume forceReset =>
    deliverQuery s.history (s.outbox.listeners l).entry (s.entries (s.outbox.listeners l).entry)
      (s.outbox.listeners l).authEpoch (s.outbox.listeners l).cursor positiveResume forceReset
  | .reset source =>
    [resetTransition (s.entries (s.outbox.listeners l).entry) (s.outbox.listeners l).authEpoch
      source]
  | .revoke nextAuthEpoch outcome =>
    ((s.outbox.listeners l).cursor.map fun source =>
      QueryListener.revoke source (s.fresh options) nextAuthEpoch outcome).toList

/-- A retained transition that can be told. -/
def ChangeStated : HistoryChange → Prop
  | .value found => found ≠ .undefined
  | .applicationError error => LegalError error
  | .checkpoint => True

/-- The outcome of the entry can be told to a listener at `source`: a value has to be defined, and
an application error needs a predecessor in the same stream or none. -/
def EntryStated (entry : QueryEntry) (authEpoch : Nat) (source : Option SubscriptionCursor) : Prop :=
  match entry.applicationError with
  | none => entry.value ≠ .undefined
  | some error => (∀ cursor ∈ source, SameStream cursor (entry.cursor authEpoch)) ∧ LegalError error

/-- What a call has to tell can be told. -/
def Stateable (s : State) (l : Nat) : Emission → Prop
  | .deliver _ forceReset =>
    let listener := s.outbox.listeners l
    let entry := s.entries listener.entry
    listener.cursor ≠ some (entry.cursor listener.authEpoch) →
      match resumeChain s.history listener.entry entry listener.authEpoch listener.cursor
          forceReset with
      | some (_, chain) => ∀ record ∈ chain, ChangeStated record.change
      | none => EntryStated entry listener.authEpoch listener.cursor
  | .reset _ => (s.entries (s.outbox.listeners l).entry).value ≠ .undefined
  | .revoke _ outcome =>
    (s.outbox.listeners l).cursor ≠ none →
      outcome.Valid ∧ outcome.code.text ∈ revocationCodes

section Emitted

@[simp] theorem encodable_cursor (cursor : SubscriptionCursor) : Wire.Encodable cursor.toJs := by
  simp [SubscriptionCursor.toJs, Wire.Encodable, Wire.EncodableFields, JsValue.ofNat,
    JsNumber.isFinite]

@[simp] theorem encodable_cursorOrNull (cursor : Option SubscriptionCursor) :
    Wire.Encodable (cursorOrNull cursor) := by
  cases cursor with
  | none => trivial
  | some cursor => exact encodable_cursor cursor

@[simp] theorem encodable_outcome (outcome : Outcome) : Wire.Encodable outcome.toJs := by
  cases hretry : outcome.retryAfterMs <;> cases hresource : outcome.resource <;>
    cases hcommitted : outcome.committed <;>
    simp [Outcome.toJs, hretry, hresource, hcommitted, Wire.Encodable, Wire.EncodableFields,
      JsValue.ofNat, JsNumber.isFinite]

/-- What a transition carries besides its cursors. -/
def Carried : SubscriptionTransition → Prop
  | .reset _ _ value => Wire.Encodable value
  | .update _ _ value => Wire.Encodable value
  | .applicationError _ _ error => Wire.Encodable error.toJs
  | _ => True

theorem encodable_transition (transition : SubscriptionTransition) :
    Wire.Encodable transition.toJs ↔ Carried transition := by
  cases transition <;>
    simp [SubscriptionTransition.toJs, Wire.Encodable, Wire.EncodableFields, Carried]

/-- The transition of one record. -/
theorem legal_record (hcursor : cursor.Valid) {record : HistoryRecord}
    (hchange : ChangeWire record.change) (hadvances : record.fromVersion < record.toVersion)
    (hversion : cursor.commitVersion = record.fromVersion) :
    (∀ transition ∈ chainTransitions cursor [record], Carried transition ∧ Legal transition) ↔
      ChangeStated record.change := by
  have htarget : { cursor with commitVersion := record.toVersion : SubscriptionCursor }.Valid :=
    { hcursor with }
  have hsame : SameStream cursor { cursor with commitVersion := record.toVersion } :=
    ⟨rfl, rfl, rfl, hversion ▸ hadvances⟩
  simp only [chainTransitions, mem_singleton, forall_eq]
  cases hkind : record.change with
  | value found =>
    rw [hkind] at hchange
    have hfound : Wire.Encodable found := hchange
    simp [Carried, Legal, ChangeStated, hfound, hcursor, htarget, hsame]
  | applicationError error =>
    rw [hkind] at hchange
    have herror : Wire.Encodable error.toJs := hchange
    simp [Carried, Legal, ChangeStated, herror, hcursor, htarget, hsame]
  | checkpoint => simp [Carried, Legal, ChangeStated, hcursor, htarget, hsame]

theorem legal_chain (hcursor : cursor.Valid) {chain : List HistoryRecord} {last : Nat}
    (hchain : Contiguous cursor.commitVersion chain last)
    (hrecords : ∀ record ∈ chain, ChangeWire record.change ∧ record.fromVersion < record.toVersion) :
    (∀ transition ∈ chainTransitions cursor chain, Carried transition ∧ Legal transition) ↔
      ∀ record ∈ chain, ChangeStated record.change := by
  induction chain generalizing cursor with
  | nil => simp [chainTransitions]
  | cons record rest ih =>
    obtain ⟨hwire, hadvances⟩ := hrecords record mem_cons_self
    have htarget : { cursor with commitVersion := record.toVersion : SubscriptionCursor }.Valid :=
      { hcursor with }
    generalize hversion : cursor.commitVersion = version at hchain
    have hhead := fun h => legal_record hcursor hwire hadvances (hversion.trans h)
    have hsplit : chainTransitions cursor (record :: rest) = chainTransitions cursor [record] ++
        chainTransitions { cursor with commitVersion := record.toVersion } rest := rfl
    rw [hsplit, forall_mem_append, forall_mem_cons]
    cases hchain with
    | single => simpa [chainTransitions] using hhead rfl
    | cons _ hrest =>
      refine and_congr (hhead rfl) (ih htarget hrest ?_)
      exact fun other hother => hrecords other (mem_cons_of_mem _ hother)

theorem legal_statement (hentry : EntryWire entry) (hepoch : authEpoch ≤ maxSafeInteger)
    (hsource : ∀ cursor ∈ source, cursor.Valid) :
    Carried (entry.statement authEpoch source) ∧ Legal (entry.statement authEpoch source) ↔
      EntryStated entry authEpoch source := by
  have htarget := hentry.cursor_valid hepoch
  unfold QueryEntry.statement EntryStated
  cases herror : entry.applicationError with
  | none =>
    have hsourced := iff_true_intro hsource
    simp only [Carried, Legal, hentry.value, hsourced, htarget, true_and]
  | some error =>
    have hsplit : (∀ cursor ∈ source, cursor.Valid ∧ SameStream cursor (entry.cursor authEpoch)) ↔
        ∀ cursor ∈ source, SameStream cursor (entry.cursor authEpoch) :=
      ⟨fun h cursor hcursor => (h cursor hcursor).2,
        fun h cursor hcursor => ⟨hsource cursor hcursor, h cursor hcursor⟩⟩
    simp only [Carried, Legal, hentry.error error herror, htarget, hsplit, true_and]

/-- **The transitions that are legal frames.**  In every state that a run reaches whose requests
come out of the parser, what a call makes for a listener is accepted by the client's parser exactly
when what it has to tell can be told. -/
theorem emitted_accepted_iff (options : ReactiveOptions) {s : State}
    (hreach : Run.Reachable (step options) ClientParsed (initial options) s) {l : Nat}
    (hl : l < s.outbox.listenerCount) {emission : Emission} (hparsed : emission.Parsed) :
    (∀ transition ∈ emitted options s l emission,
      Accepted (transitionMessage (s.outbox.listeners l).id transition)) ↔
      Stateable s l emission := by
  obtain ⟨hlinks, hwired⟩ := wired_of_reachable hreach
  have hdated := dated_of_reachable hreach
  have hentry := hwired.entryOf hlinks hl
  have hlistener := hwired.outbox.listener l
  have haccepted : (∀ transition ∈ emitted options s l emission,
      Accepted (transitionMessage (s.outbox.listeners l).id transition)) ↔
      ∀ transition ∈ emitted options s l emission, Carried transition ∧ Legal transition := by
    refine forall₂_congr fun transition _ => ?_
    rw [accepted_transitionMessage_iff, encodable_transition]
    simp only [hwired.identified l hl, and_self, true_and]
  rw [haccepted]
  cases emission with
  | deliver _ forceReset =>
    simp only [emitted, deliverQuery, Stateable]
    split
    · rename_i hsame
      have hvalid := hlistener.cursor _ hsame
      simp only [hsame, ne_eq, not_true_eq_false, false_implies, iff_true]
      split <;> simp [Carried, Legal, hvalid]
    rename_i hsame
    simp only [ne_eq, hsame, not_false_eq_true, true_implies]
    cases hchain : resumeChain s.history (s.outbox.listeners l).entry
        (s.entries (s.outbox.listeners l).entry) (s.outbox.listeners l).authEpoch
        (s.outbox.listeners l).cursor forceReset with
    | some found =>
      obtain ⟨hsource, -, -, hfound⟩ := resumeChain_eq_some hchain
      obtain ⟨-, hcontiguous, hmem⟩ := chain_spec hfound
      refine legal_chain (hlistener.cursor found.1 hsource) hcontiguous fun record hrecord => ?_
      have hretained := hmem record hrecord
      exact ⟨hwired.record _ record hretained, hdated.record _ record hretained⟩
    | none =>
      simp only [forall_mem_singleton]
      exact legal_statement hentry hlistener.authEpoch hlistener.cursor
  | reset source =>
    have hsource : source.Valid := hparsed
    simp [emitted, resetTransition, Carried, Legal, Stateable, hentry.value, hsource,
      hentry.cursor_valid hlistener.authEpoch]
  | revoke nextAuthEpoch =>
    have hepoch : nextAuthEpoch ≤ maxSafeInteger := hparsed
    cases hcursor : (s.outbox.listeners l).cursor with
    | none => simp [emitted, Stateable, hcursor]
    | some source =>
      have hsource := hlistener.cursor source hcursor
      have htarget : { source with
          generation := s.fresh options, authEpoch := nextAuthEpoch : SubscriptionCursor }.Valid :=
        ⟨options.fresh_bounded _, hepoch, hsource.identity⟩
      simp [emitted, Stateable, hcursor, QueryListener.revoke, Carried, Legal, hsource, htarget]

end Emitted

/-- An application error. -/
def deniedError : ApplicationError := ⟨"denied", .null, ⟨403, by decide⟩⟩

/-- A subscription whose first outcome is an application error. -/
def deniedRun : List Event :=
  [.subscribeQuery 1 1 "notes.list" .null "" 0 none 0, .startEvaluation 0,
    .evaluated 0 (.err deniedError) ["notes"] 0 0, .finishEvaluation 0, .release 0 0,
    .resumeSubscribe 0 0]

theorem deniedRun_parsed : Run.Guarded (step sampleOptions) ClientParsed (initial sampleOptions)
    deniedRun := by
  refine Run.guarded_of_forall ?_ _
  intro event hevent s
  simp only [deniedRun, mem_cons, not_mem_nil, or_false] at hevent
  rcases hevent with rfl | rfl | rfl | rfl | rfl | rfl
  case inl => exact ⟨by decide, by simp⟩
  all_goals trivial

/-- What the run leaves behind. -/
theorem deniedRun_state :
    ∃ s, Run.Reachable (step sampleOptions) ClientParsed (initial sampleOptions) s ∧
      s.outbox.listenerCount = 1 ∧ (s.outbox.listeners 0).entry = 0 ∧
      (s.outbox.listeners 0).cursor = none ∧ (s.entries 0).value = .undefined ∧
      (s.entries 0).applicationError = some deniedError := by
  have hcomputed : (Run.run (step sampleOptions) (initial sampleOptions) deniedRun).map (fun s =>
      (s.outbox.listenerCount, (s.outbox.listeners 0).entry, (s.outbox.listeners 0).cursor,
        (s.entries 0).value, (s.entries 0).applicationError)) =
      some (1, 0, none, .undefined, some deniedError) := by
    decide +kernel
  obtain ⟨s, hrun, hfields⟩ := Option.map_eq_some_iff.1 hcomputed
  simp only [Prod.mk.injEq] at hfields
  exact ⟨s, Run.Reachable.refl.run deniedRun_parsed hrun, hfields⟩

theorem emitted_accepted_denied :
    ∃ s, (s.outbox.listeners 0).cursor = none ∧
      ((∀ transition ∈ emitted sampleOptions s 0 (.deliver true false),
        Accepted (transitionMessage (s.outbox.listeners 0).id transition)) ↔
        Stateable s 0 (.deliver true false)) ∧ Stateable s 0 (.deliver true false) := by
  obtain ⟨s, hreach, hcount, hentry, hcursor, -, herror⟩ := deniedRun_state
  refine ⟨s, hcursor, emitted_accepted_iff sampleOptions hreach (by omega) trivial, ?_⟩
  have hlegal : LegalError deniedError := by
    refine ⟨?_, by simp [deniedError]⟩
    unfold Bounded
    decide
  simp [Stateable, resumeChain, EntryStated, hentry, hcursor, herror, hlegal]

/-- The answer to a reset request states a value that the entry does not have. -/
theorem reset_of_error_rejected :
    ∃ s, Run.Reachable (step sampleOptions) ClientParsed (initial sampleOptions) s ∧
      0 < s.outbox.listenerCount ∧ ∀ source : SubscriptionCursor,
        ∃ transition ∈ emitted sampleOptions s 0 (.reset source),
          ¬ Accepted (transitionMessage (s.outbox.listeners 0).id transition) := by
  obtain ⟨s, hreach, hcount, hentry, -, hvalue, -⟩ := deniedRun_state
  refine ⟨s, hreach, by omega, fun source => ⟨_, mem_singleton_self _, ?_⟩⟩
  rw [accepted_transitionMessage_iff, hentry]
  rintro ⟨-, -, hlegal⟩
  exact hlegal.2.2 hvalue

end Reactive

end AckerDB
