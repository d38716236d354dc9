import AckerDB.Subscriptions.Reactive.Events

/-!
# What a listener is told of the rows it meets

Every row a listener meets is missed, delivered, lost with a failed send, or met by a
`matches` that throws.  A loss leaves the mark, and what is delivered next under the
mark is a gap.  So two delivered rows with only rows between them enclose no loss.

* `Told` — how the rows that were dealt with account for the delivered events;
* `Told.between` — what two delivered rows enclose;
* `Relays` — the invariant of a listener, kept by every operation.
-/

namespace AckerDB.Reactive

open List

variable {offers : List Offer} {events : List LiveEvent} {gapped : Bool} {listener : EventListener}
  {work : EventWork} {rest : List EventWork}

/-- The version and the row of an offer. -/
def Offer.content (offer : Offer) : Nat × JsValue := (offer.commitVersion, offer.row)

/-- Whether the row matched. -/
def Offer.matched (offer : Offer) : Bool :=
  match offer.verdict with
  | .ok matched => matched
  | .error _ => false

/-- The version and the row of a row event. -/
def LiveEvent.content? : LiveEvent → Option (Nat × JsValue)
  | .row cursor value => some (cursor.commitVersion, value)
  | .gap _ => none
  | .reset _ => none

/-- The events are rows. -/
def Rows (events : List LiveEvent) : Prop := ∀ event ∈ events, event.content?.isSome = true

/-- **How offers account for events**: the offers that were dealt with, the events delivered
for them, and the mark they leave. -/
inductive Told : List Offer → List LiveEvent → Bool → Prop
  | nothing : Told [] [] false
  | reset {offers : List Offer} {gapped : Bool} (cursor : LiveEventCursor) :
      Told offers [] gapped → Told offers [.reset cursor] gapped
  | missed {offers : List Offer} {events : List LiveEvent} {gapped : Bool} {offer : Offer} :
      offer.verdict = .ok false → Told offers events gapped →
      Told (offers ++ [offer]) events gapped
  | row {offers : List Offer} {events : List LiveEvent} {offer : Offer} (cursor : LiveEventCursor) :
      offer.verdict = .ok true → cursor.commitVersion = offer.commitVersion →
      Told offers events false → Told (offers ++ [offer]) (events ++ [.row cursor offer.row]) false
  | gap {offers : List Offer} {events : List LiveEvent} {offer : Offer} (cursor : LiveEventCursor) :
      offer.verdict = .ok true → Told offers events true →
      Told (offers ++ [offer]) (events ++ [.gap cursor]) false
  | lost {offers : List Offer} {events : List LiveEvent} {gapped : Bool} {offer : Offer} :
      offer.verdict = .ok true → Told offers events gapped → Told (offers ++ [offer]) events true
  | threw {offers : List Offer} {events : List LiveEvent} {gapped : Bool} {offer : Offer}
      {error : Thrown} : offer.verdict = .error error → Told offers events gapped →
      Told (offers ++ [offer]) events true

/-! ## What delivered rows enclose -/

/-- None of the offers is lost: those that match are the rows, in order. -/
structure Complete (offers : List Offer) (events : List LiveEvent) : Prop where
  verdicts : ∀ offer ∈ offers, ∃ matched, offer.verdict = .ok matched
  delivered : events.filterMap LiveEvent.content? = (offers.filter Offer.matched).map Offer.content

theorem complete_nil : Complete [] [] := ⟨nofun, rfl⟩

theorem Complete.missed {offers : List Offer} {events : List LiveEvent} {offer : Offer}
    (h : Complete offers events) (hverdict : offer.verdict = .ok false) :
    Complete (offers ++ [offer]) events where
  verdicts := by
    exact forall_mem_append.2 ⟨h.verdicts, forall_mem_singleton.2 ⟨false, hverdict⟩⟩
  delivered := by
    have hmatched : offer.matched = false := by rw [Offer.matched, hverdict]
    rw [filter_append, filter_singleton, hmatched, h.delivered]
    simp

theorem Complete.row {offers : List Offer} {events : List LiveEvent} {offer : Offer}
    {cursor : LiveEventCursor} (h : Complete offers events) (hverdict : offer.verdict = .ok true)
    (hversion : cursor.commitVersion = offer.commitVersion) :
    Complete (offers ++ [offer]) (events ++ [.row cursor offer.row]) where
  verdicts := by
    exact forall_mem_append.2 ⟨h.verdicts, forall_mem_singleton.2 ⟨true, hverdict⟩⟩
  delivered := by
    have hmatched : offer.matched = true := by rw [Offer.matched, hverdict]
    rw [filter_append, filter_singleton, hmatched, filterMap_append, h.delivered]
    simp [LiveEvent.content?, Offer.content, hversion]

/-- Without the mark, nothing was lost since the last row. -/
theorem Told.since (h : Told offers events gapped) (hmark : gapped = false)
    {before middle : List LiveEvent} {cursor : LiveEventCursor} {row : JsValue}
    (hsplit : events = before ++ .row cursor row :: middle) (hrows : Rows middle) :
    ∃ earlier first enclosed, offers = earlier ++ first :: enclosed ∧
      first.content = (cursor.commitVersion, row) ∧ Complete enclosed middle := by
  induction h generalizing middle with
  | nothing => simp at hsplit
  | reset => simp [cons_eq_append_iff] at hsplit
  | @missed _ _ _ offer hverdict _ ih =>
    obtain ⟨earlier, first, enclosed, rfl, hfirst, hcomplete⟩ := ih hmark hsplit hrows
    exact ⟨earlier, first, enclosed ++ [offer], by simp, hfirst, hcomplete.missed hverdict⟩
  | @row offers _ offer _ hverdict hversion _ ih =>
    rcases eq_nil_or_concat middle with rfl | ⟨middle', final, rfl⟩
    · -- the row is the one just delivered
      obtain ⟨-, hlast⟩ := append_inj' hsplit rfl
      simp only [cons.injEq, LiveEvent.row.injEq, and_true] at hlast
      refine ⟨offers, offer, [], rfl, ?_, complete_nil⟩
      rw [Offer.content, ← hversion, hlast.1, hlast.2]
    rw [concat_eq_append, ← cons_append, ← append_assoc] at hsplit
    obtain ⟨hevents, hlast⟩ := append_inj' hsplit rfl
    obtain rfl := (cons.inj hlast).1
    have hmiddle : Rows middle' := fun event hevent => hrows event (by simp [hevent])
    obtain ⟨earlier, first, enclosed, rfl, hfirst, hcomplete⟩ := ih rfl hevents hmiddle
    refine ⟨earlier, first, enclosed ++ [offer], by simp, hfirst, ?_⟩
    rw [concat_eq_append]
    exact hcomplete.row hverdict hversion
  | @gap _ _ _ last =>
    exfalso
    rcases eq_nil_or_concat middle with rfl | ⟨middle', final, rfl⟩
    · obtain ⟨-, hlast⟩ := append_inj' hsplit rfl
      simp at hlast
    rw [concat_eq_append, ← cons_append, ← append_assoc] at hsplit
    obtain ⟨-, hlast⟩ := append_inj' hsplit rfl
    obtain rfl := (cons.inj hlast).1
    have hfinal := hrows (.gap last) (by simp)
    simp [LiveEvent.content?] at hfinal
  | lost | threw => cases hmark

/-- **Two delivered rows with only rows between them enclose no loss.** -/
theorem Told.between (h : Told offers events gapped) {before middle after : List LiveEvent}
    {cursor cursor' : LiveEventCursor} {row row' : JsValue}
    (hsplit : events = before ++ .row cursor row :: middle ++ .row cursor' row' :: after)
    (hrows : Rows middle) :
    ∃ earlier first enclosed last later,
      offers = earlier ++ first :: enclosed ++ last :: later ∧
      first.content = (cursor.commitVersion, row) ∧
      last.content = (cursor'.commitVersion, row') ∧ Complete enclosed middle := by
  induction h generalizing after with
  | nothing => simp at hsplit
  | reset => simp [cons_eq_append_iff] at hsplit
  | @missed _ _ _ offer _ _ ih | @lost _ _ _ offer _ _ ih | @threw _ _ _ offer _ _ _ ih =>
    obtain ⟨earlier, first, enclosed, last, later, rfl, hrest⟩ := ih hsplit
    exact ⟨earlier, first, enclosed, last, later ++ [offer], by simp, hrest⟩
  | @row _ _ offer _ _ hversion htold ih =>
    rcases eq_nil_or_concat after with rfl | ⟨after', other, rfl⟩
    · -- the second row is the one just delivered, and the mark was clear before it
      obtain ⟨hevents, hlast⟩ := append_inj' hsplit rfl
      simp only [cons.injEq, LiveEvent.row.injEq, and_true] at hlast
      obtain ⟨earlier, first, enclosed, rfl, hfirst, hcomplete⟩ := htold.since rfl hevents hrows
      refine ⟨earlier, first, enclosed, offer, [], by simp, hfirst, ?_, hcomplete⟩
      rw [Offer.content, ← hversion, hlast.1, hlast.2]
    rw [concat_eq_append, ← cons_append, ← append_assoc] at hsplit
    obtain ⟨hevents, -⟩ := append_inj' hsplit rfl
    obtain ⟨earlier, first, enclosed, last, later, rfl, hrest⟩ := ih hevents
    exact ⟨earlier, first, enclosed, last, later ++ [offer], by simp, hrest⟩
  | @gap _ _ offer _ _ _ ih =>
    rcases eq_nil_or_concat after with rfl | ⟨after', other, rfl⟩
    · obtain ⟨-, hlast⟩ := append_inj' hsplit rfl
      simp at hlast
    rw [concat_eq_append, ← cons_append, ← append_assoc] at hsplit
    obtain ⟨hevents, -⟩ := append_inj' hsplit rfl
    obtain ⟨earlier, first, enclosed, last, later, rfl, hrest⟩ := ih hevents
    exact ⟨earlier, first, enclosed, last, later ++ [offer], by simp, hrest⟩

/-! ## The queue of a listener -/

/-- The work an offer asks for. -/
def Offer.work? (offer : Offer) : Option EventWork :=
  match offer.verdict with
  | .ok true => some (.publish offer.commitVersion offer.row)
  | .ok false => none
  | .error _ => some .mark

/-- Whether the work was asked for by an offer. -/
def EventWork.offered : EventWork → Bool
  | .reset => false
  | .publish _ _ => true
  | .mark => true
  | .error _ => false

/-- The cursors of delivered events follow each other. -/
def Numbered (events : List LiveEvent) : Prop :=
  events.IsChain fun a b => b.cursor.sequence = a.cursor.sequence + 1

/-- What a listener keeps, while the works given have yet to be dealt with. -/
structure Keeping (works : List EventWork) (listener : EventListener) : Prop where
  /-- The verdicts are those of `matches`. -/
  verdicts : ∀ k offer, listener.offered[k]? = some offer →
    offer.verdict = listener.matches_ k offer.row
  told : ∃ dealt left, listener.offered = dealt ++ left ∧
    Told dealt listener.delivered listener.gapped ∧
    works.filter EventWork.offered = left.filterMap Offer.work?
  /-- The opening event goes first. -/
  opening : .reset ∉ listener.queue.tail
  numbered : Numbered listener.delivered
  latest : ∀ event ∈ listener.delivered.getLast?, event.cursor = listener.cursor

/-- The works that have yet to be dealt with: a mark is made when its work starts. -/
def EventListener.pending (listener : EventListener) : List EventWork :=
  match listener.queue with
  | .mark :: rest => rest
  | queue => queue

/-- What the first work of the queue sends. -/
def EventListener.starts (listener : EventListener) : Option LiveEvent :=
  match listener.queue with
  | .reset :: _ => some (.reset listener.cursor)
  | .publish commitVersion row :: _ => some (listener.published commitVersion row)
  | _ => none

/-- **The invariant of a listener.** -/
structure Relays (listener : EventListener) : Prop where
  keeping : Keeping listener.pending listener
  sending : listener.sending = listener.starts
  fresh : listener.queue.head? = some .reset → listener.delivered = []

theorem told_missed {missed : List Offer} (h : Told offers events gapped)
    (hmissed : ∀ offer ∈ missed, offer.work? = none) :
    Told (offers ++ missed) events gapped := by
  induction missed using reverseRecOn with
  | nil => simpa using h
  | append_singleton missed last ih =>
    have hlast := hmissed last (by simp)
    rw [← append_assoc]
    refine .missed ?_ (ih fun offer hoffer => hmissed offer (by simp [hoffer]))
    unfold Offer.work? at hlast
    split at hlast <;> simp_all

theorem work?_eq_publish {offer : Offer} {commitVersion : Nat} {row : JsValue}
    (h : offer.work? = some (.publish commitVersion row)) :
    offer.verdict = .ok true ∧ offer.commitVersion = commitVersion ∧ offer.row = row := by
  unfold Offer.work? at h
  split at h
  · rename_i hverdict
    simp only [Option.some.injEq, EventWork.publish.injEq] at h
    exact ⟨hverdict, h⟩
  · cases h
  · cases h

theorem work?_eq_mark {offer : Offer} (h : offer.work? = some .mark) :
    ∃ error, offer.verdict = .error error := by
  unfold Offer.work? at h
  split at h
  · cases h
  · cases h
  · exact ⟨_, by assumption⟩

/-- The offer of the first work, after offers that were missed. -/
theorem Keeping.first (h : Keeping (work :: rest) listener) (hwork : work.offered = true) :
    ∃ dealt offer left, listener.offered = dealt ++ offer :: left ∧
      Told dealt listener.delivered listener.gapped ∧ offer.work? = some work ∧
      rest.filter EventWork.offered = left.filterMap Offer.work? := by
  obtain ⟨dealt, left, hoffered, htold, hworks⟩ := h.told
  rw [filter_cons_of_pos hwork] at hworks
  obtain ⟨missed, offer, left', hleft, hmissed, hoffer, hrest⟩ :=
    filterMap_eq_cons_iff.1 hworks.symm
  refine ⟨dealt ++ missed, offer, left', by simp [hoffered, hleft], told_missed htold hmissed,
    hoffer, hrest.symm⟩

/-- A work that no offer asked for does not count. -/
theorem Keeping.drop (h : Keeping (work :: rest) listener) (hwork : work.offered = false) :
    Keeping rest listener := by
  obtain ⟨dealt, left, hoffered, htold, hworks⟩ := h.told
  rw [filter_cons_of_neg (by simp [hwork])] at hworks
  exact { h with told := ⟨dealt, left, hoffered, htold, hworks⟩ }

/-- The first work starts. -/
theorem Keeping.start (h : Keeping listener.queue listener)
    (hfresh : listener.queue.head? = some .reset → listener.delivered = []) :
    Relays listener.start := by
  unfold EventListener.start
  split
  · rename_i hqueue
    refine ⟨?_, by simp [EventListener.starts, hqueue], hfresh⟩
    have hpending : EventListener.pending { listener with sending := none } = listener.queue := by
      simp [EventListener.pending, hqueue]
    rw [hpending]
    exact { h with }
  · rename_i hqueue
    refine ⟨?_, by simp [EventListener.starts, hqueue], hfresh⟩
    have hpending : EventListener.pending
        { listener with sending := some (.reset listener.cursor) } = listener.queue := by
      simp [EventListener.pending, hqueue]
    rw [hpending]
    exact { h with }
  · rename_i commitVersion row _ hqueue
    refine ⟨?_, by simp [EventListener.starts, hqueue, EventListener.published], hfresh⟩
    have hpending : EventListener.pending
        { listener with sending := some (listener.published commitVersion row) } =
          listener.queue := by
      simp [EventListener.pending, hqueue]
    rw [hpending]
    exact { h with }
  · rename_i rest hqueue
    rw [hqueue] at h
    -- the mark is made now, for the offer that asked for it
    obtain ⟨dealt, offer, left, hoffered, htold, hoffer, hrest⟩ := h.first rfl
    obtain ⟨error, hverdict⟩ := work?_eq_mark hoffer
    refine ⟨?_, by simp [EventListener.starts, hqueue], hfresh⟩
    have hpending : EventListener.pending { listener with sending := none, gapped := true } =
        rest := by
      simp [EventListener.pending, hqueue]
    rw [hpending]
    exact { h with
      told := ⟨dealt ++ [offer], left, by simp [hoffered], .threw hverdict htold, hrest⟩ }
  · rename_i hqueue
    refine ⟨?_, by simp [EventListener.starts, hqueue], hfresh⟩
    have hpending : EventListener.pending { listener with sending := none } = listener.queue := by
      simp [EventListener.pending, hqueue]
    rw [hpending]
    exact { h with }

/-- The next work starts, once the first one is dealt with. -/
theorem Keeping.next (h : Keeping rest listener) (hqueue : listener.queue = work :: rest) :
    Relays (listener.next rest) := by
  have hopening := h.opening
  rw [hqueue, tail_cons] at hopening
  apply Keeping.start
  · exact { h with opening := fun hmem => hopening (mem_of_mem_tail hmem) }
  · intro hhead
    exact absurd (mem_of_head? hhead) hopening

/-! ## Every operation keeps the invariant -/

/-- What is delivered is numbered after the last delivered event. -/
theorem Keeping.deliver {works : List EventWork} {event : LiveEvent} (h : Keeping works listener)
    (hsequence : event.cursor.sequence = listener.cursor.sequence + 1) :
    Numbered (listener.delivered ++ [event]) := by
  refine IsChain.append h.numbered (isChain_singleton _) ?_
  intro last hlast next hnext
  obtain rfl : event = next := by simpa using hnext
  rw [h.latest last hlast, hsequence]

section

variable (h : Relays listener)
include h

/-- **A send succeeds.** -/
theorem Relays.sent {after : EventListener} (hsent : listener.sent = some after) :
    Relays after := by
  have hkeeping := h.keeping
  have hsending := h.sending
  unfold EventListener.sent at hsent
  split at hsent
  · rename_i rest event hqueue hevent
    cases hsent
    simp only [EventListener.pending, hqueue] at hkeeping
    simp only [EventListener.starts, hqueue, hevent, Option.some.injEq] at hsending
    subst hsending
    have hempty := h.fresh (by simp [hqueue])
    obtain ⟨dealt, left, hoffered, htold, hworks⟩ := (hkeeping.drop rfl).told
    rw [hempty] at htold
    refine Keeping.next ?_ hqueue
    refine { hkeeping with told := ?_, numbered := ?_, latest := ?_ }
    · exact ⟨dealt, left, hoffered, by rw [hempty]; exact .reset _ htold, hworks⟩
    · rw [hempty]
      exact isChain_singleton _
    · simp [LiveEvent.cursor]
  · rename_i commitVersion row rest event hqueue hevent
    cases hsent
    simp only [EventListener.pending, hqueue] at hkeeping
    simp only [EventListener.starts, hqueue, hevent, Option.some.injEq] at hsending
    obtain ⟨dealt, offer, left, hoffered, htold, hoffer, hrest⟩ := hkeeping.first rfl
    obtain ⟨hverdict, rfl, rfl⟩ := work?_eq_publish hoffer
    refine Keeping.next ?_ hqueue
    have hsequence : event.cursor.sequence = listener.cursor.sequence + 1 := by
      rw [hsending, EventListener.published]
      split <;> rfl
    refine { hkeeping with told := ?_, numbered := ?_, latest := ?_ }
    · refine ⟨dealt ++ [offer], left, by simp [hoffered], ?_, hrest⟩
      rw [hsending, EventListener.published]
      cases hgapped : listener.gapped with
      | true =>
        rw [hgapped] at htold
        exact .gap _ hverdict htold
      | false =>
        rw [hgapped] at htold
        exact .row _ hverdict rfl htold
    · exact hkeeping.deliver hsequence
    · simp
  · rename_i rest hqueue hevent
    cases hsent
    simp only [EventListener.pending, hqueue] at hkeeping
    exact hkeeping.next hqueue
  · rename_i outcome rest hqueue hevent
    cases hsent
    simp only [EventListener.pending, hqueue] at hkeeping
    exact (hkeeping.drop rfl).next hqueue
  · cases hsent

/-- **A send fails**: a row that was not delivered leaves the mark. -/
theorem Relays.sendFailed {after : EventListener} (hfailed : listener.sendFailed = some after) :
    Relays after := by
  have hkeeping := h.keeping
  unfold EventListener.sendFailed at hfailed
  split at hfailed
  · rename_i rest hqueue
    cases hfailed
    simp only [EventListener.pending, hqueue] at hkeeping
    exact Keeping.next { hkeeping.drop rfl with } hqueue
  · rename_i commitVersion row rest hqueue
    cases hfailed
    simp only [EventListener.pending, hqueue] at hkeeping
    obtain ⟨dealt, offer, left, hoffered, htold, hoffer, hrest⟩ := hkeeping.first rfl
    refine Keeping.next { hkeeping with told := ?_ } hqueue
    exact ⟨dealt ++ [offer], left, by simp [hoffered], .lost (work?_eq_publish hoffer).1 htold,
      hrest⟩
  · rename_i outcome rest hqueue
    cases hfailed
    simp only [EventListener.pending, hqueue] at hkeeping
    exact (hkeeping.drop rfl).next hqueue
  · cases hfailed

/-- A work joins the queue, for the offers that are added with it. -/
theorem Relays.enqueue {added : List Offer} (hreset : work ≠ .reset)
    (hverdicts : ∀ k offer, (listener.offered ++ added)[k]? = some offer →
      offer.verdict = listener.matches_ k offer.row)
    (hwork : [work].filter EventWork.offered = added.filterMap Offer.work?) :
    Relays ({ listener with offered := listener.offered ++ added }.enqueue work) := by
  obtain ⟨dealt, left, hoffered, htold, hworks⟩ := h.keeping.told
  have hkeeping : ∀ queue, .reset ∉ queue.tail → Keeping (listener.pending ++ [work])
      { listener with offered := listener.offered ++ added, queue := queue } := by
    intro queue hopening
    refine { h.keeping with verdicts := hverdicts, told := ?_, opening := hopening }
    refine ⟨dealt, left ++ added, by simp [hoffered], htold, ?_⟩
    rw [filter_append, filterMap_append, hworks, hwork]
  unfold EventListener.enqueue
  dsimp only
  split
  · rename_i hempty
    have hpending : listener.pending = [] := by simp [EventListener.pending, hempty]
    have hstart := hkeeping (listener.queue ++ [work]) (by simp [hempty])
    rw [hpending] at hstart
    refine Keeping.start ?_ ?_
    · show Keeping (listener.queue ++ [work]) _
      rw [hempty] at hstart ⊢
      exact hstart
    · intro hhead
      simp [hempty, hreset] at hhead
  rename_i hne
  obtain ⟨first, rest, hqueue⟩ := exists_cons_of_ne_nil hne
  have hopening := h.keeping.opening
  rw [hqueue, tail_cons] at hopening
  have hextended := hkeeping (listener.queue ++ [work]) (by
    rw [hqueue, cons_append, tail_cons, mem_append, mem_singleton]
    exact fun hmem => hmem.elim hopening fun heq => hreset heq.symm)
  refine ⟨?_, ?_, ?_⟩
  · have hpending : EventListener.pending
        { listener with
          offered := listener.offered ++ added
          queue := listener.queue ++ [work] } =
          listener.pending ++ [work] := by
      cases first <;> simp [EventListener.pending, hqueue]
    rw [hpending]
    exact hextended
  · have hstarts : EventListener.starts
        { listener with
          offered := listener.offered ++ added
          queue := listener.queue ++ [work] } =
          listener.starts := by
      cases first <;> simp [EventListener.starts, hqueue, EventListener.published]
    rw [hstarts]
    exact h.sending
  · intro hhead
    apply h.fresh
    simpa [hqueue] using hhead

/-- **A row is offered.** -/
theorem Relays.offer (commitVersion : Nat) (row : JsValue) :
    Relays (listener.offer commitVersion row) := by
  have hverdicts : ∀ k offer, (listener.offered ++
      [⟨commitVersion, row, listener.matches_ listener.offered.length row⟩])[k]? = some offer →
        offer.verdict = listener.matches_ k offer.row := by
    intro k offer hoffer
    rw [getElem?_append] at hoffer
    split at hoffer
    · exact h.keeping.verdicts k offer hoffer
    rename_i hbeyond
    rw [getElem?_singleton] at hoffer
    split at hoffer
    · obtain rfl := Option.some.inj hoffer
      rw [show k = listener.offered.length by omega]
    · cases hoffer
  unfold EventListener.offer
  dsimp only
  split
  · rename_i hverdict
    exact h.enqueue (by simp) hverdicts (by simp [Offer.work?, hverdict, EventWork.offered])
  · rename_i hverdict
    obtain ⟨dealt, left, hoffered, htold, hworks⟩ := h.keeping.told
    refine ⟨{ h.keeping with verdicts := hverdicts, told := ?_ }, h.sending, h.fresh⟩
    refine ⟨dealt, left ++ [⟨commitVersion, row, listener.matches_ listener.offered.length row⟩],
      ?_, htold, ?_⟩
    · rw [← append_assoc, ← hoffered]
    · rw [filterMap_append, filterMap_cons_none (by rw [Offer.work?, hverdict]),
        filterMap_nil, append_nil]
      exact hworks
  · rename_i hverdict
    exact h.enqueue (by simp) hverdicts (by simp [Offer.work?, hverdict, EventWork.offered])

theorem Relays.told (outcome : Protocol.Outcome) :
    Relays (listener.enqueue (.error outcome)) := by
  have hverdicts := h.keeping.verdicts
  rw [← append_nil listener.offered] at hverdicts
  have hnone : [EventWork.error outcome].filter EventWork.offered =
      ([] : List Offer).filterMap Offer.work? := rfl
  have hkept := h.enqueue (by simp) hverdicts hnone
  rwa [append_nil] at hkept

end

theorem relays_openEvent (subscriber id : Nat) (table : String)
    (matches_ : Nat → JsValue → Except Thrown Bool) (authEpoch : Nat) (generation : String)
    (highWater : Nat) :
    Relays (openEvent subscriber id table matches_ authEpoch generation highWater) := by
  unfold openEvent EventListener.enqueue
  rw [if_pos rfl]
  apply Keeping.start
  · exact ⟨by simp, ⟨[], [], rfl, .nothing, rfl⟩, by simp, isChain_nil, by simp⟩
  · simp

end AckerDB.Reactive
