import AckerDB.Subscriptions.Reactive.Bookkeeping
import AckerDB.Subscriptions.Reactive.Versions

/-!
# The chain of transitions of a listener

A delivery chooses its transitions from the cursor of the listener, which only advances when a
send has succeeded, and queues them one by one.  Where deliveries overlap, a later one starts from
a cursor that is out of date, or gets in between the transitions of an earlier one.

* `Chained`, `Rising` — what the transitions handed to a subscriber should be;
* `Lines` — the invariant of the sends: what was handed over, is queued and is still to be queued;
* `Orderly` — deliveries that do not get in each other's way;
* `handed_chained` — runs of such deliveries hand over a chain.
-/

namespace AckerDB

open Protocol Function List

namespace Reactive

open Outbox

variable {before : Option SubscriptionCursor} {a b transitions : List SubscriptionTransition}

/-! ## Chains -/

/-- An update, a checkpoint and a resume start at their predecessor. -/
def Follows (before : Option SubscriptionCursor) : SubscriptionTransition → Prop
  | .update source _ _ => before = some source
  | .checkpoint source _ => before = some source
  | .resume source _ => before = some source
  | _ => True

/-- Each transition follows the one before it, and the first follows a cursor. -/
def Chained : Option SubscriptionCursor → List SubscriptionTransition → Prop
  | _, [] => True
  | before, transition :: rest => Follows before transition ∧ Chained (some transition.target) rest

/-- The versions never decrease. -/
def Rising (transitions : List SubscriptionTransition) : Prop :=
  transitions.Pairwise fun a b => a.target.commitVersion ≤ b.target.commitVersion

/-- The cursor after the transitions. -/
def lastTarget : Option SubscriptionCursor → List SubscriptionTransition →
    Option SubscriptionCursor
  | before, [] => before
  | _, transition :: rest => lastTarget (some transition.target) rest

/-- The transition ends the subscription. -/
def Revokes : SubscriptionTransition → Prop
  | .revoked _ _ _ => True
  | _ => False

theorem chained_append :
    Chained before (a ++ b) ↔ Chained before a ∧ Chained (lastTarget before a) b := by
  induction a generalizing before with
  | nil => simp [Chained, lastTarget]
  | cons transition rest ih => simp [Chained, lastTarget, ih, and_assoc]

variable {cursor : SubscriptionCursor}

theorem lastTarget_mem (h : lastTarget before transitions = some cursor) (hne : transitions ≠ []) :
    ∃ transition ∈ transitions, transition.target = cursor := by
  induction transitions generalizing before with
  | nil => exact absurd rfl hne
  | cons transition rest ih =>
    cases rest with
    | nil =>
      cases h
      exact ⟨transition, mem_cons_self, rfl⟩
    | cons next rest =>
      have hrest : lastTarget (some transition.target) (next :: rest) = some cursor := h
      obtain ⟨found, hmem, htarget⟩ := ih hrest (by simp)
      exact ⟨found, mem_cons_of_mem _ hmem, htarget⟩

/-- The last version is the greatest. -/
theorem Rising.le_last (h : Rising transitions)
    (hlast : lastTarget before transitions = some cursor) :
    ∀ transition ∈ transitions, transition.target.commitVersion ≤ cursor.commitVersion := by
  induction transitions generalizing before with
  | nil => simp
  | cons first rest ih =>
    obtain ⟨hfirst, hrest⟩ := pairwise_cons.1 h
    have htail : lastTarget (some first.target) rest = some cursor := hlast
    have hbelow := ih hrest htail
    intro transition hmem
    rcases mem_cons.1 hmem with rfl | hmem
    · by_cases hne : rest = []
      · subst hne
        cases hlast
        exact le_rfl
      · obtain ⟨found, hfound, htarget⟩ := lastTarget_mem htail hne
        exact (hfirst found hfound).trans (htarget ▸ le_rfl)
    · exact hbelow transition hmem

/-- A sequence of transitions that may be handed over from a cursor on, while the entry is at a
version. -/
structure Good (before : Option SubscriptionCursor) (version : Nat)
    (transitions : List SubscriptionTransition) : Prop where
  chained : Chained before transitions
  rising : Rising transitions
  /-- A revocation keeps the version of the client, which may be any. -/
  bounded : (∀ transition ∈ transitions, ¬ Revokes transition) →
    ∀ transition ∈ transitions, transition.target.commitVersion ≤ version

theorem good_nil (before : Option SubscriptionCursor) (version : Nat) : Good before version [] :=
  ⟨trivial, Pairwise.nil, by simp⟩

theorem Good.mono {version later : Nat} (h : Good before version transitions)
    (hle : version ≤ later) : Good before later transitions :=
  ⟨h.chained, h.rising, fun hplain transition hmem => (h.bounded hplain transition hmem).trans hle⟩

theorem Good.left {version : Nat} (h : Good before version (a ++ b))
    (hb : ∀ transition ∈ b, ¬ Revokes transition) : Good before version a where
  chained := (chained_append.1 h.chained).1
  rising := (pairwise_append.1 h.rising).1
  bounded := by
    intro ha transition hmem
    refine h.bounded ?_ transition (mem_append_left b hmem)
    intro other hother
    exact (mem_append.1 hother).elim (ha other) (hb other)

/-- More transitions that continue where the others end. -/
theorem Good.append {version : Nat} (h : Good before version a)
    (hchained : Chained (lastTarget before a) b) (hrising : Rising b)
    (habove : ∀ x ∈ a, ∀ y ∈ b, x.target.commitVersion ≤ y.target.commitVersion)
    (hbounded : ∀ y ∈ b, y.target.commitVersion ≤ version) : Good before version (a ++ b) where
  chained := chained_append.2 ⟨h.chained, hchained⟩
  rising := pairwise_append.2 ⟨h.rising, hrising, habove⟩
  bounded := by
    intro hplain transition hmem
    rcases mem_append.1 hmem with hmem | hmem
    · exact h.bounded (fun other hother => hplain other (mem_append_left b hother)) _ hmem
    · exact hbounded transition hmem

theorem Good.concat {version : Nat} {next : SubscriptionTransition} (h : Good before version a)
    (hfollows : Follows (lastTarget before a) next)
    (habove : ∀ x ∈ a, x.target.commitVersion ≤ next.target.commitVersion)
    (hbounded : next.target.commitVersion ≤ version) : Good before version (a ++ [next]) :=
  h.append ⟨hfollows, trivial⟩ (pairwise_singleton _ _) (by simpa using habove)
    (forall_mem_singleton.2 hbounded)

/-! ## The lines of the listeners -/

/-- The transition of a queued send. -/
def QueuedSend.transition? (queued : QueuedSend) : Option SubscriptionTransition :=
  match queued.send with
  | .transition transition => some transition
  | _ => none

/-- The send is a revocation whose cursors are not chosen yet. -/
def QueuedSend.Waits (queued : QueuedSend) : Prop :=
  match queued.send with
  | .revocation _ _ => True
  | _ => False

/-- What was handed over and what is queued behind it. -/
def QueryListener.line (listener : QueryListener) : List SubscriptionTransition :=
  listener.handed ++ listener.queue.tail.filterMap QueuedSend.transition?

/-- No revocation waits in the queue. -/
structure Plain (listener : QueryListener) : Prop where
  chosen : ∀ queued ∈ listener.queue, ¬ queued.Waits
  kept : ∀ transition ∈ listener.queue.tail.filterMap QueuedSend.transition?, ¬ Revokes transition

variable {listener : QueryListener}

theorem line_hand (hchosen : ∀ queued ∈ listener.queue, ¬ queued.Waits) (fresh : String) :
    (listener.hand fresh).line =
      listener.handed ++ listener.queue.filterMap QueuedSend.transition? := by
  unfold QueryListener.hand
  split
  · rename_i hqueue
    simp [QueryListener.line, hqueue]
  · rename_i transition delivery rest hqueue
    simp [QueryListener.line, hqueue, QueuedSend.transition?]
  · rename_i outcome delivery rest hqueue
    simp [QueryListener.line, hqueue, QueuedSend.transition?, filterMap_cons]
  · rename_i nextAuthEpoch outcome delivery rest hqueue
    refine absurd trivial (hchosen ⟨.revocation nextAuthEpoch outcome, delivery⟩ ?_)
    rw [hqueue]
    exact mem_cons_self

theorem hand_queue (hchosen : ∀ queued ∈ listener.queue, ¬ queued.Waits) (fresh : String) :
    (listener.hand fresh).queue = listener.queue := by
  unfold QueryListener.hand
  split
  · rfl
  · rfl
  · rfl
  · rename_i nextAuthEpoch outcome delivery rest hqueue
    refine absurd trivial (hchosen ⟨.revocation nextAuthEpoch outcome, delivery⟩ ?_)
    rw [hqueue]
    exact mem_cons_self

/-- **The invariant of the sends**, while each entry is at a version. -/
structure Lines (outbox : Outbox) (version : Nat → Nat) : Prop where
  plain : ∀ l, Plain (outbox.listeners l)
  line : ∀ l < outbox.listenerCount, Good (outbox.listeners l).resumeCursor
    (version (outbox.listeners l).entry) (outbox.listeners l).line
  rest : ∀ d, (outbox.deliveries d).rest ≠ [] →
    (outbox.deliveries d).listener < outbox.listenerCount ∧
    (∀ transition ∈ (outbox.deliveries d).rest, ¬ Revokes transition) ∧
    Good (outbox.listeners (outbox.deliveries d).listener).resumeCursor
      (version (outbox.listeners (outbox.deliveries d).listener).entry)
      ((outbox.listeners (outbox.deliveries d).listener).line ++ (outbox.deliveries d).rest)
  alone : ∀ d d', (outbox.deliveries d).rest ≠ [] → (outbox.deliveries d').rest ≠ [] →
    (outbox.deliveries d).listener = (outbox.deliveries d').listener → d = d'

variable {other d : Nat}

section Lines

variable {options : ReactiveOptions} {outbox : Outbox} {version : Nat → Nat}

variable {after : Outbox} {l : Nat}

theorem lines_initial (version : Nat → Nat) : Lines {} version where
  plain := fun _ => ⟨by simp, by simp⟩
  line := fun _ hl => absurd hl (Nat.not_lt_zero _)
  rest := fun _ h => absurd rfl h
  alone := fun _ _ h => absurd rfl h

theorem Lines.mono {later : Nat → Nat} (h : Lines outbox version) (hle : ∀ l < outbox.listenerCount,
      version (outbox.listeners l).entry ≤ later (outbox.listeners l).entry) :
    Lines outbox later where
  __ := h
  line := fun l hl => (h.line l hl).mono (hle l hl)
  rest := by
    intro d hd
    obtain ⟨hl, hplain, hgood⟩ := h.rest d hd
    exact ⟨hl, hplain, hgood.mono (hle _ hl)⟩

/-- One listener gets another line. -/
theorem Lines.relist (h : Lines outbox version) (l : Nat) (hsame : after.SameListeners outbox)
    (hdeliveries : after.deliveries = outbox.deliveries)
    (hothers : ∀ other ≠ l, after.listeners other = outbox.listeners other)
    (hplain : Plain (after.listeners l))
    (hline : l < outbox.listenerCount → Good (outbox.listeners l).resumeCursor
      (version (outbox.listeners l).entry) (after.listeners l).line)
    (hrest : ∀ d, (outbox.deliveries d).listener = l → (outbox.deliveries d).rest ≠ [] →
      Good (outbox.listeners l).resumeCursor (version (outbox.listeners l).entry)
        ((after.listeners l).line ++ (outbox.deliveries d).rest)) : Lines after version where
  plain := by
    intro other
    by_cases hother : other = l
    · rw [hother]
      exact hplain
    · rw [hothers other hother]
      exact h.plain other
  line := by
    intro other hlt
    rw [hsame.count] at hlt
    rw [(hsame.listener other).resumeCursor, (hsame.listener other).entry]
    by_cases hother : other = l
    · subst hother
      exact hline hlt
    · rw [hothers other hother]
      exact h.line other hlt
  rest := by
    intro d hd
    rw [hdeliveries] at hd ⊢
    rw [hsame.count, (hsame.listener _).resumeCursor, (hsame.listener _).entry]
    obtain ⟨hlt, hkept, hgood⟩ := h.rest d hd
    refine ⟨hlt, hkept, ?_⟩
    by_cases hother : (outbox.deliveries d).listener = l
    · subst hother
      exact hrest d rfl hd
    · rw [hothers _ hother]
      exact hgood
  alone := by
    rw [hdeliveries]
    exact h.alone

/-- Another delivery under the same number. -/
theorem Lines.setDelivery (h : Lines outbox version) {delivery : Delivery} (deliveryCount : Nat)
    (hrest : delivery.rest ≠ [] → delivery.listener < outbox.listenerCount ∧
      (∀ transition ∈ delivery.rest, ¬ Revokes transition) ∧
      Good (outbox.listeners delivery.listener).resumeCursor
        (version (outbox.listeners delivery.listener).entry)
        ((outbox.listeners delivery.listener).line ++ delivery.rest))
    (halone : delivery.rest ≠ [] → ∀ d' ≠ d, (outbox.deliveries d').listener = delivery.listener →
      (outbox.deliveries d').rest = []) :
    Lines { outbox with
      deliveries := update outbox.deliveries d delivery, deliveryCount } version where
  __ := h
  rest := by
    intro d' hd'
    by_cases hother : d' = d
    · subst hother
      simp only [update_self] at hd' ⊢
      exact hrest hd'
    · simp only [update_of_ne hother] at hd' ⊢
      exact h.rest d' hd'
  alone := by
    intro a b ha hb hlisteners
    by_cases hat : a = d <;> by_cases hbt : b = d
    · rw [hat, hbt]
    · subst hat
      simp only [update_self, update_of_ne hbt] at ha hb hlisteners
      exact absurd (halone ha b hbt hlisteners.symm) hb
    · subst hbt
      simp only [update_self, update_of_ne hat] at ha hb hlisteners
      exact absurd (halone hb a hat hlisteners) ha
    · simp only [update_of_ne hat, update_of_ne hbt] at ha hb hlisteners
      exact h.alone a b ha hb hlisteners

theorem start_others (outbox : Outbox) (listener : QueryListener) (h : other ≠ l) :
    (start options outbox l listener).listeners other = outbox.listeners other :=
  update_of_ne h _ _

theorem enqueue_others (outbox : Outbox) (queued : QueuedSend) (h : other ≠ l) :
    (enqueue options outbox l queued).listeners other = outbox.listeners other := by
  unfold enqueue
  dsimp only
  split
  · exact start_others outbox _ h
  · exact update_of_ne h _ _

theorem enqueue_deliveries (outbox : Outbox) (l : Nat) (queued : QueuedSend) :
    (enqueue options outbox l queued).deliveries = outbox.deliveries := by
  unfold enqueue
  dsimp only
  split <;> rfl

theorem filterMap_singleton (queued : QueuedSend) :
    filterMap QueuedSend.transition? [queued] = queued.transition?.toList := by
  cases hfound : queued.transition? <;> simp [hfound]

/-- A send goes to the end of the line. -/
theorem enqueue_line (outbox : Outbox) (l : Nat) {queued : QueuedSend} (hchosen : ¬ queued.Waits) :
    ((enqueue options outbox l queued).listeners l).line =
      (outbox.listeners l).line ++ queued.transition?.toList := by
  unfold enqueue
  dsimp only
  split
  · rename_i hempty
    simp only [start, update_self]
    rw [line_hand (by simpa [hempty] using hchosen)]
    simp only [hempty, nil_append, filterMap_singleton]
    simp [QueryListener.line, hempty]
  rename_i hbusy
  simp only [update_self, QueryListener.line]
  rw [tail_append_of_ne_nil hbusy, filterMap_append, filterMap_singleton,
    append_assoc]

theorem enqueue_plain (hplain : Plain (outbox.listeners l)) {queued : QueuedSend}
    (hchosen : ¬ queued.Waits) (hkept : ∀ transition ∈ queued.transition?, ¬ Revokes transition) :
    Plain ((enqueue options outbox l queued).listeners l) := by
  unfold enqueue
  dsimp only
  split
  · rename_i hempty
    simp only [start, update_self]
    refine ⟨?_, ?_⟩
    · rw [hand_queue (by simpa [hempty] using hchosen)]
      simpa [hempty] using hchosen
    · rw [hand_queue (by simpa [hempty] using hchosen)]
      simp [hempty]
  rename_i hbusy
  simp only [update_self]
  refine ⟨?_, ?_⟩
  · exact forall_mem_append.2 ⟨hplain.chosen, forall_mem_singleton.2 hchosen⟩
  intro transition hmem
  rw [tail_append_of_ne_nil hbusy, filterMap_append, filterMap_singleton,
    mem_append, Option.mem_toList] at hmem
  exact hmem.elim (hplain.kept transition) (hkept transition)

/-- The record of a delivery and its first send do not meet. -/
theorem enqueue_record (outbox : Outbox) (l : Nat) (queued : QueuedSend)
    (deliveries : Nat → Delivery) (deliveryCount : Nat) :
    enqueue options { outbox with deliveries, deliveryCount } l queued =
      { enqueue options outbox l queued with deliveries, deliveryCount } := by
  unfold enqueue
  dsimp only
  split <;> rfl

/-- No delivery to the listener has transitions left to queue. -/
def Clear (outbox : Outbox) (l : Nat) : Prop :=
  ∀ d, (outbox.deliveries d).listener = l → (outbox.deliveries d).rest = []

section

variable (h : Lines outbox version)
include h

/-- The first of the transitions that are left is queued. -/
theorem Lines.queueFirst {l : Nat} (hl : l < outbox.listenerCount) (hclear : Clear outbox l)
    (d deliveryCount : Nat) {first : SubscriptionTransition} {rest : List SubscriptionTransition}
    (hkept : ∀ transition ∈ first :: rest, ¬ Revokes transition)
    (hgood : Good (outbox.listeners l).resumeCursor (version (outbox.listeners l).entry)
      ((outbox.listeners l).line ++ first :: rest)) :
    Lines { enqueue options outbox l ⟨.transition first, d⟩ with
      deliveries := update outbox.deliveries d ⟨l, rest, .sending⟩
      deliveryCount } version := by
  have hsplit : (outbox.listeners l).line ++ first :: rest =
      (outbox.listeners l).line ++ [first] ++ rest := by simp
  have hrestKept : ∀ transition ∈ rest, ¬ Revokes transition :=
    fun transition hmem => hkept transition (mem_cons_of_mem _ hmem)
  have hfirst := (hsplit ▸ hgood).left hrestKept
  have hsame := @sameListeners_enqueue options outbox l ⟨.transition first, d⟩
  have hqueued : Lines (enqueue options outbox l ⟨.transition first, d⟩) version := by
    refine h.relist l hsame (enqueue_deliveries _ _ _)
      (fun other hother => enqueue_others _ _ hother) (enqueue_plain (h.plain l) id ?_)
      (fun _ => ?_) ?_
    · intro transition hmem
      cases hmem
      exact hkept first mem_cons_self
    · rw [enqueue_line outbox l id]
      exact hfirst
    · intro other hother hne
      exact absurd (hclear other hother) hne
  rw [← @enqueue_deliveries options outbox l ⟨.transition first, d⟩]
  refine hqueued.setDelivery _ (fun _ => ⟨?_, hrestKept, ?_⟩) (fun _ other _ hother => ?_)
  · rw [hsame.count]
    exact hl
  · rw [(hsame.listener l).resumeCursor, (hsame.listener l).entry, enqueue_line outbox l id]
    exact hsplit ▸ hgood
  · rw [enqueue_deliveries] at hother ⊢
    exact hclear other hother

/-- A delivery begins, with transitions that continue the line of the listener. -/
theorem Lines.begin (hl : l < outbox.listenerCount) (hclear : Clear outbox l)
    {transitions : List SubscriptionTransition}
    (hkept : ∀ transition ∈ transitions, ¬ Revokes transition)
    (hgood : Good (outbox.listeners l).resumeCursor (version (outbox.listeners l).entry)
      ((outbox.listeners l).line ++ transitions)) :
    Lines (Outbox.begin options outbox l transitions) version := by
  cases transitions with
  | nil => exact h.setDelivery _ (absurd rfl) (absurd rfl)
  | cons first rest =>
    have hbegin : Outbox.begin options outbox l (first :: rest) = _ :=
      enqueue_record outbox l ⟨.transition first, outbox.deliveryCount⟩ _ _
    rw [hbegin]
    exact h.queueFirst hl hclear outbox.deliveryCount _ hkept hgood

/-- A delivery goes on. -/
theorem Lines.resume (hresume : outbox.resume options d = some after) :
    Lines after version := by
  unfold Outbox.resume at hresume
  split at hresume
  · rename_i l next rest hdelivery
    cases hresume
    have hleft : (outbox.deliveries d).rest ≠ [] := by simp [hdelivery]
    obtain ⟨hl, hkept, hgood⟩ := h.rest d hleft
    rw [hdelivery] at hl hkept hgood
    -- while the next transition is queued, the delivery counts as one with nothing left
    have hpaused : Lines (outbox.setDelivery d ⟨l, [], .sending⟩) version :=
      h.setDelivery _ (absurd rfl) (absurd rfl)
    have hclear : Clear (outbox.setDelivery d ⟨l, [], .sending⟩) l := by
      intro other hother
      by_cases heq : other = d
      · subst heq
        simp [Outbox.setDelivery]
      · simp only [Outbox.setDelivery, update_of_ne heq] at hother ⊢
        by_contra hne
        exact heq (h.alone other d hne hleft (by rw [hother, hdelivery]))
    have hqueued := @Lines.queueFirst options _ _ hpaused l hl hclear d outbox.deliveryCount _ _
      hkept hgood
    have hrecord := @enqueue_record options outbox l ⟨.transition next, d⟩
      (update outbox.deliveries d ⟨l, [], .sending⟩) outbox.deliveryCount
    have hrecord' := @enqueue_record options outbox l ⟨.transition next, d⟩
      (update outbox.deliveries d ⟨l, rest, .sending⟩) outbox.deliveryCount
    unfold Outbox.setDelivery at hqueued ⊢
    rw [hrecord']
    rw [hrecord] at hqueued
    simpa only [update_idem] using hqueued
  · cases hresume

/-- A failure is reported. -/
theorem Lines.sendError (l : Nat) (outcome : Outcome) :
    Lines (outbox.beginSend options l (.error outcome)) version := by
  have hallocated : Lines (outbox.allocate { listener := l, rest := [], state := .sending })
      version := h.setDelivery _ (absurd rfl) (absurd rfl)
  have hchosen : ¬ QueuedSend.Waits ⟨.error outcome, outbox.deliveryCount⟩ := id
  unfold beginSend
  refine hallocated.relist l (sameListeners_enqueue _ _ _) (enqueue_deliveries _ _ _)
    (fun other hother => enqueue_others _ _ hother)
    (enqueue_plain (hallocated.plain l) hchosen ?_) (fun hl => ?_) (fun d hd hne => ?_)
  · intro transition hmem
    cases hmem
  · rw [enqueue_line _ l hchosen]
    simpa [QueuedSend.transition?] using hallocated.line l hl
  rw [enqueue_line _ l hchosen]
  have hgood := (hallocated.rest d hne).2.2
  rw [hd] at hgood
  simpa [QueuedSend.transition?] using hgood

/-- The next send starts once one has settled, whatever became of the cursor. -/
theorem Lines.next {settled : QueuedSend} {rest : List QueuedSend}
    (hqueue : (outbox.listeners l).queue = settled :: rest) (cursor : Option SubscriptionCursor) :
    Lines (start options outbox l { outbox.listeners l with queue := rest, cursor })
      version := by
  have hplain := h.plain l
  have hchosen : ∀ queued ∈ rest, ¬ queued.Waits :=
    fun queued hmem => hplain.chosen queued (hqueue ▸ mem_cons_of_mem _ hmem)
  have hkept : ∀ transition ∈ rest.filterMap QueuedSend.transition?, ¬ Revokes transition := by
    have hall := hplain.kept
    rw [hqueue] at hall
    exact hall
  have hline : ((start options outbox l
      { outbox.listeners l with queue := rest, cursor }).listeners l).line =
        (outbox.listeners l).line := by
    simp only [start, update_self]
    rw [line_hand hchosen]
    simp [QueryListener.line, hqueue]
  refine h.relist l (sameListeners_start _ ⟨rfl, rfl, rfl, rfl, rfl⟩) rfl
    (fun other hother => start_others _ _ hother) ⟨?_, ?_⟩ ?_ ?_
  · simp only [start, update_self]
    rw [hand_queue hchosen]
    exact hchosen
  · simp only [start, update_self]
    rw [hand_queue hchosen]
    intro transition hmem
    refine hkept transition ?_
    obtain ⟨queued, hqueued, hfound⟩ := mem_filterMap.1 hmem
    exact mem_filterMap.2 ⟨queued, mem_of_mem_tail hqueued, hfound⟩
  · rw [hline]
    exact h.line l
  · intro d hd hne
    have hgood := (h.rest d hne).2.2
    rw [hd] at hgood
    rw [hline]
    exact hgood

theorem Lines.sent (hsent : outbox.sent options l = some after) :
    Lines after version := by
  unfold Outbox.sent at hsent
  dsimp only at hsent
  split at hsent
  · cases hsent
  rename_i send d rest hqueue
  cases hsent
  have hsettled : Lines (outbox.setDelivery d (outbox.deliveries d).afterSent) version := by
    refine h.setDelivery _ (fun hne => h.rest d hne) (fun hne other hother hlistener => ?_)
    by_contra hleft
    exact hother (h.alone other d hleft hne hlistener)
  exact hsettled.next hqueue _

theorem Lines.sendFailed (hfailed : outbox.sendFailed options l = some after) :
    Lines after version := by
  unfold Outbox.sendFailed at hfailed
  dsimp only at hfailed
  split at hfailed
  · cases hfailed
  rename_i send d rest hqueue
  cases hfailed
  have hsettled : Lines (outbox.setDelivery d (outbox.deliveries d).afterFailure) version :=
    h.setDelivery _ (absurd rfl) (absurd rfl)
  exact hsettled.next hqueue _

end

/-- Everything handed over has been sent: the cursor is where the last transition ended. -/
structure Settled (listener : QueryListener) : Prop where
  idle : listener.queue = []
  cursor : listener.cursor = lastTarget listener.resumeCursor listener.handed

theorem Settled.line (h : Settled listener) :
    listener.line = listener.handed := by
  simp [QueryListener.line, h.idle]

/-- A listener that may be revoked. -/
structure Closable (outbox : Outbox) (l : Nat) : Prop where
  clear : Clear outbox l
  settled : Settled (outbox.listeners l)

theorem hand_revocation (listener : QueryListener) (fresh : String) (nextAuthEpoch d : Nat)
    (outcome : Outcome) :
    ({ listener with queue := [⟨.revocation nextAuthEpoch outcome, d⟩] } : QueryListener).hand fresh =
      match listener.cursor with
      | none => { listener with queue := [⟨.error outcome, d⟩] }
      | some source => { listener with
          queue := [⟨.transition (QueryListener.revoke source fresh nextAuthEpoch outcome), d⟩]
          handed := listener.handed ++ [QueryListener.revoke source fresh nextAuthEpoch outcome] } :=
  rfl

/-- A revocation of a settled listener keeps its version. -/
theorem Lines.sendRevocation (h : Lines outbox version) (hclosable : Closable outbox l)
    (nextAuthEpoch : Nat) (outcome : Outcome) :
    Lines (outbox.beginSend options l (.revocation nextAuthEpoch outcome)) version := by
  have hallocated : Lines (outbox.allocate { listener := l, rest := [], state := .sending })
      version := h.setDelivery _ (absurd rfl) (absurd rfl)
  have hidle := hclosable.settled.idle
  have hnone : ∀ d, ((outbox.allocate { listener := l, rest := [], state := .sending }).deliveries
      d).listener = l → ((outbox.allocate { listener := l, rest := [], state := .sending }).deliveries
      d).rest = [] := by
    intro d hd
    by_cases hnew : d = outbox.deliveryCount
    · subst hnew
      simp [allocate]
    · simp only [allocate, update_of_ne hnew] at hd ⊢
      exact hclosable.clear d hd
  have hstart : outbox.beginSend options l (.revocation nextAuthEpoch outcome) =
      start options (outbox.allocate { listener := l, rest := [], state := .sending }) l
        { outbox.listeners l with
          queue := [⟨.revocation nextAuthEpoch outcome, outbox.deliveryCount⟩] } := by
    unfold beginSend enqueue
    simp [allocate, hidle]
  have hgood : l < outbox.listenerCount → Good (outbox.listeners l).resumeCursor
      (version (outbox.listeners l).entry) (outbox.listeners l).handed := by
    intro hl
    rw [← hclosable.settled.line]
    exact h.line l hl
  rw [hstart]
  refine hallocated.relist l (sameListeners_start _ ⟨rfl, rfl, rfl, rfl, rfl⟩) rfl
    (fun other hother => start_others _ _ hother) ?_ (fun hl => ?_)
    (fun d hd hne => absurd (hnone d hd) hne)
  · simp only [start, update_self, hand_revocation]
    split
    · exact ⟨by simp [QueuedSend.Waits], by simp⟩
    · exact ⟨by simp [QueuedSend.Waits], by simp⟩
  simp only [start, update_self, hand_revocation]
  split
  · simpa [QueryListener.line, allocate] using hgood hl
  rename_i source hsource
  have hlast := hclosable.settled.cursor.symm.trans hsource
  have hbelow := (hgood hl).rising.le_last hlast
  simp only [QueryListener.line, tail_cons, filterMap_nil, append_nil]
  refine ⟨chained_append.2 ⟨(hgood hl).chained, trivial, trivial⟩,
    pairwise_append.2 ⟨(hgood hl).rising, pairwise_singleton _ _, ?_⟩, ?_⟩
  · intro a ha b hb
    rw [mem_singleton] at hb
    rw [hb]
    exact hbelow a ha
  · intro hplain
    exact absurd trivial (hplain _ (mem_append_right _ mem_cons_self))

/-- A new listener. -/
theorem Lines.addListener (h : Lines outbox version) (listener : QueryListener)
    (hqueue : listener.queue = []) (hhanded : listener.handed = []) :
    Lines (outbox.addListener listener) version where
  plain := by
    intro l
    by_cases hl : l = outbox.listenerCount
    · subst hl
      simp only [Outbox.addListener, update_self]
      exact ⟨by simp [hqueue], by simp [hqueue]⟩
    · simp only [Outbox.addListener, update_of_ne hl]
      exact h.plain l
  line := by
    intro l hlt
    by_cases hl : l = outbox.listenerCount
    · subst hl
      simp only [Outbox.addListener, update_self, QueryListener.line, hqueue, hhanded]
      exact good_nil _ _
    · simp only [Outbox.addListener, update_of_ne hl]
      exact h.line l (Nat.lt_of_le_of_ne (Nat.le_of_lt_succ hlt) hl)
  rest := by
    intro d hd
    obtain ⟨hlt, hkept, hgood⟩ := h.rest d hd
    have hne := Nat.ne_of_lt hlt
    refine ⟨Nat.lt_succ_of_lt hlt, hkept, ?_⟩
    simp only [Outbox.addListener, update_of_ne hne]
    exact hgood
  alone := h.alone

end Lines

/-! ## Deliveries that continue the line -/

/-- A listener to which a delivery may begin: no other is between two of its transitions, it was
not revoked, and it has no cursor yet or nothing is under way to it. -/
structure Ready (outbox : Outbox) (l : Nat) : Prop where
  clear : Clear outbox l
  kept : ∀ transition ∈ (outbox.listeners l).handed, ¬ Revokes transition
  settled : (outbox.listeners l).cursor = none ∨ Settled (outbox.listeners l)

theorem chained_chain (cursor : SubscriptionCursor) (chain : List HistoryRecord) :
    Chained (some cursor) (chainTransitions cursor chain) := by
  induction chain generalizing cursor with
  | nil => trivial
  | cons record rest ih =>
    have hrest := ih { cursor with commitVersion := record.toVersion }
    unfold chainTransitions
    cases record.change <;> exact ⟨by simp [Follows], hrest⟩

theorem kept_chain {chain : List HistoryRecord} :
    ∀ transition ∈ chainTransitions cursor chain, ¬ Revokes transition := by
  induction chain generalizing cursor with
  | nil => simp [chainTransitions]
  | cons record rest ih =>
    intro transition hmem
    rcases mem_cons.1 hmem with rfl | hmem
    · cases record.change <;> exact id
    · exact ih transition hmem

/-- The versions of a chain lie above the first and rise up to the last. -/
theorem chain_versions {cursor : SubscriptionCursor} {chain : List HistoryRecord} {version last : Nat}
    (hchain : TransitionHistory.Contiguous version chain last)
    (hadvances : ∀ record ∈ chain, record.fromVersion < record.toVersion) :
    Rising (chainTransitions cursor chain) ∧
      ∀ transition ∈ chainTransitions cursor chain,
        version < transition.target.commitVersion ∧ transition.target.commitVersion ≤ last := by
  induction hchain generalizing cursor with
  | single record =>
    have hstep := hadvances record mem_cons_self
    refine ⟨pairwise_singleton _ _, fun transition hmem => ?_⟩
    rw [chainTransitions, chainTransitions, mem_singleton] at hmem
    subst hmem
    cases record.change <;> exact ⟨hstep, le_rfl⟩
  | cons record hrest hlt ih =>
    have hstep := hadvances record mem_cons_self
    obtain ⟨hrising, hbounds⟩ := @ih { cursor with commitVersion := record.toVersion }
      fun other hother => hadvances other (mem_cons_of_mem _ hother)
    have hhead : ∀ transition, transition ∈ (chainTransitions cursor [record]) →
        transition.target.commitVersion = record.toVersion := by
      intro transition hmem
      rw [chainTransitions, chainTransitions, mem_singleton] at hmem
      subst hmem
      cases record.change <;> rfl
    have hsplit : ∀ rest, chainTransitions cursor (record :: rest) =
        chainTransitions cursor [record] ++
          chainTransitions { cursor with commitVersion := record.toVersion } rest := fun _ => rfl
    rw [hsplit]
    refine ⟨pairwise_append.2 ⟨pairwise_singleton _ _, hrising, ?_⟩, ?_⟩
    · intro a ha b hb
      rw [hhead a ha]
      exact (hbounds b hb).1.le
    intro transition hmem
    rcases mem_append.1 hmem with hmem | hmem
    · rw [hhead transition hmem]
      exact ⟨hstep, hlt.le⟩
    · obtain ⟨habove, hbelow⟩ := hbounds transition hmem
      exact ⟨hstep.trans habove, hbelow⟩

/-- A transition that states the whole outcome may come after anything older. -/
theorem Good.state {before : Option SubscriptionCursor} {version : Nat}
    {a : List SubscriptionTransition} (h : Good before version a)
    (hkept : ∀ transition ∈ a, ¬ Revokes transition) {stated : SubscriptionTransition}
    (hfollows : ∀ before, Follows before stated)
    (hversion : stated.target.commitVersion = version) : Good before version (a ++ [stated]) :=
  h.concat (hfollows _) (hversion ▸ h.bounded hkept) hversion.le

theorem statement_follows (entry : QueryEntry) (authEpoch : Nat)
    (source before : Option SubscriptionCursor) : Follows before (entry.statement authEpoch source) := by
  unfold QueryEntry.statement
  split <;> trivial

theorem statement_target (entry : QueryEntry) (authEpoch : Nat)
    (source : Option SubscriptionCursor) :
    (entry.statement authEpoch source).target = entry.cursor authEpoch := by
  unfold QueryEntry.statement
  split <;> rfl

/-- What a delivery chooses from the cursor of a ready listener continues its line. -/
theorem deliverQuery_good {history : TransitionHistory} {entry : QueryEntry}
    (positiveResume forceReset : Bool)
    (hrecords : ∀ e, ∀ record ∈ history.streams e, record.fromVersion < record.toVersion)
    (hgood : Good listener.resumeCursor entry.commitVersion listener.line)
    (hkept : ∀ transition ∈ listener.line, ¬ Revokes transition)
    (hsettled : listener.cursor = none ∨ Settled listener) :
    (∀ transition ∈ deliverQuery history listener.entry entry listener.authEpoch listener.cursor
      positiveResume forceReset, ¬ Revokes transition) ∧
    Good listener.resumeCursor entry.commitVersion (listener.line ++
      deliverQuery history listener.entry entry listener.authEpoch listener.cursor positiveResume
        forceReset) := by
  have hstated : Good listener.resumeCursor entry.commitVersion
      (listener.line ++ [entry.statement listener.authEpoch listener.cursor]) := by
    refine hgood.state hkept (statement_follows entry _ _) ?_
    rw [statement_target]
    rfl
  have hstatedKept : ¬ Revokes (entry.statement listener.authEpoch listener.cursor) := by
    unfold QueryEntry.statement
    split <;> exact id
  unfold deliverQuery
  dsimp only
  split
  · rename_i hsame
    split
    · have hresume := hsettled.resolve_left (by rw [hsame]; simp)
      have hlast := hresume.cursor.symm.trans hsame
      refine ⟨by simp [Revokes], ?_⟩
      rw [hresume.line] at hgood ⊢
      exact hgood.concat hlast (hgood.rising.le_last hlast) le_rfl
    · rw [append_nil]
      exact ⟨by simp, hgood⟩
  cases hchain : resumeChain history listener.entry entry listener.authEpoch listener.cursor
      forceReset with
  | none =>
    simp only [forall_mem_singleton]
    exact ⟨hstatedKept, hstated⟩
  | some found =>
    obtain ⟨hcursor, -, -, hfound⟩ := resumeChain_eq_some hchain
    obtain ⟨-, hcontiguous, hmem⟩ := TransitionHistory.chain_spec hfound
    have hresume := hsettled.resolve_left (by rw [hcursor]; simp)
    have hlast := hresume.cursor.symm.trans hcursor
    obtain ⟨hrising, hbounds⟩ := @chain_versions found.1 found.2 _ _ hcontiguous
      fun record hrecord => hrecords _ record (hmem record hrecord)
    refine ⟨kept_chain, ?_⟩
    rw [hresume.line] at hgood ⊢
    refine hgood.append ?_ hrising ?_ fun y hy => (hbounds y hy).2
    · rw [hlast]
      exact chained_chain _ _
    · intro x hx y hy
      exact (hgood.rising.le_last hlast x hx).trans (hbounds y hy).1.le

/-! ## The lines of a state -/

/-- The sends of a state are in line. -/
structure Lined (s : State) : Prop where
  links : Links s
  dated : Dated s
  lines : Lines s.outbox fun e => (s.entries e).commitVersion

/-- The same sends, whatever generations were drawn. -/
def SameSends (s t : State) : Prop :=
  t.outbox = { s.outbox with generations := t.outbox.generations }

theorem lined_initial (options : ReactiveOptions) : Lined (initial options) :=
  ⟨links_initial options, dated_initial options, lines_initial _⟩

variable {outbox : Outbox} {task : Nat} {now : Int}

section Changes

variable {options : ReactiveOptions} {event : Event} {s t u : State}

variable {l c : Nat}

theorem SameSends.refl (s : State) : SameSends s s := rfl

theorem SameSends.of_eq (h : t.outbox = s.outbox) : SameSends s t := by
  unfold SameSends
  rw [h]

theorem SameSends.trans (h : SameSends s t) (h' : SameSends t u) : SameSends s u := by
  unfold SameSends at h h' ⊢
  rw [h', h]

theorem Links.changes (h : Links s) (hchanges : Changes options event s t) : Links t := by
  induction hchanges with
  | refl => exact h
  | tail _ hlast ih => exact ih.change hlast

/-- A part of a turn without sends. -/
theorem Lined.quiet (h : Lined s) (hchanges : Changes options event s t) (hsame : SameSends s t) :
    Lined t := by
  obtain ⟨hdated, hgrows⟩ := h.dated.changes hchanges
  have hlater : Lines s.outbox fun e => (t.entries e).commitVersion :=
    h.lines.mono fun l hl => hgrows.version _ (h.links.known l hl)
  refine ⟨h.links.changes hchanges, hdated, ?_⟩
  rw [hsame]
  exact { hlater with }

theorem Lined.bare (h : Lined s) (hbare : Bare options event s t) : Lined t :=
  h.quiet hbare.changes hbare.outbox

/-- The calls in progress are no part of it. -/
theorem Lined.setCalls (h : Lined s) (evaluations : Nat → Evaluation) (evaluationCount : Nat)
    (calls : List SubscribeCall) (convergences : List Convergence) (reports : List Report) :
    Lined { s with evaluations, evaluationCount, calls, convergences, reports } :=
  ⟨{ h.links with },
    { h.dated with }, h.lines⟩

theorem detachEvent_outbox (s : State) (m : Nat) : (s.detachEvent m).outbox = s.outbox := by
  unfold State.detachEvent
  dsimp only
  split <;> rfl

/-- The changes of the turns that do not send. -/
theorem sameSends_of_change (hquiet : ¬ event.Sends) (hchange : Change options event s t) :
    SameSends s t := by
  cases hchange with
  | attach _ _ hsends => exact absurd hsends hquiet
  | deliver _ _ _ hsends => exact absurd hsends hquiet
  | reset _ _ _ hevent =>
    subst hevent
    exact absurd trivial hquiet
  | tell _ _ _ _ _ hsends => exact absurd hsends hquiet
  | sent _ _ hsends => exact absurd hsends hquiet
  | sendFailed _ _ hsends => exact absurd hsends hquiet
  | resumeDelivery _ _ hsends => exact absurd hsends hquiet
  | detach l now => exact .of_eq (detach_kept s l now).1
  | detachEvent m => exact .of_eq (detachEvent_outbox s m)
  | _ => rfl

theorem sameSends_of_changes (hquiet : ¬ event.Sends) (hchanges : Changes options event s t) :
    SameSends s t := by
  induction hchanges with
  | refl => exact .refl s
  | tail _ hlast ih => exact ih.trans (sameSends_of_change hquiet hlast)

/-! ## The turns that send -/

theorem SameSends.ready (h : SameSends s t) (hready : Ready s.outbox l) :
    Ready t.outbox l := by
  rw [h]
  exact ⟨hready.clear, hready.kept, hready.settled⟩

theorem SameSends.closable (h : SameSends s t) (hclosable : Closable s.outbox l) :
    Closable t.outbox l := by
  rw [h]
  exact ⟨hclosable.clear, hclosable.settled⟩

/-- Nothing in the line of a listener revokes it. -/
theorem Lines.kept {version : Nat → Nat} (h : Lines outbox version)
    (hhanded : ∀ transition ∈ (outbox.listeners l).handed, ¬ Revokes transition) :
    ∀ transition ∈ (outbox.listeners l).line, ¬ Revokes transition := by
  intro transition hmem
  exact (mem_append.1 hmem).elim (hhanded transition) ((h.plain l).kept transition)

theorem Lined.setOutbox (h : Lined s) (hsame : outbox.SameListeners s.outbox)
    (hlines : Lines outbox fun e => (s.entries e).commitVersion) : Lined { s with outbox } where
  links := h.links.setOutbox hsame
  dated := { h.dated with }
  lines := hlines

theorem Lined.deliverTo (h : Lined s) (hl : l < s.outbox.listenerCount) (hready : Ready s.outbox l)
    (positiveResume forceReset : Bool) :
    Lined (s.deliverTo options l positiveResume forceReset) := by
  obtain ⟨hkept, hgood⟩ := deliverQuery_good positiveResume forceReset h.dated.record
    (h.lines.line l hl) (h.lines.kept hready.kept) hready.settled
  exact h.setOutbox (sameListeners_begin _ _ _) (h.lines.begin hl hready.clear hkept hgood)

theorem begin_others (outbox : Outbox) (transitions : List SubscriptionTransition) {l other : Nat}
    (h : other ≠ l) :
    (begin options outbox l transitions).listeners other = outbox.listeners other := by
  cases transitions with
  | nil => rfl
  | cons => exact enqueue_others _ _ h

theorem begin_deliveries (outbox : Outbox) (l : Nat) (transitions : List SubscriptionTransition) :
    ∃ delivery : Delivery, delivery.listener = l ∧
      (begin options outbox l transitions).deliveries =
        update outbox.deliveries outbox.deliveryCount delivery := by
  cases transitions with
  | nil => exact ⟨_, rfl, rfl⟩
  | cons => exact ⟨_, rfl, enqueue_deliveries _ _ _⟩

/-- A delivery to one listener leaves the others ready. -/
theorem Ready.begin (h : Ready outbox other) (hne : other ≠ l)
    (transitions : List SubscriptionTransition) :
    Ready (begin options outbox l transitions) other := by
  obtain ⟨delivery, hlistener, hdeliveries⟩ := @begin_deliveries options outbox l transitions
  have hsame := @begin_others options outbox transitions l other hne
  refine ⟨?_, hsame ▸ h.kept, hsame ▸ h.settled⟩
  intro d hd
  rw [hdeliveries] at hd ⊢
  by_cases hnew : d = outbox.deliveryCount
  · subst hnew
    rw [update_self, hlistener] at hd
    exact absurd hd.symm hne
  · rw [update_of_ne hnew] at hd ⊢
    exact h.clear d hd

section

variable (h : Lined s)

include h

theorem Lined.deliverInstalled (e : Nat) (forceReset : Bool)
    (hready : ∀ l ∈ (s.entries e).listeners, Ready s.outbox l) :
    Lined (s.deliverInstalled options e forceReset).1 := by
  have hknown : ∀ l ∈ (s.entries e).listeners, l < s.outbox.listenerCount :=
    fun l hl => (h.links.queries.listed e l hl).1
  have hdistinct : (s.entries e).listeners.Nodup := h.links.queries.distinct e
  unfold State.deliverInstalled
  generalize (s.entries e).listeners = listeners at hready hknown hdistinct ⊢
  induction listeners generalizing s with
  | nil => exact h
  | cons l rest ih =>
    obtain ⟨hnot, hrest⟩ := nodup_cons.1 hdistinct
    have hcount := (@sameListeners_begin options s.outbox l
      (deliverQuery s.history (s.outbox.listeners l).entry
        (s.entries (s.outbox.listeners l).entry) (s.outbox.listeners l).authEpoch
        (s.outbox.listeners l).cursor false forceReset)).count
    refine ih (h.deliverTo (hknown l mem_cons_self) (hready l mem_cons_self) _ _)
      (fun other hother => ?_) (fun other hother => ?_) hrest
    · refine (hready other (mem_cons_of_mem _ hother)).begin ?_ _
      rintro rfl
      exact hnot hother
    · show other < (begin options s.outbox l _).listenerCount
      rw [hcount]
      exact hknown other (mem_cons_of_mem _ hother)

/-! ### Reports -/

theorem Lined.tellQuery (r l : Nat) (report : Report) (rest : List Binding) (now : Int)
    (hclosable : report.kind ≠ .error → Closable s.outbox l) :
    Lined (s.tellQuery options r l report rest now) := by
  have hbare : Bare options .close s (s.reportDetach report.kind l now) :=
    .retires (.reportDetach s report.kind l now)
  have hdetached := h.bare hbare
  have hsame : SameSends s (s.reportDetach report.kind l now) := hbare.outbox
  unfold State.tellQuery
  generalize s.reportDetach report.kind l now = detached at hdetached hsame ⊢
  have htold : Lines (detached.outbox.beginSend options l
      (State.reportSend report.kind report.outcome (detached.outbox.listeners l)))
      fun e => (detached.entries e).commitVersion := by
    cases hkind : report.kind with
    | error => exact hdetached.lines.sendError l _
    | revocation | rotation =>
      exact hdetached.lines.sendRevocation (hsame.closable (hclosable (by simp [hkind]))) _ _
  have hsent := hdetached.setOutbox (sameListeners_beginSend _ _ _) htold
  exact hsent.setCalls _ _ _ _ _

omit h in
theorem Lined.tellEvent (options : ReactiveOptions) (h : Lined s) {r m : Nat} {report : Report}
    (rest : List Binding) (hreport : s.reports[r]? = some report) : Lined (s.tellEvent r m report rest) := by
  have hchanges : Changes options .close s (s.tellEvent r m report rest) :=
    Changes.tellEvent rest hreport
  exact h.quiet hchanges (.of_eq (detachEvent_outbox s m))

theorem Lined.reportNext (r : Nat) (now : Int)
    (hclosable : ∀ report, s.reports[r]? = some report → report.kind ≠ .error →
      ∀ l rest, report.left = .query l :: rest → Closable s.outbox l) :
    Lined (s.reportNext options r now) := by
  unfold State.reportNext
  split
  · rename_i report hreport
    split
    · rename_i l rest hleft
      exact h.tellQuery r l report rest now fun hkind => hclosable report hreport hkind l rest hleft
    · exact h.tellEvent options _ hreport
    · exact h
  · exact h

theorem Lined.report {kind : ReportKind} (outcome : Outcome) (listeners : List Binding) (now : Int)
    (hclosable : kind ≠ .error → ∀ l rest, listeners = .query l :: rest → Closable s.outbox l) :
    Lined (s.report options kind outcome listeners now) := by
  have hadded : Lined { s with
      reports := s.reports ++ [{ kind, outcome, left := listeners, waiting := none }] } :=
    h.setCalls _ _ _ _ _
  refine hadded.reportNext _ now ?_
  intro report hreport hkind l rest hleft
  simp only [getElem?_concat_length, Option.some.injEq] at hreport
  subst hreport
  exact hclosable hkind l rest hleft

theorem Lined.failEntry (e : Nat) (error : Thrown)
    (hclosable : isAuthFailure (errorOutcome error) = true →
      ∀ l ∈ (s.entries e).listeners, Closable s.outbox l) :
    Lined (s.failEntry options e error).1 := by
  unfold State.failEntry
  split
  · exact h
  have hbare : Bare options .close s (s.removeEntry e) := .retires (.removeEntry s e)
  have hsame : SameSends s (s.removeEntry e) := hbare.outbox
  refine (h.bare hbare).report _ _ 0 ?_
  intro hkind l rest hlisteners
  have hmem : Binding.query l ∈ (s.entries e).listeners.map Binding.query := by
    rw [hlisteners]
    exact mem_cons_self
  obtain ⟨l', hl', heq⟩ := mem_map.1 hmem
  cases heq
  refine hsame.closable (hclosable ?_ l hl')
  by_contra hauth
  exact hkind (by simp [hauth])

/-! ### Evaluations -/

theorem Lined.afterInstall (task : Nat) (outcome : State.InstallOutcome)
    (hready : ∀ l ∈ (s.entries (s.evaluations task).entry).listeners, Ready s.outbox l) :
    Lined (s.afterInstall options task outcome) := by
  unfold State.afterInstall
  split
  · exact h.setCalls _ _ _ _ _
  · exact (h.report _ _ 0 (absurd rfl)).setCalls _ _ _ _ _
  · exact h.setCalls _ _ _ _ _
  · exact (h.deliverInstalled _ _ hready).setCalls _ _ _ _ _

theorem Lined.installEvaluation {task e : Nat} {result : Result}
    {readSet : List String} {commitVersion : Nat} {evaluation : QueryEvaluation} (now : Int)
    (htask : (s.evaluations task).entry = e)
    (hrunning : (s.evaluations task).phase = .running (s.entries e).evaluationGeneration)
    (hencoded : encodeExecution result readSet commitVersion = .ok evaluation)
    (hversion : commitVersion = s.highWater) (hlive : (s.entries e).removed = false) :
    Lined (s.installEvaluation options e evaluation now).1 ∧
      SameSends s (s.installEvaluation options e evaluation now).1 ∧
      ∀ l ∈ ((s.installEvaluation options e evaluation now).1.entries e).listeners,
        l ∈ (s.entries e).listeners := by
  have hchanges : Changes options .close s
      ((s.installEvaluation options e evaluation now).1.setPhase task (.delivering [])) :=
    Changes.installEvaluation now htask hrunning hencoded hversion hlive
  suffices hrest : SameSends s (s.installEvaluation options e evaluation now).1 ∧
      ∀ l ∈ ((s.installEvaluation options e evaluation now).1.entries e).listeners,
        l ∈ (s.entries e).listeners by
    have hended := h.quiet hchanges (hrest.1.trans rfl)
    exact ⟨hended.setCalls _ _ _ _ _, hrest⟩
  have hretires := Retires.makeResultCapacity options s e (options.byteLength evaluation.encoded)
  have hroom : Bare options .close s _ := .retires hretires
  have hlisteners := hretires.listeners e
  unfold State.installEvaluation
  dsimp only
  split <;> rename_i heq <;> rw [heq] at hroom hlisteners
  · rename_i room message
    have hremoved : Bare options .close room (room.removeEntry e) :=
      .retires (.removeEntry room e)
    exact ⟨SameSends.trans hroom.outbox hremoved.outbox,
      fun l hl => hlisteners l (Retires.listeners (.removeEntry room e) e l hl)⟩
  · refine ⟨SameSends.trans hroom.outbox rfl, fun l hl => hlisteners l ?_⟩
    simp only [update_self] at hl
    rwa [(installResult_kept _ _ _ _ _ _ _ _).1] at hl

theorem Lined.evaluated {result : Result} {readSet : List String} {commitVersion : Nat}
    (hready : commitVersion = s.highWater →
      ∀ l ∈ (s.entries (s.evaluations task).entry).listeners, Ready s.outbox l)
    (hstep : s.evaluated options task result readSet commitVersion now = some t) : Lined t := by
  obtain ⟨_, hphase, ⟨error, rfl⟩ | rfl | ⟨evaluation, hencoded, hversion, hlive, rfl, rfl⟩⟩ :=
    evaluated_cases hstep
  · exact h.setCalls _ _ _ _ _
  · have hclose : Bare options .close s (s.closeEvaluation task) := .closeEvaluation s task
    exact h.bare hclose
  obtain ⟨hinstalled, hsame, hlisteners⟩ := @Lined.installEvaluation options s h task _ _ _
    _ _ now rfl hphase hencoded hversion hlive
  refine hinstalled.afterInstall task _ fun l hl => ?_
  rw [installEvaluation_evaluations] at hl
  exact hsame.ready (hready hversion l (hlisteners l hl))

theorem Lined.catchEvaluation
    (hclosable : ∀ error, (s.evaluations task).phase = .threw error →
      isAuthFailure (errorOutcome error) = true →
      ∀ l ∈ (s.entries (s.evaluations task).entry).listeners, Closable s.outbox l)
    (hstep : s.catchEvaluation options task = some t) : Lined t := by
  have hremoved : Lined (s.removeEntry (s.evaluations task).entry) := by
    have hbare : Bare options .close s (s.removeEntry (s.evaluations task).entry) :=
      .retires (.removeEntry s _)
    exact h.bare hbare
  obtain ⟨error, hphase, rfl | rfl | ⟨failed, report, heq, rfl⟩⟩ := catchEvaluation_cases hstep
  · exact hremoved.setCalls _ _ _ _ _
  · exact hremoved.setCalls _ _ _ _ _
  have hfailed := @Lined.failEntry options s h (s.evaluations task).entry error
    (hclosable error hphase)
  rw [heq] at hfailed
  exact hfailed.setCalls _ _ _ _ _

/-! ### Subscriptions -/

/-- A part of a turn that cannot send. -/
theorem Lined.still (hchanges : Changes options .close s t) : Lined t :=
  h.quiet hchanges (sameSends_of_changes id hchanges)

theorem Lined.establish {call : SubscribeCall} (hcall : s.calls[c]? = some call)
    (hfree : s.identityFree call.subscriber call.id = true)
    (hlive : (s.entries call.entry).removed = false) :
    Lined (s.establish options c call) := by
  have hattached : Lined (s.attach call.listener) := by
    have hchanges : Changes options (.resumeSubscribe c 0) s (s.attach call.listener) :=
      .of (.attach s c call trivial hcall hfree hlive)
    obtain ⟨hdated, hgrows⟩ := h.dated.changes hchanges
    have hlater : Lines s.outbox fun e => ((s.attach call.listener).entries e).commitVersion :=
      h.lines.mono fun l hl => hgrows.version _ (h.links.known l hl)
    exact ⟨h.links.changes hchanges, hdated, hlater.addListener call.listener rfl rfl⟩
  have hready : Ready (s.attach call.listener).outbox s.outbox.listenerCount := by
    refine ⟨?_, ?_, ?_⟩
    · intro d hd
      by_contra hne
      exact Nat.ne_of_lt (h.lines.rest d hne).1 hd
    · simp [State.attach, addListener, SubscribeCall.listener]
    · right
      constructor <;> simp [State.attach, addListener, SubscribeCall.listener, lastTarget]
  exact (hattached.deliverTo (Nat.lt_succ_self _) hready true false).setCalls _ _ _ _ _

theorem Lined.resumeSubscribe (hstep : s.resumeSubscribe options c now = some t) : Lined t := by
  obtain ⟨call, hcall, hcases⟩ := resumeSubscribe_cases hstep
  have hself : call.SameRequest call := ⟨rfl, rfl, rfl, rfl⟩
  rcases hcases with rfl | rfl | rfl | ⟨hfree, hlive, rfl⟩
  · have hrejected : Changes options .close s (s.rejectCall c call) :=
      Changes.rejectCall hcall hself
    exact h.still hrejected
  · have hentered : Changes options .close s (s.enterCall options c call now) :=
      Changes.enterCall now hcall hself
    exact h.still hentered
  · have hawaits : Changes options .close s (s.awaitCurrent c call) :=
      Changes.awaitCurrent hcall hself
    exact h.still hawaits
  · exact h.establish hcall hfree hlive

/-! ### Convergence -/

theorem Lined.convergeNext {convergence : Convergence}
    (hminimum : Timely s → convergence.minimumVersion ≤ s.highWater)
    (hready : ∀ id l, (s.bySubscriber convergence.subscriber).lookup id = some (.query l) →
      Ready s.outbox l) (hstep : s.convergeNext options c convergence = some t) : Lined t := by
  obtain ⟨u, next, _, rfl, ⟨e, _, rfl⟩ | ⟨e, hlive, rfl⟩ | ⟨id, l, hlookup, rfl⟩⟩ :=
    convergeNext_cases hstep
  · have hraised := @Bare.convergeRaised options .close s e _ hminimum
    exact (h.bare hraised).setCalls _ _ _ _ _
  · have hensured := @Bare.convergeEntry options .close s e _ hminimum hlive
    exact (h.bare hensured).setCalls _ _ _ _ _
  · have hknown := (h.links.queries.found (convergence.subscriber, id) l hlookup).1
    exact (h.deliverTo hknown (hready id l hlookup) false false).setCalls _ _ _ _ _

theorem Lined.resumeConverge
    (hready : ∀ convergence, s.convergences[c]? = some convergence → ∀ id l,
      (s.bySubscriber convergence.subscriber).lookup id = some (.query l) → Ready s.outbox l)
    (hclosable : ∀ convergence e task error, s.convergences[c]? = some convergence →
      convergence.wait = .evaluation e task →
      (s.evaluations task).phase = .settled (some error) →
      isAuthFailure (errorOutcome error) = true →
      ∀ l ∈ (s.entries e).listeners, Closable s.outbox l)
    (hstep : s.resumeConverge options c = some t) : Lined t := by
  obtain ⟨convergence, hfound, hnext | ⟨e, task, error, failed, _, wait, hwait, hsettled, heq, rfl⟩⟩ :=
    resumeConverge_cases hstep
  · exact h.convergeNext (fun htimely => htimely.converging convergence (mem_of_getElem? hfound))
      (hready convergence hfound) hnext
  have hfailed := @Lined.failEntry options s h e error
    (hclosable convergence e task error hfound hwait hsettled)
  rw [heq] at hfailed
  exact hfailed.setCalls _ _ _ _ _

theorem Lined.converge (subscriber minimumVersion : Nat)
    (hready : ∀ id l, (s.bySubscriber subscriber).lookup id = some (.query l) →
      Ready s.outbox l) :
    Lined (s.converge options subscriber minimumVersion) := by
  unfold State.converge
  split
  · exact h
  rename_i hversion
  dsimp only
  have hcalled : Lined (s.addConvergence (s.convergenceFor subscriber minimumVersion)) :=
    h.setCalls _ _ _ _ _
  cases hnext : (s.addConvergence (s.convergenceFor subscriber minimumVersion)).convergeNext
      options s.convergences.length (s.convergenceFor subscriber minimumVersion) with
  | none => exact hcalled
  | some t =>
    refine hcalled.convergeNext (fun _ => ?_) ?_ hnext
    · exact not_lt.1 hversion
    · exact hready

/-! ### Resets and revocations -/

theorem Lined.reset (subscriber id : Nat) (source : SubscriptionCursor)
    (hready : ∀ l, (s.bySubscriber subscriber).lookup id = some (.query l) →
      Clear s.outbox l ∧ ∀ transition ∈ (s.outbox.listeners l).handed, ¬ Revokes transition) :
    Lined (s.reset options subscriber id source) := by
  unfold State.reset
  split
  · exact h
  · exact h
  rename_i l hlookup
  obtain ⟨hclear, hhanded⟩ := hready l hlookup
  have hknown : l < s.outbox.listenerCount :=
    (h.links.queries.found (subscriber, id) l hlookup).1
  have hkept := h.lines.kept hhanded
  refine h.setOutbox (sameListeners_begin _ _ _) (h.lines.begin hknown hclear ?_ ?_)
  · unfold resetTransition
    simp [Revokes]
  · exact (h.lines.line l hknown).state hkept (fun _ => trivial) rfl

theorem Lined.endBindings (subscriber nextAuthEpoch : Nat) (kind : ReportKind)
    (outcome : Outcome) (now : Int)
    (hclosable : ∀ l, .query l ∈ (s.bySubscriber subscriber).map Prod.snd →
      Closable s.outbox l) :
    Lined (s.endBindings options subscriber nextAuthEpoch kind outcome now) := by
  unfold State.endBindings
  dsimp only
  split
  · exact h
  refine h.report _ _ now ?_
  intro _ l rest hlisteners
  apply hclosable
  rw [hlisteners]
  exact mem_cons_self

end

end Changes

/-! ## Runs -/

/-- **Deliveries that do not get in each other's way.**  When one begins, the listener has no
cursor yet or everything handed to it has arrived, and no earlier delivery has transitions left;
and nothing is delivered to a listener that was revoked. -/
def Orderly (s : State) : Event → Prop
  | .evaluated task _ _ commitVersion _ => commitVersion = s.highWater →
      ∀ l ∈ (s.entries (s.evaluations task).entry).listeners, Ready s.outbox l
  | .converge subscriber _ => ∀ id l,
      (s.bySubscriber subscriber).lookup id = some (.query l) → Ready s.outbox l
  | .resumeConverge c => ∀ convergence, s.convergences[c]? = some convergence →
      (∀ id l, (s.bySubscriber convergence.subscriber).lookup id = some (.query l) →
        Ready s.outbox l) ∧
      ∀ e task error, convergence.wait = .evaluation e task →
        (s.evaluations task).phase = .settled (some error) →
        isAuthFailure (errorOutcome error) = true →
        ∀ l ∈ (s.entries e).listeners, Closable s.outbox l
  | .reset subscriber id _ => ∀ l, (s.bySubscriber subscriber).lookup id = some (.query l) →
      Clear s.outbox l ∧ ∀ transition ∈ (s.outbox.listeners l).handed, ¬ Revokes transition
  | .revoke subscriber _ _ _ => ∀ l,
      .query l ∈ (s.bySubscriber subscriber).map Prod.snd → Closable s.outbox l
  | .rotateAuth subscriber _ _ => ∀ l,
      .query l ∈ (s.bySubscriber subscriber).map Prod.snd → Closable s.outbox l
  | .resumeReport r _ => ∀ report, s.reports[r]? = some report → report.kind ≠ .error →
      ∀ l rest, report.left = .query l :: rest → Closable s.outbox l
  | .catchEvaluation task => ∀ error, (s.evaluations task).phase = .threw error →
      isAuthFailure (errorOutcome error) = true →
      ∀ l ∈ (s.entries (s.evaluations task).entry).listeners, Closable s.outbox l
  | _ => True

theorem Lined.step {options : ReactiveOptions} {s t : State} {event : Event} (h : Lined s)
    (horderly : Orderly s event) (hstep : Reactive.step options s event = some t) : Lined t := by
  have hchanges := step_changes hstep
  cases event with
  | resumeSubscribe => exact h.resumeSubscribe hstep
  | reset subscriber id source =>
    cases hstep
    exact h.reset subscriber id source horderly
  | converge subscriber minimumVersion =>
    cases hstep
    exact h.converge subscriber minimumVersion horderly
  | resumeConverge =>
    refine h.resumeConverge (fun convergence hfound => (horderly convergence hfound).1) ?_ hstep
    intro convergence e task error hfound
    exact (horderly convergence hfound).2 e task error
  | revoke subscriber nextAuthEpoch outcome now =>
    cases hstep
    exact h.endBindings subscriber nextAuthEpoch _ outcome now horderly
  | rotateAuth subscriber nextAuthEpoch now =>
    cases hstep
    exact h.endBindings subscriber nextAuthEpoch _ _ now horderly
  | resumeReport report now =>
    simp only [Reactive.step, State.resumeReport] at hstep
    split at hstep
    · split at hstep <;> cases hstep
      exact h.reportNext report now horderly
    · cases hstep
  | evaluated => exact h.evaluated horderly hstep
  | catchEvaluation => exact h.catchEvaluation horderly hstep
  | sent =>
    simp only [Reactive.step, Option.map_eq_some_iff] at hstep
    obtain ⟨outbox, houtbox, rfl⟩ := hstep
    exact h.setOutbox (sameListeners_sent houtbox) (h.lines.sent houtbox)
  | sendFailed =>
    simp only [Reactive.step, Option.map_eq_some_iff] at hstep
    obtain ⟨outbox, houtbox, rfl⟩ := hstep
    exact h.setOutbox (sameListeners_sendFailed houtbox) (h.lines.sendFailed houtbox)
  | resumeDelivery =>
    simp only [Reactive.step, Option.map_eq_some_iff] at hstep
    obtain ⟨outbox, houtbox, rfl⟩ := hstep
    exact h.setOutbox (sameListeners_resume houtbox) (h.lines.resume houtbox)
  | _ => exact h.quiet hchanges (sameSends_of_changes id hchanges)

/-- **What is handed to a subscriber is a chain**, in every state of a run of deliveries that do
not get in each other's way. -/
theorem handed_chained {options : ReactiveOptions} {s : State}
    (hreach : Run.Reachable (step options) Orderly (initial options) s) {l : Nat}
    (hl : l < s.outbox.listenerCount) :
    Chained (s.outbox.listeners l).resumeCursor (s.outbox.listeners l).handed ∧
      Rising (s.outbox.listeners l).handed := by
  have hlined := hreach.induct (lined_initial options)
    fun s event t _ h horderly hstep => h.step horderly hstep
  obtain ⟨hchained, hrising, -⟩ := hlined.lines.line l hl
  exact ⟨(chained_append.1 hchained).1, (pairwise_append.1 hrising).1⟩

/-- The cursor a second subscriber resumes from. -/
def firstCursor : SubscriptionCursor := ⟨"g0", 0, 0, "notes"⟩

/-- A subscriber leaves, the query changes, and another subscriber resumes. -/
def resumingRun : List Event :=
  [.subscribeQuery 1 1 "notes.list" .null "" 0 none 0, .startEvaluation 0,
    .evaluated 0 (.ok (.bool true)) ["notes"] 0 0, .finishEvaluation 0, .release 0 0,
    .resumeSubscribe 0 0, .sent 0, .unsubscribe 1 1 0, .reserve 1 0, .commit ["notes"], .publish,
    .startEvaluation 1, .evaluated 1 (.ok (.bool false)) ["notes"] 1 0, .finishEvaluation 1,
    .release 1 0, .subscribeQuery 2 1 "notes.list" .null "" 0 (some firstCursor) 0,
    .resumeSubscribe 1 0, .sent 1]

/-- Nobody listens when an evaluation ends. -/
def unobserved (s : State) : Event → Bool
  | .evaluated task _ _ _ _ => (s.entries (s.evaluations task).entry).listeners.isEmpty
  | .converge _ _ | .resumeConverge _ | .reset _ _ _ | .revoke _ _ _ _ | .rotateAuth _ _ _
  | .resumeReport _ _ | .catchEvaluation _ => false
  | _ => true

theorem unobserved_orderly (s : State) (event : Event) (h : unobserved s event = true) :
    Orderly s event := by
  cases event with
  | evaluated =>
    intro _ l hl
    rw [isEmpty_iff.1 h] at hl
    cases hl
  | converge | resumeConverge | reset | revoke | rotateAuth | resumeReport | catchEvaluation =>
    cases h
  | _ => trivial

theorem handed_chained_resuming :
    ∃ s : State, (s.outbox.listeners 1).handed =
        [.update firstCursor { firstCursor with commitVersion := 1 } (.bool false)] ∧
      Chained (s.outbox.listeners 1).resumeCursor (s.outbox.listeners 1).handed ∧
      Rising (s.outbox.listeners 1).handed := by
  have hcomputed : (Run.run (step sampleOptions) (initial sampleOptions) resumingRun).map
      (fun s => (s.outbox.listenerCount, (s.outbox.listeners 1).handed)) =
      some (2, [.update firstCursor { firstCursor with commitVersion := 1 } (.bool false)]) := by
    decide +kernel
  have hchecks : Run.checks (step sampleOptions) unobserved (initial sampleOptions)
      resumingRun = true := by
    decide +kernel
  obtain ⟨s, hrun, hfields⟩ := Option.map_eq_some_iff.1 hcomputed
  simp only [Prod.mk.injEq] at hfields
  have hreach := Run.Reachable.refl.run (Run.guarded_of_checks unobserved_orderly hchecks) hrun
  exact ⟨s, hfields.2, handed_chained hreach (by omega)⟩

/-- One subscriber sees two versions; another asks to resume from the first, and while its first
transition is on the way a third version is evaluated. -/
def overlappingRun : List Event :=
  [.subscribeQuery 1 1 "notes.list" .null "" 0 none 0, .startEvaluation 0,
    .evaluated 0 (.ok (.bool true)) ["notes"] 0 0, .finishEvaluation 0, .release 0 0,
    .resumeSubscribe 0 0, .sent 0, .reserve 1 0, .commit ["notes"], .publish, .startEvaluation 1,
    .evaluated 1 (.ok (.bool false)) ["notes"] 1 0, .sent 0, .finishEvaluation 1, .release 1 0,
    .subscribeQuery 2 1 "notes.list" .null "" 0 (some firstCursor) 0, .resumeSubscribe 1 0,
    .reserve 1 0, .commit ["notes"], .publish, .startEvaluation 2,
    .evaluated 2 (.ok (.bool true)) ["notes"] 2 0, .sent 1]

/-- The first version is handed over twice. -/
theorem overlapping_deliveries_repeat :
    ∃ s, Run.Reachable (step sampleOptions) (fun _ _ => True) (initial sampleOptions) s ∧
      1 < s.outbox.listenerCount ∧
      ¬ Chained (s.outbox.listeners 1).resumeCursor (s.outbox.listeners 1).handed := by
  have hcomputed : (Run.run (step sampleOptions) (initial sampleOptions) overlappingRun).map
      (fun s => (s.outbox.listenerCount, (s.outbox.listeners 1).handed)) =
      some (2, [.update firstCursor { firstCursor with commitVersion := 1 } (.bool false),
        .update firstCursor { firstCursor with commitVersion := 1 } (.bool false)]) := by
    decide +kernel
  obtain ⟨s, hrun, hfields⟩ := Option.map_eq_some_iff.1 hcomputed
  simp only [Prod.mk.injEq] at hfields
  refine ⟨s, Run.reachable_of_run hrun, by omega, ?_⟩
  rw [hfields.2]
  simp [Chained, Follows, SubscriptionTransition.target, firstCursor]

end Reactive

end AckerDB
