import AckerDB.Subscriptions.Reactive.Entry

/-!
# Sends to the listeners

Each listener owns a chain of promises: the work of a send starts when the send
before it has settled, and the cursor of the listener advances when a transition
has been sent.  The transitions of a delivery are chosen when it is called, but a
delivery queues the next of them only after the one before was sent, so other
deliveries may queue in between.

* `Outbox.begin` — start a delivery with the transitions it chose;
* `Outbox.sent`, `Outbox.sendFailed` — a send settles, and the next one starts;
* `Outbox.resume` — a delivery goes on with its next transition;
* `Outbox.SameListeners` — no send changes who listens.
-/

namespace AckerDB

open Protocol Function

namespace Reactive

/-- The work of one send. -/
inductive Send where
  | transition (transition : SubscriptionTransition)
  | error (outcome : Outcome)
  /-- A revocation chooses its cursors when its work starts. -/
  | revocation (nextAuthEpoch : Nat) (outcome : Outcome)
  deriving DecidableEq

/-- A send in the queue of a listener, with the delivery it belongs to. -/
structure QueuedSend where
  send : Send
  delivery : Nat
  deriving DecidableEq

/-- `QueryListener`; the first send of its queue is in progress.  `resumeCursor` and `handed`
record what the client asked to resume from and which transitions were handed over. -/
structure QueryListener where
  subscriber : Nat
  id : Nat
  entry : Nat
  authEpoch : Nat
  cursor : Option SubscriptionCursor
  queue : List QueuedSend := []
  resumeCursor : Option SubscriptionCursor := cursor
  handed : List SubscriptionTransition := []
  deriving DecidableEq

namespace QueryListener

/-- The revocation a listener sends from its cursor. -/
def revoke (source : SubscriptionCursor) (fresh : String) (nextAuthEpoch : Nat)
    (outcome : Outcome) : SubscriptionTransition :=
  .revoked source { source with generation := fresh, authEpoch := nextAuthEpoch } outcome

/-- The work of the first send starts; `fresh` is the next generation. -/
def hand (listener : QueryListener) (fresh : String) : QueryListener :=
  match listener.queue with
  | [] => listener
  | ⟨.transition transition, _⟩ :: _ =>
    { listener with handed := listener.handed ++ [transition] }
  | ⟨.error _, _⟩ :: _ => listener
  | ⟨.revocation nextAuthEpoch outcome, delivery⟩ :: rest =>
    match listener.cursor with
    | none => { listener with queue := ⟨.error outcome, delivery⟩ :: rest }
    | some source =>
      let transition := revoke source fresh nextAuthEpoch outcome
      { listener with
        queue := ⟨.transition transition, delivery⟩ :: rest
        handed := listener.handed ++ [transition] }

/-- Whether the work that starts draws a generation. -/
def drawsGeneration (listener : QueryListener) : Bool :=
  match listener.queue, listener.cursor with
  | ⟨.revocation _ _, _⟩ :: _, some _ => true
  | _, _ => false

/-- The cursor after a send succeeded. -/
def advanced (cursor : Option SubscriptionCursor) : Send → Option SubscriptionCursor
  | .transition transition => some transition.target
  | .error _ => cursor
  | .revocation _ _ => cursor

end QueryListener

/-- Where a delivery stands. -/
inductive DeliveryState where
  | sending
  /-- A transition was sent, and the next one is not queued yet. -/
  | between
  | succeeded
  | failed
  deriving DecidableEq

/-- A delivery in progress, with the transitions it has still to queue. -/
structure Delivery where
  listener : Nat
  rest : List SubscriptionTransition
  state : DeliveryState
  deriving DecidableEq

/-- Whether the delivery has settled. -/
def Delivery.settled (delivery : Delivery) : Bool :=
  delivery.state = .succeeded || delivery.state = .failed

/-- What becomes of a delivery whose send succeeded. -/
def Delivery.afterSent (delivery : Delivery) : Delivery :=
  { delivery with state := if delivery.rest = [] then .succeeded else .between }

/-- What becomes of a delivery whose send failed. -/
def Delivery.afterFailure (delivery : Delivery) : Delivery :=
  { delivery with rest := [], state := .failed }

/-- The listeners and deliveries ever made, and how many generations were drawn. -/
structure Outbox where
  listeners : Nat → QueryListener :=
    fun _ => { subscriber := 0, id := 0, entry := 0, authEpoch := 0, cursor := none }
  listenerCount : Nat := 0
  deliveries : Nat → Delivery := fun _ => { listener := 0, rest := [], state := .succeeded }
  deliveryCount : Nat := 0
  generations : Nat := 0

namespace Outbox

variable (options : ReactiveOptions)

section

variable (outbox : Outbox)

/-- Store a listener whose first send starts. -/
def start (l : Nat) (listener : QueryListener) : Outbox :=
  { outbox with
    listeners := update outbox.listeners l
      (listener.hand (options.nextGeneration outbox.generations))
    generations := outbox.generations + if listener.drawsGeneration then 1 else 0 }

/-- `queue`: a send starts at once when no other is in progress. -/
def enqueue (l : Nat) (queued : QueuedSend) : Outbox :=
  let listener := outbox.listeners l
  let extended := { listener with queue := listener.queue ++ [queued] }
  if listener.queue = [] then start options outbox l extended
  else { outbox with listeners := update outbox.listeners l extended }

/-- Change the record of a delivery. -/
def setDelivery (d : Nat) (delivery : Delivery) : Outbox :=
  { outbox with deliveries := update outbox.deliveries d delivery }

/-- The number of the next delivery, with the number taken. -/
def allocate (delivery : Delivery) : Outbox :=
  { outbox with
    deliveries := update outbox.deliveries outbox.deliveryCount delivery
    deliveryCount := outbox.deliveryCount + 1 }

/-- A delivery of one send. -/
def beginSend (l : Nat) (send : Send) : Outbox :=
  enqueue options
    (outbox.allocate { listener := l, rest := [], state := .sending })
    l ⟨send, outbox.deliveryCount⟩

/-- A delivery of transitions. -/
def begin (l : Nat) : List SubscriptionTransition → Outbox
  | [] => outbox.allocate { listener := l, rest := [], state := .succeeded }
  | first :: rest =>
    enqueue options (outbox.allocate { listener := l, rest, state := .sending })
      l ⟨.transition first, outbox.deliveryCount⟩

/-- The send in progress succeeds: the cursor advances and the next send starts. -/
def sent (l : Nat) : Option Outbox :=
  let listener := outbox.listeners l
  match listener.queue with
  | [] => none
  | ⟨send, d⟩ :: rest =>
    some (start options
      (outbox.setDelivery d (outbox.deliveries d).afterSent) l
      { listener with queue := rest, cursor := QueryListener.advanced listener.cursor send })

/-- The send in progress fails: the next send starts from the old cursor. -/
def sendFailed (l : Nat) : Option Outbox :=
  let listener := outbox.listeners l
  match listener.queue with
  | [] => none
  | ⟨_, d⟩ :: rest =>
    some (start options
      (outbox.setDelivery d (outbox.deliveries d).afterFailure) l
      { listener with queue := rest })

/-- A delivery goes on with its next transition. -/
def resume (d : Nat) : Option Outbox :=
  match outbox.deliveries d with
  | ⟨l, next :: rest, .between⟩ =>
    some (enqueue options (outbox.setDelivery d ⟨l, rest, .sending⟩) l ⟨.transition next, d⟩)
  | _ => none

/-- A new listener. -/
def addListener (listener : QueryListener) : Outbox :=
  { outbox with
    listeners := update outbox.listeners outbox.listenerCount listener
    listenerCount := outbox.listenerCount + 1 }

end

/-! ## Who listens -/

/-- What a listener is from its attachment on. -/
structure SameListener (a b : QueryListener) : Prop where
  subscriber : a.subscriber = b.subscriber
  id : a.id = b.id
  entry : a.entry = b.entry
  authEpoch : a.authEpoch = b.authEpoch
  resumeCursor : a.resumeCursor = b.resumeCursor

/-- The same listeners, whatever was sent to them. -/
structure SameListeners (a b : Outbox) : Prop where
  count : a.listenerCount = b.listenerCount
  listener : ∀ l, SameListener (a.listeners l) (b.listeners l)

variable {options}

theorem SameListeners.refl (a : Outbox) : SameListeners a a :=
  ⟨rfl, fun _ => ⟨rfl, rfl, rfl, rfl, rfl⟩⟩

theorem SameListener.trans {a b c : QueryListener} (h : SameListener a b)
    (h' : SameListener b c) : SameListener a c :=
  ⟨h.subscriber.trans h'.subscriber, h.id.trans h'.id, h.entry.trans h'.entry,
    h.authEpoch.trans h'.authEpoch, h.resumeCursor.trans h'.resumeCursor⟩

theorem SameListeners.trans {a b c : Outbox} (h : SameListeners a b) (h' : SameListeners b c) :
    SameListeners a c where
  count := h.count.trans h'.count
  listener := fun l => (h.listener l).trans (h'.listener l)

variable {listener : QueryListener} {l : Nat}

theorem sameListener_update (outbox : Outbox) (h : SameListener listener (outbox.listeners l))
    (other : Nat) :
    SameListener (update outbox.listeners l listener other) (outbox.listeners other) :=
  (forall_update_iff outbox.listeners fun i new => SameListener new (outbox.listeners i)).2
    ⟨h, fun _ _ => ⟨rfl, rfl, rfl, rfl, rfl⟩⟩ other

theorem sameListener_hand (listener : QueryListener) (fresh : String) :
    SameListener (listener.hand fresh) listener := by
  unfold QueryListener.hand
  split
  · exact ⟨rfl, rfl, rfl, rfl, rfl⟩
  · exact ⟨rfl, rfl, rfl, rfl, rfl⟩
  · exact ⟨rfl, rfl, rfl, rfl, rfl⟩
  · split <;> exact ⟨rfl, rfl, rfl, rfl, rfl⟩

theorem sameListeners_start (outbox : Outbox) (h : SameListener listener (outbox.listeners l)) :
    SameListeners (start options outbox l listener) outbox where
  count := rfl
  listener := sameListener_update outbox ((sameListener_hand listener _).trans h)

theorem sameListeners_enqueue (outbox : Outbox) (l : Nat) (queued : QueuedSend) :
    SameListeners (enqueue options outbox l queued) outbox := by
  unfold enqueue
  dsimp only
  split
  · exact sameListeners_start outbox ⟨rfl, rfl, rfl, rfl, rfl⟩
  exact ⟨rfl, sameListener_update outbox ⟨rfl, rfl, rfl, rfl, rfl⟩⟩

theorem sameListeners_beginSend (outbox : Outbox) (l : Nat) (send : Send) :
    SameListeners (beginSend options outbox l send) outbox :=
  (sameListeners_enqueue _ l _).trans ⟨rfl, fun _ => ⟨rfl, rfl, rfl, rfl, rfl⟩⟩

theorem sameListeners_begin (outbox : Outbox) (l : Nat) (transitions : List SubscriptionTransition) :
    SameListeners (begin options outbox l transitions) outbox := by
  cases transitions with
  | nil => exact ⟨rfl, fun _ => ⟨rfl, rfl, rfl, rfl, rfl⟩⟩
  | cons =>
    exact (sameListeners_enqueue _ l _).trans ⟨rfl, fun _ => ⟨rfl, rfl, rfl, rfl, rfl⟩⟩

/-- A listener whose send was answered goes on. -/
theorem sameListeners_answered (outbox : Outbox) (d : Nat) (delivery : Delivery)
    (h : SameListener listener (outbox.listeners l)) :
    SameListeners (start options (outbox.setDelivery d delivery) l listener) outbox :=
  (sameListeners_start (outbox.setDelivery d delivery) h).trans
    ⟨rfl, fun _ => ⟨rfl, rfl, rfl, rfl, rfl⟩⟩

theorem sameListeners_sent {outbox after : Outbox} (h : outbox.sent options l = some after) :
    SameListeners after outbox := by
  unfold sent at h
  dsimp only at h
  split at h <;> cases h
  exact sameListeners_answered _ _ _ ⟨rfl, rfl, rfl, rfl, rfl⟩

theorem sameListeners_sendFailed {outbox after : Outbox}
    (h : outbox.sendFailed options l = some after) : SameListeners after outbox := by
  unfold sendFailed at h
  dsimp only at h
  split at h <;> cases h
  exact sameListeners_answered _ _ _ ⟨rfl, rfl, rfl, rfl, rfl⟩

theorem sameListeners_resume {outbox after : Outbox} {d : Nat}
    (h : outbox.resume options d = some after) : SameListeners after outbox := by
  unfold resume at h
  split at h
  · cases h
    exact (sameListeners_enqueue _ _ _).trans ⟨rfl, fun _ => ⟨rfl, rfl, rfl, rfl, rfl⟩⟩
  · cases h

end Outbox

end Reactive

end AckerDB
