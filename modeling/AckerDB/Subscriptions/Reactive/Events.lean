import AckerDB.Core.Protocol
import AckerDB.Shared.Errors

/-!
# Live events

What one event subscription keeps on the server.  Its deliveries form one chain, as those of
a query listener do: the work of a delivery starts when the one before it has settled.
A delivery of a row chooses what it sends when its work starts; a match that throws, and
a send that fails, leave a mark that turns the next delivery into a gap.

* `EventListener.offer` — a committed row meets the listener;
* `EventListener.sent`, `EventListener.sendFailed` — the delivery in progress settles.
-/

namespace AckerDB

open Protocol

namespace Reactive

/-- `ReactiveEvent`: a row that a commit adds to an event table. -/
structure ReactiveEvent where
  table : String
  row : JsValue
  deriving DecidableEq

/-- `ReactiveCommit`, as the writer publishes it. -/
structure ReactiveCommit where
  writeKeys : List String
  events : List ReactiveEvent
  deriving DecidableEq

/-- `LiveEventCursor`. -/
structure LiveEventCursor where
  generation : String
  commitVersion : Nat
  sequence : Nat
  deriving DecidableEq

/-- `LiveEvent`. -/
inductive LiveEvent where
  | row (cursor : LiveEventCursor) (row : JsValue)
  | gap (cursor : LiveEventCursor)
  | reset (cursor : LiveEventCursor)
  deriving DecidableEq

/-- The cursor of an event. -/
def LiveEvent.cursor : LiveEvent → LiveEventCursor
  | row cursor _ => cursor
  | gap cursor => cursor
  | reset cursor => cursor

/-- The work of one delivery. -/
inductive EventWork where
  /-- `sendEvent` of the event that opens the subscription. -/
  | reset
  /-- `sendPublishedEvent`. -/
  | publish (commitVersion : Nat) (row : JsValue)
  /-- A match threw. -/
  | mark
  | error (outcome : Outcome)
  deriving DecidableEq

/-- Where the `subscribeEvent` call of a listener stands. -/
inductive EventCall where
  | sending
  /-- The send of the reset failed, and the listener is to be detached. -/
  | failed
  | finished
  deriving DecidableEq

/-- What became of a committed row at a listener. -/
structure Offer where
  commitVersion : Nat
  row : JsValue
  verdict : Except Thrown Bool

/-- `EventListener`; the first work of its queue is in progress, and `sending` is what it sends.
`settled` counts the works that settled, and `offered` and `delivered` record the rows the listener
met and the events whose sends succeeded. -/
structure EventListener where
  subscriber : Nat
  id : Nat
  table : String
  /-- What each call of `matches` yields. -/
  matches_ : Nat → JsValue → Except Thrown Bool
  authEpoch : Nat
  cursor : LiveEventCursor
  gapped : Bool := false
  queue : List EventWork := []
  sending : Option LiveEvent := none
  call : EventCall := .sending
  settled : Nat := 0
  offered : List Offer := []
  delivered : List LiveEvent := []

namespace EventListener

variable (listener : EventListener)

/-- What a delivery of a row sends. -/
def published (commitVersion : Nat) (row : JsValue) : LiveEvent :=
  let cursor := { listener.cursor with
    commitVersion := commitVersion, sequence := listener.cursor.sequence + 1 }
  if listener.gapped then .gap cursor else .row cursor row

/-- The work of the first delivery starts. -/
def start : EventListener :=
  match listener.queue with
  | [] => { listener with sending := none }
  | .reset :: _ => { listener with sending := some (.reset listener.cursor) }
  | .publish commitVersion row :: _ =>
    { listener with sending := some (listener.published commitVersion row) }
  | .mark :: _ => { listener with sending := none, gapped := true }
  | .error _ :: _ => { listener with sending := none }

/-- `queue`: a delivery starts at once when no other is in progress. -/
def enqueue (work : EventWork) : EventListener :=
  let extended := { listener with queue := listener.queue ++ [work] }
  if listener.queue = [] then extended.start else extended

/-- The number of works ever queued. -/
def queued : Nat := listener.settled + listener.queue.length

/-- The delivery in progress is over, and the next one starts. -/
def next (rest : List EventWork) : EventListener :=
  { listener with queue := rest, settled := listener.settled + 1 }.start

/-- The delivery in progress succeeds. -/
def sent : Option EventListener :=
  match listener.queue, listener.sending with
  | .reset :: rest, some event =>
    some ({ listener with
      cursor := event.cursor, call := .finished
      delivered := listener.delivered ++ [event] }.next rest)
  | .publish _ _ :: rest, some event =>
    some ({ listener with
      cursor := event.cursor, gapped := false
      delivered := listener.delivered ++ [event] }.next rest)
  | .mark :: rest, none => some (listener.next rest)
  | .error _ :: rest, none => some (listener.next rest)
  | _, _ => none

/-- The send of the delivery in progress fails. -/
def sendFailed : Option EventListener :=
  match listener.queue with
  | .reset :: rest => some ({ listener with call := .failed }.next rest)
  | .publish _ _ :: rest => some ({ listener with gapped := true }.next rest)
  | .error _ :: rest => some (listener.next rest)
  | _ => none

/-- The turn of `publishEvent` for one listener. -/
def offer (commitVersion : Nat) (row : JsValue) : EventListener :=
  let verdict := listener.matches_ listener.offered.length row
  let met := { listener with offered := listener.offered ++ [⟨commitVersion, row, verdict⟩] }
  match verdict with
  | .ok true => met.enqueue (.publish commitVersion row)
  | .ok false => met
  | .error _ => met.enqueue .mark

/-! ## Who listens -/

/-- What an event listener is from its attachment on. -/
structure Same (a b : EventListener) : Prop where
  subscriber : a.subscriber = b.subscriber
  id : a.id = b.id
  table : a.table = b.table
  matches_ : a.matches_ = b.matches_
  authEpoch : a.authEpoch = b.authEpoch

theorem Same.refl (a : EventListener) : Same a a := ⟨rfl, rfl, rfl, rfl, rfl⟩

theorem Same.trans {a b c : EventListener} (h : Same a b) (h' : Same b c) : Same a c :=
  ⟨h.subscriber.trans h'.subscriber, h.id.trans h'.id, h.table.trans h'.table,
    h.matches_.trans h'.matches_, h.authEpoch.trans h'.authEpoch⟩

theorem same_start : Same listener.start listener := by
  unfold start
  split <;> exact ⟨rfl, rfl, rfl, rfl, rfl⟩

theorem same_enqueue (work : EventWork) :
    Same (listener.enqueue work) listener := by
  unfold enqueue
  split
  · exact (same_start _).trans ⟨rfl, rfl, rfl, rfl, rfl⟩
  · exact ⟨rfl, rfl, rfl, rfl, rfl⟩

theorem same_next (rest : List EventWork) :
    Same (listener.next rest) listener :=
  (same_start _).trans ⟨rfl, rfl, rfl, rfl, rfl⟩

theorem same_sent {listener after : EventListener} (h : listener.sent = some after) :
    Same after listener := by
  unfold sent at h
  split at h <;> cases h <;> exact (same_next _ _).trans ⟨rfl, rfl, rfl, rfl, rfl⟩

theorem same_sendFailed {listener after : EventListener} (h : listener.sendFailed = some after) :
    Same after listener := by
  unfold sendFailed at h
  split at h <;> cases h <;> exact (same_next _ _).trans ⟨rfl, rfl, rfl, rfl, rfl⟩

theorem same_offer (commitVersion : Nat) (row : JsValue) :
    Same (listener.offer commitVersion row) listener := by
  unfold offer
  dsimp only
  split
  · exact (same_enqueue _ _).trans ⟨rfl, rfl, rfl, rfl, rfl⟩
  · exact ⟨rfl, rfl, rfl, rfl, rfl⟩
  · exact (same_enqueue _ _).trans ⟨rfl, rfl, rfl, rfl, rfl⟩

end EventListener

/-- A listener of `subscribeEvent`, whose reset is being sent. -/
def openEvent (subscriber id : Nat) (table : String) (matches_ : Nat → JsValue → Except Thrown Bool)
    (authEpoch : Nat) (generation : String) (highWater : Nat) : EventListener :=
  EventListener.enqueue
    { subscriber, id, table, matches_, authEpoch
      cursor := { generation, commitVersion := highWater, sequence := 0 } } .reset

end Reactive

end AckerDB
