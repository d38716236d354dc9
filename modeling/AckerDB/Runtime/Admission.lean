import AckerDB.Lib.BinaryHeap
import AckerDB.Lib.DoublyLinked
import AckerDB.Lib.InsertionMap
import AckerDB.Shared.Errors

/-!
# Admission

The queue in front of a bounded resource.  An entry stands in three structures at once: the
list of all entries, the list of its fairness key, and a binary heap by the time at which it
expires.  It leaves the lists when it is admitted or rejected; its heap item is only dropped
when it comes to the top.

* `AdmissionQueue.enqueue`, `take`, `expire`, `close`, `abort` — the operations;
* `step` — the runs of a queue, under any clock readings.

Times are of any ordered type with an addition and a subtraction that need obey no law, so
that the finite JavaScript numbers with their rounding are one of them.  A reading of the clock
or a deadline that is not finite is `none`.
-/

namespace AckerDB

open Protocol (OutcomeCode)

/-- `AdmissionResource`. -/
inductive AdmissionResource where
  | reader | writer | subscription | revalidation | publication
  deriving DecidableEq

/-- The name of a resource. -/
def AdmissionResource.text : AdmissionResource → String
  | reader => "reader"
  | writer => "writer"
  | subscription => "subscription"
  | revalidation => "revalidation"
  | publication => "publication"

/-- `AdmissionDiscipline`. -/
inductive AdmissionDiscipline where
  | fifo | roundRobin
  deriving DecidableEq

/-- `AdmissionRejectionReason`. -/
inductive AdmissionRejectionReason where
  | items | bytes | age | deadline | canceled | closed
  deriving DecidableEq

namespace AdmissionRejectionReason

/-- The name of a reason. -/
def text : AdmissionRejectionReason → String
  | items => "items"
  | bytes => "bytes"
  | age => "age"
  | deadline => "deadline"
  | canceled => "canceled"
  | closed => "closed"

/-- Whether the queue was full. -/
def capacity : AdmissionRejectionReason → Bool
  | items => true
  | bytes => true
  | _ => false

/-- The outcome code of a rejection. -/
def code : AdmissionRejectionReason → OutcomeCode
  | items => .overloaded
  | bytes => .overloaded
  | age => .deadlineExceeded
  | deadline => .deadlineExceeded
  | closed => .draining
  | canceled => .unavailable

end AdmissionRejectionReason

/-- `QueueLimits`. -/
structure QueueLimits (Time : Type) where
  maxItems : Nat
  maxBytes : Nat
  maxAgeMs : Time

/-- `AdmissionQueueOptions`; the constructor bounds the delay. -/
structure AdmissionOptions (Time : Type) where
  discipline : AdmissionDiscipline
  limits : QueueLimits Time
  resource : AdmissionResource
  retryAfterMs : Nat := 0
  retryAfter_le : retryAfterMs ≤ 30000 := by decide

/-- `AdmissionRejected`. -/
def admissionRejected {Time : Type} (options : AdmissionOptions Time)
    (reason : AdmissionRejectionReason) : AckerDBError where
  code := reason.code
  message := "Admission rejected: " ++ reason.text
  retryable := reason.capacity
  retryAfterMs := if reason.capacity then some options.retryAfterMs else none
  resource := some options.resource.text
  retryAfter_valid := by
    intro delay hdelay
    split at hdelay
    · rename_i hcapacity
      cases hdelay
      exact ⟨options.retryAfter_le, hcapacity⟩
    · cases hdelay
  committed_iff := by cases reason <;> decide
  convergence_final := by cases reason <;> decide
  resource_known := by
    intro name hname
    cases hname
    cases options.resource <;> decide

/-- `PendingAdmission`, without its links; it is known by its number. -/
structure PendingAdmission (α Time : Type) where
  value : α
  fairnessKey : Option String
  bytes : Nat
  enqueuedAtMs : Time
  expiresAtMs : Time
  expiresBy : AdmissionRejectionReason
  expiresBy_mem : expiresBy = .age ∨ expiresBy = .deadline
  /-- Whether a signal can cancel the entry. -/
  signal : Bool
  active : Bool

/-- `AdmissionLease`. -/
structure AdmissionLease (α Time : Type) where
  value : α
  fairnessKey : Option String
  bytes : Nat
  enqueuedAtMs : Time
  admittedAtMs : Time
  queueAgeMs : Time
  turn : Nat

/-- How a ticket settles. -/
inductive AdmissionSettlement (α Time : Type) where
  | admitted (lease : AdmissionLease α Time)
  | rejected (reason : AdmissionRejectionReason)

/-- `AdmissionQueue`.  Entries are numbered as they are accepted; a heap item is the time at which
an entry expires and its number, and `settlements` records how tickets settled. -/
structure AdmissionQueue (α Time : Type) where
  entries : List (PendingAdmission α Time) := []
  /-- The list of all entries. -/
  links : DoublyLinked Nat := .empty
  /-- The lists of the fairness keys, in the order of the map. -/
  groups : List (String × DoublyLinked Nat) := []
  expiryHeap : Array (Time ×ₗ Nat) := #[]
  queuedItems : Int := 0
  queuedBytes : Int := 0
  turns : Nat := 0
  admitted : Nat := 0
  rejectionTotals : AdmissionRejectionReason → Nat := fun _ => 0
  isClosed : Bool := false
  settlements : List (Nat × AdmissionSettlement α Time) := []

namespace AdmissionQueue

variable {α Time : Type} [LinearOrder Time] [Add Time] [Sub Time] [Zero Time]

section

variable (q : AdmissionQueue α Time)

/-- Whether an entry is active. -/
def isActive (n : Nat) : Bool :=
  match q.entries[n]? with
  | some entry => entry.active
  | none => false

/-- The entry with its list links is marked as gone. -/
def deactivate (n : Nat) : AdmissionQueue α Time :=
  { q with entries := q.entries.modify n fun entry => { entry with active := false } }

variable (options : AdmissionOptions Time)

/-- `append`, of the entry that is accepted. -/
def append (q : AdmissionQueue α Time)
    (entry : PendingAdmission α Time) : AdmissionQueue α Time :=
  let n := q.entries.length
  { q with
    entries := q.entries ++ [entry]
    links := q.links.pushBack n
    groups :=
      match options.discipline, entry.fairnessKey with
      | .roundRobin, some key =>
        InsertionMap.set q.groups key (((q.groups.lookup key).getD .empty).pushBack n)
      | _, _ => q.groups
    queuedItems := q.queuedItems + 1
    queuedBytes := q.queuedBytes + entry.bytes }

/-- The group of an entry loses it, and leaves the map when it was the last. -/
def leaveGroup (groups : List (String × DoublyLinked Nat)) (key : String) (n : Nat) :
    List (String × DoublyLinked Nat) :=
  match groups.lookup key with
  | none => groups
  | some group =>
    let left := group.unlink n
    if left.head.isNone then InsertionMap.delete groups key else InsertionMap.set groups key left

/-- `detach`. -/
def detach (q : AdmissionQueue α Time) (n : Nat) :
    AdmissionQueue α Time :=
  match q.entries[n]? with
  | none => q
  | some entry =>
    if entry.active then
      { q.deactivate n with
        links := q.links.unlink n
        groups :=
          match options.discipline, entry.fairnessKey with
          | .roundRobin, some key => leaveGroup q.groups key n
          | _, _ => q.groups
        queuedItems := q.queuedItems - 1
        queuedBytes := q.queuedBytes - entry.bytes }
    else q

/-- One more rejection for a reason. -/
def countRejection (reason : AdmissionRejectionReason) :
    AdmissionQueue α Time :=
  { q with
    rejectionTotals := Function.update q.rejectionTotals reason (q.rejectionTotals reason + 1) }

/-- The promise of a ticket settles. -/
def settle (n : Nat) (settlement : AdmissionSettlement α Time) :
    AdmissionQueue α Time :=
  { q with settlements := q.settlements ++ [(n, settlement)] }

/-- `rejectEntry`. -/
def rejectEntry (q : AdmissionQueue α Time) (n : Nat)
    (reason : AdmissionRejectionReason) : AdmissionQueue α Time :=
  if q.isActive n then ((q.detach options n).countRejection reason).settle n (.rejected reason)
  else q

/-! ## Expiry -/

/-- `popExpiry`. -/
def popExpiry : AdmissionQueue α Time :=
  { q with expiryHeap := (BinaryHeap.pop id q.expiryHeap).2 }

end

/-- `discardInactiveExpiryHeads`; each turn takes an item off the heap. -/
def discardInactiveExpiryHeads : Nat → AdmissionQueue α Time → AdmissionQueue α Time
  | 0, q => q
  | fuel + 1, q =>
    match q.expiryHeap[0]? with
    | some item =>
      if q.isActive (ofLex item).2 then q else discardInactiveExpiryHeads fuel q.popExpiry
    | none => q

/-- What an entry is rejected with when it expires. -/
def expiresBy (q : AdmissionQueue α Time) (n : Nat) : AdmissionRejectionReason :=
  match q.entries[n]? with
  | some entry => entry.expiresBy
  | none => .age

/-- The loop of `expire`; each turn takes an item off the heap. -/
def expireDue (options : AdmissionOptions Time) (now : Time) :
    Nat → AdmissionQueue α Time → Nat → AdmissionQueue α Time × Nat
  | 0, q, expired => (q, expired)
  | fuel + 1, q, expired =>
    match q.expiryHeap[0]? with
    | none => (q, expired)
    | some item =>
      if (ofLex item).1 ≤ now then
        let popped := q.popExpiry
        let n := (ofLex item).2
        if popped.isActive n then
          let rejected := popped.rejectEntry options n (popped.expiresBy n)
          expireDue options now fuel
            (discardInactiveExpiryHeads rejected.expiryHeap.size rejected) (expired + 1)
        else
          expireDue options now fuel
            (discardInactiveExpiryHeads popped.expiryHeap.size popped) expired
      else (q, expired)

variable (options : AdmissionOptions Time)

section

variable (q : AdmissionQueue α Time)

/-- `expire`: what is left, and how many entries expired. -/
def expire (now : Time) :
    AdmissionQueue α Time × Nat :=
  let discarded := discardInactiveExpiryHeads q.expiryHeap.size q
  expireDue options now discarded.expiryHeap.size discarded 0

/-! ## The operations -/

/-- What a caller passes to `enqueue`.  The signal is read twice, before the entry is accepted
and after it listens. -/
structure AdmissionRequest (α Time : Type) where
  value : α
  bytes : Int
  fairnessKey : Option String := none
  deadlineMs : Option (Option Time) := none
  signal : Option (Bool × Bool) := none

/-- What `enqueue` comes to. -/
inductive EnqueueResult where
  | thrown (error : Thrown)
  /-- `rejectImmediately`. -/
  | rejected (reason : AdmissionRejectionReason)
  /-- The number of the ticket. -/
  | accepted (ticket : Nat)

/-- `readNow`. -/
def readNow (clock : Option Time) : Except Thrown Time :=
  match clock with
  | some now => .ok now
  | none => .error (.rangeError "clock must return a finite millisecond value")

/-- Why a request is turned away at once. -/
def refusal (now : Time)
    (request : AdmissionRequest α Time) : Option AdmissionRejectionReason :=
  if q.isClosed then some .closed
  else if request.signal.any Prod.fst then some .canceled
  else if request.deadlineMs.join.any fun deadline => decide (deadline ≤ now) then some .deadline
  else if q.queuedItems ≥ options.limits.maxItems then some .items
  else if request.bytes > options.limits.maxBytes - q.queuedBytes then some .bytes
  else none

/-- What `enqueue` throws at a caller. -/
def misuse (request : AdmissionRequest α Time) : Option Thrown :=
  if request.bytes < 0 ∨ request.bytes > Protocol.maxSafeInteger then
    some (.rangeError "bytes must be a non-negative safe integer")
  else if options.discipline = .roundRobin ∧ (request.fairnessKey.getD "").isEmpty then
    some (.js (.typeError "round-robin admission requires a non-empty fairnessKey"))
  else if request.deadlineMs = some none then some (.rangeError "deadlineMs must be finite")
  else none

/-- When the entry of a request expires, and what it is then rejected with. -/
def expiry (now : Time) (request : AdmissionRequest α Time) :
    AdmissionRejectionReason × Time :=
  let ageExpiry := now + options.limits.maxAgeMs
  match request.deadlineMs.join with
  | some deadline => if deadline ≤ ageExpiry then (.deadline, deadline) else (.age, ageExpiry)
  | none => (.age, ageExpiry)

/-- The entry of a request. -/
def newEntry (now : Time) (request : AdmissionRequest α Time) :
    PendingAdmission α Time where
  value := request.value
  fairnessKey := request.fairnessKey
  bytes := request.bytes.toNat
  enqueuedAtMs := now
  expiresAtMs := (expiry options now request).2
  expiresBy := (expiry options now request).1
  expiresBy_mem := by
    unfold expiry
    split
    · dsimp only
      split
      · exact .inr rfl
      · exact .inl rfl
    · exact .inl rfl
  signal := request.signal.isSome
  active := true

/-- The request is accepted. -/
def accept (now : Time)
    (request : AdmissionRequest α Time) : AdmissionQueue α Time :=
  let n := q.entries.length
  let entry := newEntry options now request
  let appended := q.append options entry
  { appended with
    expiryHeap := BinaryHeap.push id appended.expiryHeap (toLex (entry.expiresAtMs, n)) }

/-- `enqueue`. -/
def enqueue (clock : Option Time)
    (request : AdmissionRequest α Time) : AdmissionQueue α Time × EnqueueResult :=
  match misuse options request, readNow clock with
  | some error, _ => (q, .thrown error)
  | none, .error error => (q, .thrown error)
  | none, .ok now =>
    match q.refusal options now request with
    | some reason => (q.countRejection reason, .rejected reason)
    | none =>
      let n := q.entries.length
      let accepted := q.accept options now request
      (if request.signal.any Prod.snd then accepted.rejectEntry options n .canceled
        else accepted, .accepted n)

/-- The entry `take` serves. -/
def first : Option Nat :=
  match options.discipline with
  | .fifo => q.links.head
  | .roundRobin => q.groups.head?.bind fun group => group.2.head

/-- After a key was served, it goes to the end of the map unless it has no entry left. -/
def rotate (groups : List (String × DoublyLinked Nat))
    (served : Option String) : List (String × DoublyLinked Nat) :=
  match options.discipline, served with
  | .roundRobin, some key =>
    match groups.lookup key with
    | some group => InsertionMap.delete groups key ++ [(key, group)]
    | none => groups
  | _, _ => groups

/-- `take`, at a reading of the clock. -/
def take (now : Time) :
    AdmissionQueue α Time × Option (AdmissionLease α Time) :=
  let q := (q.expire options now).1
  match q.first options with
  | none => (q, none)
  | some n =>
    match q.entries[n]? with
    | none => (q, none)
    | some entry =>
      let detached := q.detach options n
      let rotated := { detached with
        groups := rotate options detached.groups entry.fairnessKey }
      let lease : AdmissionLease α Time :=
        { value := entry.value, fairnessKey := entry.fairnessKey, bytes := entry.bytes
          enqueuedAtMs := entry.enqueuedAtMs, admittedAtMs := now
          queueAgeMs := max 0 (now - entry.enqueuedAtMs), turn := q.turns + 1 }
      ({ rotated with turns := q.turns + 1, admitted := q.admitted + 1 }.settle n
        (.admitted lease), some lease)

end

/-- The loop of `close`; each turn takes an entry off the list. -/
def closeAll (options : AdmissionOptions Time) : Nat → AdmissionQueue α Time → AdmissionQueue α Time
  | 0, q => q
  | fuel + 1, q =>
    match q.links.head with
    | none => q
    | some n => closeAll options fuel (q.rejectEntry options n .closed)

variable (q : AdmissionQueue α Time)

/-- `close`. -/
def close : AdmissionQueue α Time :=
  if q.isClosed then q else closeAll options q.entries.length { q with isClosed := true }

/-- `snapshot`, as far as it changes the queue. -/
def snapshot (now : Time) :
    AdmissionQueue α Time :=
  let expired := (q.expire options now).1
  discardInactiveExpiryHeads expired.expiryHeap.size expired

/-! ## Runs -/

/-- What may happen to a queue, with the readings of the clock. -/
inductive AdmissionEvent (α Time : Type) where
  | enqueue (clock : Option Time) (request : AdmissionRequest α Time)
  | take (clock : Option Time)
  /-- The signal of an entry aborts, which calls `rejectEntry`. -/
  | abort (n : Nat)
  | expire (now : Option Time)
  | snapshot (clock : Option Time)
  | close

/-- One event.  A reading that is not finite throws before anything changes. -/
def step :
    AdmissionEvent α Time → Option (AdmissionQueue α Time)
  | .enqueue clock request => some (q.enqueue options clock request).1
  | .take clock => some (clock.elim q fun now => (q.take options now).1)
  | .abort n =>
    match q.entries[n]? with
    | some entry => if entry.signal then some (q.rejectEntry options n .canceled) else none
    | none => none
  | .expire now => some (now.elim q fun now => (q.expire options now).1)
  | .snapshot clock => some (clock.elim q fun now => q.snapshot options now)
  | .close => some (q.close options)

end AdmissionQueue

end AckerDB
