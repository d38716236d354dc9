import AckerDB.Shared.Errors

/-!
# Ordered publication

The boundary between a writer transaction and the ordered work after its commit.
One reservation may be open at a time; a committed slot waits in a list until a
microtask starts its processing, one slot after another, and leaves the list when
its processing has settled.  A slot that left the list has no object any more: the
open reservation is known by its number.

* `WellFormed.commitSlot`, `WellFormed.cancelSlot` — a reservation is released exactly once;
* `Carries` — a committed slot keeps the value it was committed with;
* `compareAndInstall` — an installation happens at the committed high-water or not at all.
-/

namespace AckerDB

open List

/-- `CapacityLimits`. -/
structure CapacityLimits where
  maxItems : Nat
  maxBytes : Nat
  deriving DecidableEq

/-- `SlotState`, of a slot that is still in the list. -/
inductive SlotState where
  | reserved | committed | processing
  deriving DecidableEq

/-- A publication slot. -/
structure Slot (τ : Type) where
  id : Nat
  version : Nat
  state : SlotState
  value : Option τ
  reservedBytes : Nat
  reservedAtMs : Int

/-- `OrderedPublication`. -/
structure OrderedPublication (τ : Type) where
  limits : CapacityLimits
  /-- The slots from head to tail. -/
  slots : List (Slot τ) := []
  /-- The number of the next slot. -/
  nextSlot : Nat := 0
  openReservation : Option Nat := none
  items : Int := 0
  bytes : Int := 0
  committedHighWater : Nat
  settledHighWater : Nat
  startedHighWater : Nat
  processed : Nat := 0
  failures : Nat := 0
  lastFailureVersion : Option Nat := none
  starting : Bool := false
  /-- The slot whose microtask is queued while `starting` is set. -/
  scheduled : Option Nat := none
  unsettledVersions : List Nat := []
  closed : Bool := false

namespace OrderedPublication

variable {τ : Type}

/-- A publication without any slot, at a stored version. -/
def initial (limits : CapacityLimits) (initialVersion : Nat) : OrderedPublication τ where
  limits := limits
  committedHighWater := initialVersion
  settledHighWater := initialVersion
  startedHighWater := initialVersion

/-- The error of `assertOpenSlot`. -/
def notOpenError : Thrown := .error "Publication reservation is no longer open"

section

variable (p : OrderedPublication τ)

/-- `reserve`. -/
def reserve (reservedBytes : Nat) (now : Int) :
    Except Thrown (OrderedPublication τ × Nat) :=
  if p.closed then .error closedError
  else if p.items ≥ p.limits.maxItems ∨ (reservedBytes : Int) > p.limits.maxBytes - p.bytes then
    .error fullError
  else if p.openReservation.isSome then .error openError
  else
    let slot : Slot τ :=
      { id := p.nextSlot, version := p.committedHighWater + 1, state := .reserved, value := none
        reservedBytes, reservedAtMs := now }
    .ok ({ p with
      slots := p.slots ++ [slot]
      nextSlot := p.nextSlot + 1
      openReservation := some p.nextSlot
      items := p.items + 1
      bytes := p.bytes + reservedBytes }, p.nextSlot)

/-- The slot of a number. -/
def slot? (id : Nat) : Option (Slot τ) :=
  p.slots.find? fun slot => slot.id = id

/-- Replace the slot of a number. -/
def setSlot (id : Nat) (f : Slot τ → Slot τ) : OrderedPublication τ :=
  { p with slots := p.slots.map fun slot => if slot.id = id then f slot else slot }

/-- `detach`. -/
def detach (slot : Slot τ) : OrderedPublication τ :=
  { p with
    slots := p.slots.filter fun other => other.id ≠ slot.id
    items := p.items - 1
    bytes := p.bytes - slot.reservedBytes }

/-- `pump`: queue the microtask of the first committed slot, unless one is queued. -/
def pump : OrderedPublication τ :=
  if p.starting then p
  else
    match p.slots.find? fun slot => slot.state = .committed with
    | none => p
    | some slot =>
      { p.setSlot slot.id fun s => { s with state := .processing } with
        starting := true
        scheduled := some slot.id }

/-- `assertOpenSlot`: the slot of the open reservation. -/
def assertOpenSlot (id : Nat) : Except Thrown (Slot τ) :=
  if p.openReservation = some id then
    match p.slot? id with
    | some slot => if slot.state = .reserved then .ok slot else .error notOpenError
    | none => .error notOpenError
  else .error notOpenError

/-- `commit`. -/
def commitSlot (id : Nat) (value : τ) :
    Except Thrown (OrderedPublication τ) := do
  let slot ← p.assertOpenSlot id
  return pump
    { p.setSlot id fun s => { s with state := .committed, value := some value } with
      openReservation := none
      committedHighWater := slot.version }

/-- `resize`. -/
def resizeSlot (id reservedBytes : Nat) :
    Except Thrown (OrderedPublication τ) := do
  let slot ← p.assertOpenSlot id
  if (reservedBytes : Int) > p.limits.maxBytes - p.bytes + slot.reservedBytes then .error fullError
  else
    .ok { p.setSlot id fun s => { s with reservedBytes } with
      bytes := p.bytes + (reservedBytes - slot.reservedBytes) }

/-- `cancel`. -/
def cancelSlot (id : Nat) : Except Thrown (OrderedPublication τ) := do
  let slot ← p.assertOpenSlot id
  return { p with openReservation := none }.detach slot

/-- `compareAndInstall`: whether the installation runs. -/
def compareAndInstall (evaluationVersion : Nat) :
    Except Thrown Bool :=
  if p.closed then .error closedError else .ok (evaluationVersion = p.committedHighWater)

/-- The microtask of the scheduled slot, up to the call of `process`. -/
def startScheduled : Option (OrderedPublication τ × Slot τ) := do
  let id ← p.scheduled
  let slot ← p.slot? id
  return ({ p with
    startedHighWater := slot.version
    unsettledVersions := p.unsettledVersions ++ [slot.version]
    scheduled := none }, slot)

/-- The microtask after `process` handed the slot off: the next slot may start. -/
def handedOff : OrderedPublication τ := { p with starting := false }.pump

/-- The loop that advances the settled high-water, at most to the started one. -/
def advanceSettled (unsettled : List Nat) : Nat → Nat → Nat
  | 0, settled => settled
  | fuel + 1, settled =>
    if settled + 1 ∈ unsettled then settled else advanceSettled unsettled fuel (settled + 1)

/-- The bookkeeping of `settle`: the version is no longer unsettled. -/
def markSettled (slot : Slot τ) : OrderedPublication τ :=
  let unsettled := p.unsettledVersions.filter fun version => version ≠ slot.version
  { p with
    processed := p.processed + 1
    unsettledVersions := unsettled
    settledHighWater :=
      advanceSettled unsettled (p.startedHighWater - p.settledHighWater) p.settledHighWater }

/-- The bookkeeping of a rejected processing. -/
def markFailed (slot : Slot τ) : OrderedPublication τ :=
  { p with
    failures := p.failures + 1
    lastFailureVersion := some (max slot.version (p.lastFailureVersion.getD slot.version)) }

/-- `settle`; `failed` is whether the processing rejected. -/
def settle (slot : Slot τ) (failed : Bool) : OrderedPublication τ :=
  let settled := (p.markSettled slot).detach slot
  (if failed then settled.markFailed slot else settled).pump

/-- `close`. -/
def close : OrderedPublication τ := { p with closed := true }

end

/-! ## What the operations leave alone -/

section Frame

variable (p : OrderedPublication τ)

@[simp] theorem setSlot_slots (id : Nat) (f : Slot τ → Slot τ) :
    (p.setSlot id f).slots = p.slots.map fun slot => if slot.id = id then f slot else slot := rfl

@[simp] theorem pump_committedHighWater : p.pump.committedHighWater = p.committedHighWater := by
  unfold pump
  split
  · rfl
  · split <;> rfl

@[simp] theorem pump_openReservation : p.pump.openReservation = p.openReservation := by
  unfold pump
  split
  · rfl
  · split <;> rfl

@[simp] theorem pump_nextSlot : p.pump.nextSlot = p.nextSlot := by
  unfold pump
  split
  · rfl
  · split <;> rfl

@[simp] theorem settle_committedHighWater (slot : Slot τ) (failed : Bool) :
    (p.settle slot failed).committedHighWater = p.committedHighWater := by
  unfold settle
  cases failed <;> simp [detach, markSettled, markFailed]

@[simp] theorem handedOff_committedHighWater :
    p.handedOff.committedHighWater = p.committedHighWater := by
  simp [handedOff]

end Frame

variable {slot : Slot τ} {id bytes : Nat} {q : OrderedPublication τ} {now : Int}

/-! ## The open reservation -/

/-- The slots have distinct numbers, and the open reservation is the slot of the version
after the committed high-water. -/
structure WellFormed (p : OrderedPublication τ) : Prop where
  distinct : (p.slots.map Slot.id).Nodup
  fresh : ∀ slot ∈ p.slots, slot.id < p.nextSlot
  reservation : ∀ id, p.openReservation = some id →
    ∃ slot ∈ p.slots, slot.id = id ∧ slot.version = p.committedHighWater + 1 ∧
      slot.state = .reserved

theorem wellFormed_initial (limits : CapacityLimits) (initialVersion : Nat) :
    WellFormed (initial limits initialVersion : OrderedPublication τ) where
  distinct := nodup_nil
  fresh := by simp [initial]
  reservation := by simp [initial]

section

variable {p : OrderedPublication τ}

theorem WellFormed.slot_unique (h : p.WellFormed) {other : Slot τ} (hslot : slot ∈ p.slots)
    (hother : other ∈ p.slots) (hid : slot.id = other.id) : slot = other :=
  inj_on_of_nodup_map h.distinct hslot hother hid

/-- The slots after one of them was replaced. -/
theorem WellFormed.mem_setSlot (h : p.WellFormed) {found : Slot τ} (hfound : found ∈ p.slots)
    (f : Slot τ → Slot τ) :
    slot ∈ (p.setSlot found.id f).slots ↔
      slot = f found ∨ slot ∈ p.slots ∧ slot.id ≠ found.id := by
  rw [setSlot_slots, mem_map]
  constructor
  · rintro ⟨old, hold, rfl⟩
    by_cases hid : old.id = found.id
    · rw [if_pos hid, h.slot_unique hold hfound hid]
      exact .inl rfl
    · rw [if_neg hid]
      exact .inr ⟨hold, hid⟩
  · rintro (rfl | ⟨hslot, hid⟩)
    · exact ⟨found, hfound, if_pos rfl⟩
    · exact ⟨slot, hslot, if_neg hid⟩

theorem mem_detach {other : Slot τ} :
    other ∈ (p.detach slot).slots ↔ other ∈ p.slots ∧ other.id ≠ slot.id := by
  simp [detach]

/-- The other slots stay, whether one is replaced or leaves. -/
theorem WellFormed.mem_of_ne (h : p.WellFormed) {found : Slot τ} (hfound : found ∈ p.slots)
    (hslot : slot ∈ p.slots) (hne : slot ≠ found) :
    (∀ f, slot ∈ (p.setSlot found.id f).slots) ∧ slot ∈ (p.detach found).slots := by
  have hid : slot.id ≠ found.id := fun hid => hne (h.slot_unique hslot hfound hid)
  exact ⟨fun f => (h.mem_setSlot hfound f).2 (.inr ⟨hslot, hid⟩), mem_detach.2 ⟨hslot, hid⟩⟩

/-- A slot of the list is found by its number. -/
theorem WellFormed.slot?_eq (h : p.WellFormed) (hmem : slot ∈ p.slots) :
    p.slot? slot.id = some slot := by
  unfold slot?
  obtain ⟨found, hfound⟩ : ∃ found, p.slots.find? (fun s => s.id = slot.id) = some found := by
    cases hfind : p.slots.find? (fun s => s.id = slot.id) with
    | some found => exact ⟨found, rfl⟩
    | none =>
      rw [find?_eq_none] at hfind
      exact absurd (hfind slot hmem) (by simp)
  rw [hfound]
  have hid : found.id = slot.id := by simpa using find?_some hfound
  rw [h.slot_unique (mem_of_find?_eq_some hfound) hmem hid]

theorem assertOpenSlot_eq_ok (h : p.assertOpenSlot id = .ok slot) :
    p.openReservation = some id ∧ slot ∈ p.slots ∧ slot.id = id ∧ slot.state = .reserved := by
  unfold assertOpenSlot at h
  split at h
  · rename_i hopen
    split at h
    · rename_i found hfound
      split at h
      · rename_i hstate
        cases h
        refine ⟨hopen, mem_of_find?_eq_some hfound, ?_, hstate⟩
        simpa using find?_some hfound
      · cases h
    · cases h
  · cases h

/-- The slot of the open reservation carries the version after the high-water. -/
theorem WellFormed.assertOpenSlot_version (hp : p.WellFormed)
    (h : p.assertOpenSlot id = .ok slot) :
    slot.version = p.committedHighWater + 1 := by
  obtain ⟨hopen, hmem, hid, -⟩ := assertOpenSlot_eq_ok h
  obtain ⟨found, hfound, hfoundId, hversion, -⟩ := hp.reservation id hopen
  rw [← hp.slot_unique hfound hmem (hfoundId.trans hid.symm), hversion]

/-- While a reservation is open, its slot can be asserted. -/
theorem WellFormed.assertOpenSlot_open (hp : p.WellFormed)
    (hopen : p.openReservation = some id) :
    ∃ slot, p.assertOpenSlot id = .ok slot ∧ slot.version = p.committedHighWater + 1 := by
  obtain ⟨slot, hmem, hid, hversion, hstate⟩ := hp.reservation id hopen
  refine ⟨slot, ?_, hversion⟩
  rw [assertOpenSlot, if_pos hopen, ← hid, hp.slot?_eq hmem]
  simp [hstate]

/-- A slot that is being processed is not the open reservation. -/
theorem WellFormed.processing_ne_open (hp : p.WellFormed)
    (hmem : slot ∈ p.slots) (hstate : slot.state = .processing) :
    p.openReservation ≠ some slot.id := by
  intro hopen
  obtain ⟨reserved, hreserved, hid, -, hreservedState⟩ := hp.reservation _ hopen
  rw [hp.slot_unique hreserved hmem hid, hstate] at hreservedState
  cases hreservedState

/-! ## Well-formedness is kept -/

section

variable (hp : p.WellFormed)
include hp

/-- A step that only renames the states and fields of slots, and leaves the reserved slot
as it is, keeps the structure. -/
theorem WellFormed.map (f : Slot τ → Slot τ) (hslots : q.slots = p.slots.map f)
    (hid : ∀ slot ∈ p.slots, (f slot).id = slot.id)
    (hreserved : ∀ slot ∈ p.slots, some slot.id = q.openReservation →
      (f slot).version = slot.version ∧ (f slot).state = slot.state)
    (hnext : q.nextSlot = p.nextSlot)
    (hopen : ∀ id, q.openReservation = some id → p.openReservation = some id ∧
      q.committedHighWater = p.committedHighWater) : q.WellFormed := by
  have hids : q.slots.map Slot.id = p.slots.map Slot.id := by
    rw [hslots, map_map]
    exact map_congr_left hid
  constructor
  · rw [hids]
    exact hp.distinct
  · intro slot hslot
    rw [hslots] at hslot
    obtain ⟨old, hold, rfl⟩ := mem_map.1 hslot
    rw [hid old hold, hnext]
    exact hp.fresh old hold
  intro id hq
  obtain ⟨hopenP, hwater⟩ := hopen id hq
  obtain ⟨slot, hmem, hslotId, hversion, hstate⟩ := hp.reservation id hopenP
  obtain ⟨hver, hst⟩ := hreserved slot hmem (by rw [hslotId, hq])
  refine ⟨f slot, ?_, ?_, ?_, ?_⟩
  · rw [hslots]
    exact mem_map_of_mem hmem
  · rw [hid slot hmem, hslotId]
  · rw [hver, hversion, hwater]
  · rw [hst, hstate]

theorem WellFormed.pump : p.pump.WellFormed := by
  unfold OrderedPublication.pump
  split
  · exact hp
  split
  · exact hp
  rename_i found hfound
  have hmem := mem_of_find?_eq_some hfound
  have hcommitted : found.state = .committed := by simpa using find?_some hfound
  refine hp.map (fun slot => if slot.id = found.id then { slot with state := .processing }
    else slot) rfl ?_ ?_ rfl (fun id h => ⟨h, rfl⟩)
  · intro slot _
    split <;> rfl
  -- the slot that starts is committed, so it is not the reserved one
  intro slot hslot hopen
  obtain ⟨reserved, hreserved, hreservedId, -, hstate⟩ :=
    hp.reservation slot.id hopen.symm
  have hne : slot.id ≠ found.id := by
    intro heq
    rw [hp.slot_unique hreserved hmem (hreservedId.trans heq), hcommitted] at hstate
    cases hstate
  simp [hne]

theorem WellFormed.closeReservation :
    { p with openReservation := none }.WellFormed where
  __ := hp
  reservation := by simp

theorem WellFormed.detach {slot : Slot τ} (hne : p.openReservation ≠ some slot.id) :
    (p.detach slot).WellFormed where
  distinct := hp.distinct.sublist (filter_sublist.map _)
  fresh := fun other hother => hp.fresh other (mem_of_mem_filter hother)
  reservation := by
    intro id hopen
    obtain ⟨found, hmem, hid, hrest⟩ := hp.reservation id hopen
    refine ⟨found, mem_filter.2 ⟨hmem, ?_⟩, hid, hrest⟩
    simp only [ne_eq, decide_eq_true_eq]
    intro heq
    apply hne
    rw [← heq, hid]
    exact hopen

theorem WellFormed.reserve (h : p.reserve bytes now = .ok (q, id)) : q.WellFormed := by
  unfold OrderedPublication.reserve at h
  split_ifs at h
  cases h
  constructor
  · rw [map_append]
    refine Nodup.append hp.distinct (nodup_singleton _) ?_
    rw [map_singleton, disjoint_singleton]
    intro hmem
    obtain ⟨slot, hslot, heq⟩ := mem_map.1 hmem
    have hlt := hp.fresh slot hslot
    rw [heq] at hlt
    exact absurd hlt (lt_irrefl _)
  · intro slot hslot
    rcases mem_append.1 hslot with hslot | hslot
    · exact Nat.lt_succ_of_lt (hp.fresh slot hslot)
    · rw [mem_singleton] at hslot
      subst hslot
      exact Nat.lt_succ_self _
  · intro id hopen
    cases hopen
    exact ⟨_, mem_append_right _ (mem_singleton_self _), rfl, rfl, rfl⟩

end

theorem reserve_committedHighWater
    (h : p.reserve bytes now = .ok (q, id)) : q.committedHighWater = p.committedHighWater := by
  unfold reserve at h
  split_ifs at h
  cases h
  rfl

/-- A reservation opens only where none is open. -/
theorem reserve_openReservation (h : p.reserve bytes now = .ok (q, id)) :
    p.openReservation = none ∧ q.openReservation = some id := by
  unfold reserve at h
  split_ifs at h
  · rename_i hclosed
    cases h
    exact ⟨by simpa using hclosed, rfl⟩

section

variable (hp : p.WellFormed)
include hp

/-- The publication of a commit before the next microtask is queued. -/
theorem WellFormed.committing {version : Nat} (value : τ) :
    { p.setSlot id fun s => { s with state := .committed, value := some value } with
      openReservation := none
      committedHighWater := version }.WellFormed := by
  refine hp.map (fun s => if s.id = id then { s with state := .committed, value := some value }
    else s) rfl ?_ ?_ rfl ?_
  · intro s _
    split <;> rfl
  · intro s _ hnone
    cases hnone
  · intro other hother
    cases hother

/-- **A commit.**  It succeeds only on the open reservation, which it closes, and moves the
high-water by one. -/
theorem WellFormed.commitSlot {value : τ} (h : p.commitSlot id value = .ok q) :
    q.WellFormed ∧ p.openReservation = some id ∧ q.openReservation = none ∧
      q.committedHighWater = p.committedHighWater + 1 := by
  rw [OrderedPublication.commitSlot, Except.bind_eq_ok] at h
  obtain ⟨slot, hslot, h⟩ := h
  cases h
  have hversion := hp.assertOpenSlot_version hslot
  obtain ⟨hopen, -, -, -⟩ := assertOpenSlot_eq_ok hslot
  exact ⟨(hp.committing value).pump, hopen, by simp, by simp [hversion]⟩

/-- **A cancellation.**  It succeeds only on the open reservation, which it closes, and the
high-water stays. -/
theorem WellFormed.cancelSlot (h : p.cancelSlot id = .ok q) :
    q.WellFormed ∧ p.openReservation = some id ∧ q.openReservation = none ∧
      q.committedHighWater = p.committedHighWater := by
  rw [OrderedPublication.cancelSlot, Except.bind_eq_ok] at h
  obtain ⟨slot, hslot, h⟩ := h
  cases h
  obtain ⟨hopen, -, -, -⟩ := assertOpenSlot_eq_ok hslot
  exact ⟨hp.closeReservation.detach (by simp), hopen, rfl, rfl⟩

theorem WellFormed.exists_commitSlot (hopen : p.openReservation = some id) (value : τ) :
    ∃ q, p.commitSlot id value = .ok q := by
  obtain ⟨slot, hslot, -⟩ := hp.assertOpenSlot_open hopen
  exact ⟨_, by rw [OrderedPublication.commitSlot, hslot]; rfl⟩

theorem WellFormed.exists_cancelSlot (hopen : p.openReservation = some id) :
    ∃ q, p.cancelSlot id = .ok q := by
  obtain ⟨slot, hslot, -⟩ := hp.assertOpenSlot_open hopen
  exact ⟨_, by rw [OrderedPublication.cancelSlot, hslot]; rfl⟩

end

/-- A slot that is not the open reservation cannot be cancelled. -/
theorem cancelSlot_closed (hclosed : p.openReservation ≠ some id) :
    p.cancelSlot id = .error notOpenError := by
  rw [cancelSlot, assertOpenSlot, if_neg hclosed]
  rfl

theorem WellFormed.resizeSlot (hp : p.WellFormed)
    (h : p.resizeSlot id bytes = .ok q) :
    q.WellFormed ∧ q.openReservation = p.openReservation ∧
      q.committedHighWater = p.committedHighWater := by
  rw [OrderedPublication.resizeSlot, Except.bind_eq_ok] at h
  obtain ⟨slot, -, h⟩ := h
  split_ifs at h
  cases h
  refine ⟨?_, rfl, rfl⟩
  refine hp.map (fun s => if s.id = id then { s with reservedBytes := bytes } else s) rfl ?_ ?_ rfl
    (fun id h => ⟨h, rfl⟩)
  · intro s _
    split <;> rfl
  · intro s _ _
    split <;> exact ⟨rfl, rfl⟩

theorem WellFormed.startScheduled (hp : p.WellFormed)
    (h : p.startScheduled = some (q, slot)) :
    q.WellFormed ∧ q.openReservation = p.openReservation ∧
      q.committedHighWater = p.committedHighWater ∧ slot ∈ p.slots := by
  simp only [OrderedPublication.startScheduled, Option.bind_eq_bind, Option.bind_eq_some_iff] at h
  obtain ⟨id, -, found, hfound, h⟩ := h
  cases h
  exact ⟨{ hp with }, rfl, rfl, mem_of_find?_eq_some hfound⟩

theorem WellFormed.handedOff (hp : p.WellFormed) :
    p.handedOff.WellFormed :=
  WellFormed.pump { hp with }

theorem WellFormed.settle (hp : p.WellFormed) {slot : Slot τ}
    (hne : p.openReservation ≠ some slot.id) (failed : Bool) : (p.settle slot failed).WellFormed := by
  have hmarked : (p.markSettled slot).WellFormed := { hp with }
  have hsettled := hmarked.detach hne
  refine WellFormed.pump ?_
  split
  · exact { hsettled with }
  · exact hsettled

end

/-! ## Committed slots keep their values -/

/-- Every committed slot holds the value of its version, and a slot whose microtask is queued
is committed. -/
structure Carries (p : OrderedPublication τ) (values : Nat → τ) : Prop where
  committed : ∀ slot ∈ p.slots, slot.state ≠ .reserved →
    slot.value = some (values slot.version) ∧ slot.version ≤ p.committedHighWater
  scheduled : ∀ id, p.scheduled = some id →
    id < p.nextSlot ∧ ∀ slot ∈ p.slots, slot.id = id → slot.state ≠ .reserved

variable {values : Nat → τ}

theorem carries_initial (limits : CapacityLimits) (initialVersion : Nat) :
    Carries (initial limits initialVersion) values where
  committed := by simp [initial]
  scheduled := by simp [initial]

variable {p : OrderedPublication τ}

section

variable (h : p.Carries values)
include h

theorem Carries.pump (hp : p.WellFormed) :
    p.pump.Carries values := by
  unfold OrderedPublication.pump
  split
  · exact h
  split
  · exact h
  rename_i found hfound
  have hmem := mem_of_find?_eq_some hfound
  have hstate : found.state ≠ .reserved := by
    have hcommitted : found.state = .committed := by simpa using find?_some hfound
    simp [hcommitted]
  constructor
  · intro slot hslot hne
    rcases (hp.mem_setSlot hmem _).1 hslot with rfl | ⟨hslot, -⟩
    · exact h.committed found hmem hstate
    · exact h.committed slot hslot hne
  intro id hid
  cases hid
  refine ⟨hp.fresh found hmem, ?_⟩
  intro slot hslot hslotId
  rcases (hp.mem_setSlot hmem _).1 hslot with rfl | ⟨-, hne⟩
  · simp
  · exact absurd hslotId hne

/-- A step that drops slots, or changes nothing of them but their sizes, keeps the values. -/
theorem Carries.of_slots
    (hslots : ∀ slot ∈ q.slots, ∃ old ∈ p.slots, slot.id = old.id ∧ slot.version = old.version ∧
      slot.value = old.value ∧ slot.state = old.state) (hnext : q.nextSlot = p.nextSlot)
    (hwater : q.committedHighWater = p.committedHighWater)
    (hscheduled : ∀ id, q.scheduled = some id → p.scheduled = some id) : q.Carries values where
  committed := by
    intro slot hslot hne
    obtain ⟨old, hold, -, hversion, hvalue, hstate⟩ := hslots slot hslot
    rw [hwater, hversion, hvalue]
    exact h.committed old hold (by rwa [← hstate])
  scheduled := by
    intro id hid
    obtain ⟨hlt, hcommitted⟩ := h.scheduled id (hscheduled id hid)
    rw [hnext]
    refine ⟨hlt, ?_⟩
    intro slot hslot hslotId
    obtain ⟨old, hold, holdId, -, -, hstate⟩ := hslots slot hslot
    rw [hstate]
    exact hcommitted old hold (holdId ▸ hslotId)

theorem Carries.detach (slot : Slot τ) :
    (p.detach slot).Carries values :=
  h.of_slots (fun other hother => ⟨other, mem_of_mem_filter hother, rfl, rfl, rfl, rfl⟩)
    rfl rfl (fun _ hid => hid)

theorem Carries.cancelSlot (hcancel : p.cancelSlot id = .ok q) : q.Carries values := by
  rw [OrderedPublication.cancelSlot, Except.bind_eq_ok] at hcancel
  obtain ⟨slot, -, hcancel⟩ := hcancel
  cases hcancel
  have hclosed : { p with openReservation := none }.Carries values := ⟨h.committed, h.scheduled⟩
  exact hclosed.detach slot

theorem Carries.resizeSlot (hresize : p.resizeSlot id bytes = .ok q) : q.Carries values := by
  rw [OrderedPublication.resizeSlot, Except.bind_eq_ok] at hresize
  obtain ⟨slot, -, hresize⟩ := hresize
  split_ifs at hresize
  cases hresize
  refine h.of_slots ?_ rfl rfl (fun _ hid => hid)
  intro changed hchanged
  obtain ⟨old, hold, rfl⟩ := mem_map.1 hchanged
  refine ⟨old, hold, ?_⟩
  split <;> exact ⟨rfl, rfl, rfl, rfl⟩

/-- The slot a microtask starts holds the value of its version. -/
theorem Carries.startScheduled (hstart : p.startScheduled = some (q, slot)) :
    q.Carries values ∧ slot.value = some (values slot.version) ∧
      slot.version ≤ p.committedHighWater := by
  simp only [OrderedPublication.startScheduled, Option.bind_eq_bind, Option.bind_eq_some_iff]
    at hstart
  obtain ⟨id, hid, found, hfound, hstart⟩ := hstart
  cases hstart
  have hmem := mem_of_find?_eq_some hfound
  have hslotId : slot.id = id := by simpa using find?_some hfound
  refine ⟨⟨h.committed, by simp⟩, ?_⟩
  exact h.committed slot hmem ((h.scheduled id hid).2 slot hmem hslotId)

theorem Carries.handedOff (hp : p.WellFormed) :
    p.handedOff.Carries values :=
  Carries.pump ⟨h.committed, h.scheduled⟩ { hp with }

theorem Carries.settle (hp : p.WellFormed) {slot : Slot τ} (hne : p.openReservation ≠ some slot.id)
    (failed : Bool) :
    (p.settle slot failed).Carries values := by
  have hmarked : (p.markSettled slot).Carries values := ⟨h.committed, h.scheduled⟩
  have hmarkedWf : (p.markSettled slot).WellFormed := { hp with }
  have hsettled := hmarked.detach slot
  have hsettledWf := hmarkedWf.detach hne
  unfold OrderedPublication.settle
  split
  · exact Carries.pump ⟨hsettled.committed, hsettled.scheduled⟩
      { hsettledWf with }
  · exact hsettled.pump hsettledWf

theorem Carries.reserve (hreserve : p.reserve bytes now = .ok (q, id)) : q.Carries values := by
  unfold OrderedPublication.reserve at hreserve
  split_ifs at hreserve
  cases hreserve
  constructor
  · intro slot hslot hne
    rcases mem_append.1 hslot with hslot | hslot
    · exact h.committed slot hslot hne
    · rw [mem_singleton] at hslot
      subst hslot
      exact absurd rfl hne
  intro id hid
  obtain ⟨hlt, hstate⟩ := h.scheduled id hid
  refine ⟨Nat.lt_succ_of_lt hlt, ?_⟩
  intro slot hslot hslotId
  rcases mem_append.1 hslot with hslot | hslot
  · exact hstate slot hslot hslotId
  · rw [mem_singleton] at hslot
    subst hslot
    exact absurd hslotId (ne_of_gt hlt)

/-- A commit adds the value of the new version. -/
theorem Carries.commitSlot {value : τ} (hp : p.WellFormed)
    (hcommit : p.commitSlot id value = .ok q) :
    q.Carries (Function.update values q.committedHighWater value) := by
  have hwater := (hp.commitSlot hcommit).2.2.2
  rw [OrderedPublication.commitSlot, Except.bind_eq_ok] at hcommit
  obtain ⟨slot, hslot, hcommit⟩ := hcommit
  cases hcommit
  have hversion := hp.assertOpenSlot_version hslot
  obtain ⟨-, hmem, rfl, -⟩ := assertOpenSlot_eq_ok hslot
  refine Carries.pump ⟨?_, ?_⟩ ?_
  · intro changed hchanged hne
    rcases (hp.mem_setSlot hmem _).1 hchanged with rfl | ⟨hold, -⟩
    · exact ⟨by simp [hversion], le_rfl⟩
    obtain ⟨hvalue, hle⟩ := h.committed changed hold hne
    refine ⟨?_, by show changed.version ≤ slot.version; omega⟩
    rw [Function.update_of_ne (by omega)]
    exact hvalue
  · intro other hother
    obtain ⟨hlt, hstate⟩ := h.scheduled other hother
    refine ⟨hlt, ?_⟩
    intro changed hchanged hchangedId
    rcases (hp.mem_setSlot hmem _).1 hchanged with rfl | ⟨hold, -⟩
    · simp
    · exact hstate changed hold hchangedId
  · exact hp.committing value

end

end OrderedPublication

end AckerDB
