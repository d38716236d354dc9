import AckerDB.Subscriptions.Publication

/-!
# The order of publication

The versions of the slots grow from head to tail.  The slots that were started come
first, then the slot whose microtask is queued, then the committed slots that wait, one
for every version up to the committed high-water, and last the open reservation.  The
settled high-water stops before the first version that was started and has not settled.

* `Ordered` — the invariant, kept by every operation;
* `Ordered.startScheduled` — the next slot to start is the one after the started high-water;
* `Accounted` — the items and bytes are those of the slots, within the limits.
-/

namespace AckerDB.OrderedPublication

open List

variable {τ : Type}

variable {p q : OrderedPublication τ} {id start bytes : Nat} {slot : Slot τ}

/-- The last version that was started or whose microtask is queued. -/
def front (p : OrderedPublication τ) : Nat :=
  if p.scheduled.isSome then p.startedHighWater + 1 else p.startedHighWater

/-- **The order invariant**, of a publication that began at a stored version. -/
structure Ordered (start : Nat) (p : OrderedPublication τ) : Prop where
  wellFormed : p.WellFormed
  increasing : p.slots.Pairwise fun a b => a.version < b.version
  start_le : start ≤ p.settledHighWater
  settled_le : p.settledHighWater ≤ p.startedHighWater
  front_le : p.front ≤ p.committedHighWater
  reserved : ∀ slot ∈ p.slots, slot.state = .reserved → p.openReservation = some slot.id
  committed : ∀ slot ∈ p.slots, slot.state = .committed →
    p.front < slot.version ∧ slot.version ≤ p.committedHighWater
  processing : ∀ slot ∈ p.slots, slot.state = .processing →
    p.scheduled = some slot.id ∨ slot.version ∈ p.unsettledVersions
  waiting : ∀ version, p.front < version → version ≤ p.committedHighWater →
    ∃ slot ∈ p.slots, slot.version = version ∧ slot.state = .committed
  scheduled : ∀ id, p.scheduled = some id → p.starting = true ∧
    ∃ slot ∈ p.slots, slot.id = id ∧ slot.version = p.startedHighWater + 1 ∧
      slot.state = .processing
  unsettled : ∀ version ∈ p.unsettledVersions,
    p.settledHighWater < version ∧ version ≤ p.startedHighWater ∧
      ∃ slot ∈ p.slots, slot.version = version ∧ slot.state = .processing
  stuck : p.settledHighWater < p.startedHighWater →
    p.settledHighWater + 1 ∈ p.unsettledVersions

theorem ordered_initial (limits : CapacityLimits) (initialVersion : Nat) :
    Ordered initialVersion (initial limits initialVersion : OrderedPublication τ) where
  wellFormed := wellFormed_initial limits initialVersion
  increasing := Pairwise.nil
  start_le := le_rfl
  settled_le := le_rfl
  front_le := le_rfl
  reserved := by simp [initial]
  committed := by simp [initial]
  processing := by simp [initial]
  waiting := by
    intro version hfront hcommitted
    simp only [initial, front, Option.isSome_none, Bool.false_eq_true, if_false]
      at hfront hcommitted
    omega
  scheduled := by simp [initial]
  unsettled := by simp [initial]
  stuck := by simp [initial]

/-! ## Slots of an ordered publication -/

theorem front_of_none (h : p.scheduled = none) :
    p.front = p.startedHighWater := by
  simp [front, h]

theorem front_of_some (h : p.scheduled = some id) :
    p.front = p.startedHighWater + 1 := by
  simp [front, h]

theorem startedHighWater_le_front (p : OrderedPublication τ) : p.startedHighWater ≤ p.front := by
  unfold front
  split <;> omega

/-- Two slots of one version are one slot. -/
theorem Ordered.slot_unique (h : p.Ordered start) {other : Slot τ} (hslot : slot ∈ p.slots)
    (hother : other ∈ p.slots) (hversion : slot.version = other.version) : slot = other := by
  have hdistinct : (p.slots.map Slot.version).Nodup := by
    rw [Nodup, pairwise_map]
    exact h.increasing.imp fun hlt => Nat.ne_of_lt hlt
  exact inj_on_of_nodup_map hdistinct hslot hother hversion

/-- Every slot but the open reservation has a version at or below the high-water. -/
theorem Ordered.version_le (h : p.Ordered start) (hslot : slot ∈ p.slots)
    (hstate : slot.state ≠ .reserved) :
    slot.version ≤ p.committedHighWater := by
  have hfront := h.front_le
  cases hcase : slot.state with
  | reserved => exact absurd hcase hstate
  | committed => exact (h.committed slot hslot hcase).2
  | processing =>
    rcases h.processing slot hslot hcase with hscheduled | hunsettled
    · obtain ⟨-, found, hfound, hid, hversion, -⟩ := h.scheduled _ hscheduled
      rw [h.wellFormed.slot_unique hslot hfound hid.symm, hversion]
      rwa [front_of_some hscheduled] at hfront
    · have hle := (h.unsettled _ hunsettled).2.1
      have hstarted := startedHighWater_le_front p
      omega

theorem increasing_setSlot (h : p.slots.Pairwise fun a b => a.version < b.version) (id : Nat)
    {f : Slot τ → Slot τ} (hf : ∀ slot, (f slot).version = slot.version) :
    (p.setSlot id f).slots.Pairwise fun a b => a.version < b.version := by
  have hversion : ∀ slot, (if slot.id = id then f slot else slot).version = slot.version := by
    intro slot
    split
    · exact hf slot
    · rfl
  rw [setSlot_slots, pairwise_map]
  refine h.imp ?_
  intro a b hlt
  rw [hversion, hversion]
  exact hlt

/-! ## The next slot -/

/-- The first waiting slot is the one after the front. -/
theorem Ordered.find?_committed (h : p.Ordered start) {found : Slot τ}
    (hfound : (p.slots.find? fun slot => slot.state = .committed) = some found) :
    found ∈ p.slots ∧ found.state = .committed ∧ found.version = p.front + 1 := by
  have hmem := mem_of_find?_eq_some hfound
  have hstate : found.state = .committed := by simpa using find?_some hfound
  obtain ⟨hlt, hle⟩ := h.committed found hmem hstate
  refine ⟨hmem, hstate, ?_⟩
  -- the slot after the front waits, and no waiting slot stands before the first
  obtain ⟨slot, hslot, hversion, hwaits⟩ := h.waiting (p.front + 1) (Nat.lt_succ_self _) (by omega)
  obtain ⟨-, before, after, hsplit, hbefore⟩ := find?_eq_some_iff_append.1 hfound
  have hincreasing := h.increasing
  rw [hsplit, pairwise_append] at hincreasing
  rw [hsplit, mem_append, mem_cons] at hslot
  rcases hslot with hslot | rfl | hslot
  · exact absurd hwaits (by simpa using hbefore slot hslot)
  · exact hversion
  · have hafter := (pairwise_cons.1 hincreasing.2.1).1 slot hslot
    omega

/-- **The pump.**  It queues the slot after the front, which then is the front. -/
theorem Ordered.pump (h : p.Ordered start) :
    p.pump.Ordered start := by
  unfold OrderedPublication.pump
  split
  · exact h
  rename_i hstarting
  split
  · exact h
  rename_i found hfound
  obtain ⟨hmem, hstate, hversion⟩ := h.find?_committed hfound
  have hnone : p.scheduled = none := by
    cases hcase : p.scheduled with
    | none => rfl
    | some id => exact absurd (h.scheduled id hcase).1 hstarting
  have hfront := front_of_none hnone
  have hle := (h.committed found hmem hstate).2
  have hmemSet : ∀ slot,
      slot ∈ (p.setSlot found.id fun s => { s with state := .processing }).slots ↔
        slot = { found with state := .processing } ∨ slot ∈ p.slots ∧ slot.id ≠ found.id :=
    fun slot => h.wellFormed.mem_setSlot hmem _
  have hkept : ∀ slot ∈ p.slots, slot ≠ found →
      slot ∈ (p.setSlot found.id fun s => { s with state := .processing }).slots :=
    fun slot hslot hne => (h.wellFormed.mem_of_ne hmem hslot hne).1 _
  have hnext := h.wellFormed.pump
  unfold OrderedPublication.pump at hnext
  rw [if_neg hstarting, hfound] at hnext
  refine ⟨hnext, increasing_setSlot h.increasing _ fun _ => rfl, h.start_le, h.settled_le,
    ?_, ?_, ?_, ?_, ?_, ?_, ?_, h.stuck⟩
  · show p.startedHighWater + 1 ≤ p.committedHighWater
    omega
  · intro slot hslot hreserved
    rcases (hmemSet slot).1 hslot with rfl | ⟨hslot, -⟩
    · cases hreserved
    · exact h.reserved slot hslot hreserved
  · intro slot hslot hcommitted
    rcases (hmemSet slot).1 hslot with rfl | ⟨hslot, hne⟩
    · cases hcommitted
    obtain ⟨hlt, hbound⟩ := h.committed slot hslot hcommitted
    refine ⟨?_, hbound⟩
    show p.startedHighWater + 1 < slot.version
    have hversionNe : slot.version ≠ found.version := by
      intro heq
      exact hne (congrArg Slot.id (h.slot_unique hslot hmem heq))
    omega
  · intro slot hslot hprocessing
    rcases (hmemSet slot).1 hslot with rfl | ⟨hslot, -⟩
    · exact .inl rfl
    rcases h.processing slot hslot hprocessing with hscheduled | hunsettled
    · rw [hnone] at hscheduled
      cases hscheduled
    · exact .inr hunsettled
  · intro version hlt hbound
    have hlt : p.startedHighWater + 1 < version := hlt
    obtain ⟨slot, hslot, hslotVersion, hslotState⟩ := h.waiting version (by omega) hbound
    exact ⟨slot, hkept slot hslot (by rintro rfl; omega), hslotVersion, hslotState⟩
  · intro id hid
    cases hid
    refine ⟨rfl, _, (hmemSet _).2 (.inl rfl), rfl, ?_, rfl⟩
    show found.version = p.startedHighWater + 1
    omega
  · intro version hunsettled
    obtain ⟨hlt, hbound, slot, hslot, hslotVersion, hslotState⟩ :=
      h.unsettled version hunsettled
    have hne : slot ≠ found := by
      rintro rfl
      simp [hstate] at hslotState
    exact ⟨hlt, hbound, slot, hkept slot hslot hne, hslotVersion, hslotState⟩

/-! ## Every operation keeps the order -/

section

variable (h : p.Ordered start)
include h

/-- Other slots, where those past their reservation stay, up to what they carry. -/
theorem Ordered.reslot {slots : List (Slot τ)} {nextSlot : Nat} {openReservation : Option Nat}
    {items bytes : Int}
    (hwellFormed : { p with slots, nextSlot, openReservation, items, bytes }.WellFormed)
    (hincreasing : slots.Pairwise fun a b => a.version < b.version)
    (hreserved : ∀ slot ∈ slots, slot.state = .reserved → openReservation = some slot.id)
    (hback : ∀ slot ∈ slots, slot.state ≠ .reserved →
      ∃ old ∈ p.slots, old.id = slot.id ∧ old.version = slot.version ∧ old.state = slot.state)
    (hforth : ∀ old ∈ p.slots, old.state ≠ .reserved →
      ∃ slot ∈ slots, slot.id = old.id ∧ slot.version = old.version ∧ slot.state = old.state) :
    { p with slots, nextSlot, openReservation, items, bytes }.Ordered start := by
  refine { h with
    wellFormed := hwellFormed
    increasing := hincreasing
    reserved := hreserved
    committed := fun slot hslot hstate => ?_
    processing := fun slot hslot hstate => ?_
    waiting := fun version hlt hle => ?_
    scheduled := fun other hother => ?_
    unsettled := fun version hunsettled => ?_ }
  · obtain ⟨old, hold, -, hversion, hsame⟩ := hback slot hslot (by simp [hstate])
    rw [← hversion]
    exact h.committed old hold (hsame.trans hstate)
  · obtain ⟨old, hold, hid, hversion, hsame⟩ := hback slot hslot (by simp [hstate])
    rw [← hid, ← hversion]
    exact h.processing old hold (hsame.trans hstate)
  · obtain ⟨old, hold, rfl, holdState⟩ := h.waiting version hlt hle
    obtain ⟨slot, hslot, -, hversion, hsame⟩ := hforth old hold (by simp [holdState])
    exact ⟨slot, hslot, hversion, hsame.trans holdState⟩
  · obtain ⟨hstarting, old, hold, rfl, holdVersion, holdState⟩ := h.scheduled other hother
    obtain ⟨slot, hslot, hid, hversion, hsame⟩ := hforth old hold (by simp [holdState])
    exact ⟨hstarting, slot, hslot, hid, hversion.trans holdVersion, hsame.trans holdState⟩
  · obtain ⟨hlt, hle, old, hold, rfl, holdState⟩ := h.unsettled version hunsettled
    obtain ⟨slot, hslot, -, hversion, hsame⟩ := hforth old hold (by simp [holdState])
    exact ⟨hlt, hle, slot, hslot, hversion, hsame.trans holdState⟩

theorem Ordered.reserve {now : Int} (hreserve : p.reserve bytes now = .ok (q, id)) :
    q.Ordered start := by
  have hwellFormed := h.wellFormed.reserve hreserve
  obtain ⟨hopen, -⟩ := reserve_openReservation hreserve
  unfold OrderedPublication.reserve at hreserve
  split_ifs at hreserve
  cases hreserve
  have hnotReserved : ∀ slot ∈ p.slots, slot.state ≠ .reserved := by
    intro slot hslot hreserved
    have hsome := h.reserved slot hslot hreserved
    rw [hopen] at hsome
    cases hsome
  refine h.reslot hwellFormed ?_ (fun slot hslot hreserved => ?_) (fun slot hslot hstate => ?_)
    fun old hold _ => ⟨old, mem_append_left _ hold, rfl, rfl, rfl⟩
  · refine pairwise_append.2 ⟨h.increasing, pairwise_singleton _ _, ?_⟩
    intro slot hslot new hnew
    rw [mem_singleton] at hnew
    subst hnew
    exact Nat.lt_succ_of_le (h.version_le hslot (hnotReserved slot hslot))
  · rcases mem_append.1 hslot with hslot | hslot
    · exact absurd hreserved (hnotReserved slot hslot)
    · rw [mem_singleton] at hslot
      rw [hslot]
  rcases mem_append.1 hslot with hslot | hslot
  · exact ⟨slot, hslot, rfl, rfl, rfl⟩
  · rw [mem_singleton] at hslot
    rw [hslot] at hstate
    exact absurd rfl hstate

/-- A commit closes the reservation and lets its slot wait. -/
theorem Ordered.commitSlot {value : τ} (hcommit : p.commitSlot id value = .ok q) :
    q.Ordered start := by
  rw [OrderedPublication.commitSlot, Except.bind_eq_ok] at hcommit
  obtain ⟨found, hfound, hcommit⟩ := hcommit
  cases hcommit
  have hversion := h.wellFormed.assertOpenSlot_version hfound
  obtain ⟨hopen, hmem, rfl, hstate⟩ := assertOpenSlot_eq_ok hfound
  apply Ordered.pump
  have hmemSet : ∀ slot, slot ∈ (p.setSlot found.id fun s =>
      { s with state := .committed, value := some value }).slots ↔
        slot = { found with state := .committed, value := some value } ∨
          slot ∈ p.slots ∧ slot.id ≠ found.id :=
    fun slot => h.wellFormed.mem_setSlot hmem _
  have hkept : ∀ slot ∈ p.slots, slot.state ≠ .reserved → slot ∈ (p.setSlot found.id fun s =>
      { s with state := .committed, value := some value }).slots := by
    intro slot hslot hne
    refine (h.wellFormed.mem_of_ne hmem hslot ?_).1 _
    rintro rfl
    exact hne hstate
  have hfront := h.front_le
  refine ⟨h.wellFormed.committing value, increasing_setSlot h.increasing _ fun _ => rfl, h.start_le,
    h.settled_le, ?_, ?_, ?_, ?_, ?_, ?_, ?_, h.stuck⟩
  · show p.front ≤ found.version
    omega
  · intro slot hslot hreserved
    rcases (hmemSet slot).1 hslot with rfl | ⟨hslot, hne⟩
    · cases hreserved
    · have hsome := h.reserved slot hslot hreserved
      rw [hopen] at hsome
      exact absurd (Option.some.inj hsome).symm hne
  · intro slot hslot hcommitted
    show p.front < slot.version ∧ slot.version ≤ found.version
    rcases (hmemSet slot).1 hslot with rfl | ⟨hslot, -⟩
    · exact ⟨by show p.front < found.version; omega, le_rfl⟩
    · obtain ⟨hlt, hle⟩ := h.committed slot hslot hcommitted
      exact ⟨hlt, by omega⟩
  · intro slot hslot hprocessing
    rcases (hmemSet slot).1 hslot with rfl | ⟨hslot, -⟩
    · cases hprocessing
    · exact h.processing slot hslot hprocessing
  · intro version hlt hle
    have hle : version ≤ found.version := hle
    rcases Nat.lt_or_ge p.committedHighWater version with hnew | hold
    · refine ⟨_, (hmemSet _).2 (.inl rfl), ?_, rfl⟩
      show found.version = version
      omega
    · obtain ⟨slot, hslot, hslotVersion, hslotState⟩ := h.waiting version hlt hold
      exact ⟨slot, hkept slot hslot (by simp [hslotState]), hslotVersion, hslotState⟩
  · intro other hother
    obtain ⟨hstarting, slot, hslot, hslotId, hslotVersion, hslotState⟩ := h.scheduled other hother
    exact ⟨hstarting, slot, hkept slot hslot (by simp [hslotState]), hslotId, hslotVersion,
      hslotState⟩
  · intro version hunsettled
    obtain ⟨hlt, hle, slot, hslot, hslotVersion, hslotState⟩ := h.unsettled version hunsettled
    exact ⟨hlt, hle, slot, hkept slot hslot (by simp [hslotState]), hslotVersion, hslotState⟩

/-- A cancellation removes the open reservation only. -/
theorem Ordered.cancelSlot (hcancel : p.cancelSlot id = .ok q) :
    q.Ordered start := by
  have hwellFormed := (h.wellFormed.cancelSlot hcancel).1
  rw [OrderedPublication.cancelSlot, Except.bind_eq_ok] at hcancel
  obtain ⟨found, hfound, hcancel⟩ := hcancel
  cases hcancel
  obtain ⟨hopen, hmem, rfl, hstate⟩ := assertOpenSlot_eq_ok hfound
  refine h.reslot hwellFormed (h.increasing.sublist filter_sublist)
    (fun slot hslot hreserved => ?_)
    (fun slot hslot _ => ⟨slot, mem_of_mem_filter hslot, rfl, rfl, rfl⟩)
    fun old hold hne => ⟨old, (h.wellFormed.mem_of_ne hmem hold ?_).2, rfl, rfl, rfl⟩
  · obtain ⟨hslot, hne⟩ := mem_filter.1 hslot
    have hsome := h.reserved slot hslot hreserved
    rw [hopen] at hsome
    simp [Option.some.inj hsome] at hne
  rintro rfl
  exact hne hstate

theorem Ordered.resizeSlot (hresize : p.resizeSlot id bytes = .ok q) :
    q.Ordered start := by
  have hwellFormed := (h.wellFormed.resizeSlot hresize).1
  rw [OrderedPublication.resizeSlot, Except.bind_eq_ok] at hresize
  obtain ⟨found, hfound, hresize⟩ := hresize
  split_ifs at hresize
  cases hresize
  -- every slot keeps all but its size
  have hsame : ∀ old : Slot τ,
      (if old.id = id then { old with reservedBytes := bytes } else old).id = old.id ∧
      (if old.id = id then { old with reservedBytes := bytes } else old).version = old.version ∧
      (if old.id = id then { old with reservedBytes := bytes } else old).state = old.state := by
    intro old
    split <;> exact ⟨rfl, rfl, rfl⟩
  refine h.reslot hwellFormed (increasing_setSlot h.increasing _ fun _ => rfl)
    (fun slot hslot hreserved => ?_) (fun slot hslot _ => ?_)
    fun old hold _ => ⟨_, mem_map_of_mem hold, hsame old⟩
  all_goals obtain ⟨old, hold, rfl⟩ := mem_map.1 hslot
  · rw [(hsame old).1]
    exact h.reserved old hold ((hsame old).2.2.symm.trans hreserved)
  · exact ⟨old, hold, (hsame old).1.symm, (hsame old).2.1.symm, (hsame old).2.2.symm⟩

/-- **A start.**  The slot that starts is the one after the started high-water, and it is
unsettled from then on. -/
theorem Ordered.startScheduled (hstart : p.startScheduled = some (q, slot)) :
    q.Ordered start ∧ slot ∈ p.slots ∧ slot.state = .processing ∧
      slot.version = p.startedHighWater + 1 ∧ p.scheduled = some slot.id ∧
      q = { p with startedHighWater := slot.version, scheduled := none
                   unsettledVersions := p.unsettledVersions ++ [slot.version] } := by
  have hwellFormed := (h.wellFormed.startScheduled hstart).1
  simp only [OrderedPublication.startScheduled, Option.bind_eq_bind, Option.bind_eq_some_iff]
    at hstart
  obtain ⟨id, hid, found, hfound, hstart⟩ := hstart
  obtain ⟨rfl, rfl⟩ := Prod.mk.inj (Option.some.inj hstart)
  have hmem := mem_of_find?_eq_some hfound
  have hfoundId : found.id = id := by simpa using find?_some hfound
  subst hfoundId
  obtain ⟨hstarting, other, hother, hotherId, hversion, hstate⟩ := h.scheduled _ hid
  obtain rfl := h.wellFormed.slot_unique hother hmem hotherId
  have hfront := front_of_some hid
  have hsettled := h.settled_le
  have hfrontLe := h.front_le
  refine ⟨?_, hmem, hstate, hversion, hid, rfl⟩
  refine ⟨hwellFormed, h.increasing, h.start_le, ?_, ?_, h.reserved, ?_, ?_, ?_, by simp, ?_, ?_⟩
  · show p.settledHighWater ≤ other.version
    omega
  · show other.version ≤ p.committedHighWater
    omega
  · intro slot hslot hcommitted
    show other.version < slot.version ∧ _
    obtain ⟨hlt, hle⟩ := h.committed slot hslot hcommitted
    exact ⟨by omega, hle⟩
  · intro slot hslot hprocessing
    right
    rw [mem_append, mem_singleton]
    rcases h.processing slot hslot hprocessing with hscheduled | hunsettled
    · have hsame := Option.some.inj (hid.symm.trans hscheduled)
      rw [h.wellFormed.slot_unique hmem hslot hsame]
      exact .inr rfl
    · exact .inl hunsettled
  · intro version hlt hle
    have hlt : other.version < version := hlt
    exact h.waiting version (by omega) hle
  · intro version hunsettled
    show p.settledHighWater < version ∧ version ≤ other.version ∧ _
    rcases mem_append.1 hunsettled with hunsettled | hunsettled
    · obtain ⟨hlt, hle, hslot⟩ := h.unsettled version hunsettled
      exact ⟨hlt, by omega, hslot⟩
    · rw [mem_singleton] at hunsettled
      exact ⟨by omega, by omega, other, hmem, hunsettled.symm, hstate⟩
  · intro hlt
    rw [mem_append, mem_singleton]
    rcases Nat.lt_or_ge p.settledHighWater p.startedHighWater with hold | hold
    · exact .inl (h.stuck hold)
    · right
      show p.settledHighWater + 1 = other.version
      omega

end

/-- Where the loop of `settle` stops. -/
theorem advanceSettled_spec (unsettled : List Nat) (fuel settled : Nat) :
    settled ≤ advanceSettled unsettled fuel settled ∧
      advanceSettled unsettled fuel settled ≤ settled + fuel ∧
      (∀ version, settled < version → version ≤ advanceSettled unsettled fuel settled →
        version ∉ unsettled) ∧
      (advanceSettled unsettled fuel settled < settled + fuel →
        advanceSettled unsettled fuel settled + 1 ∈ unsettled) := by
  induction fuel generalizing settled with
  | zero =>
    refine ⟨le_rfl, le_rfl, fun version hlt hle => ?_, fun hlt => ?_⟩
    · simp only [advanceSettled] at hle
      omega
    · simp only [advanceSettled] at hlt
      omega
  | succ fuel ih =>
    rw [advanceSettled]
    split
    · rename_i hmem
      exact ⟨le_rfl, by omega, fun version hlt hle => by omega, fun _ => hmem⟩
    rename_i hmem
    obtain ⟨hle, hbound, hclear, hstop⟩ := ih (settled + 1)
    refine ⟨by omega, by omega, fun version hlt hversion => ?_, fun hlt => hstop (by omega)⟩
    rcases Nat.eq_or_lt_of_le (Nat.succ_le_of_lt hlt) with heq | hlt
    · rw [← heq]
      exact hmem
    · exact hclear version hlt hversion

/-- `settle` up to the pump. -/
def settleSlot (p : OrderedPublication τ) (slot : Slot τ) (failed : Bool) : OrderedPublication τ :=
  if failed then ((p.markSettled slot).detach slot).markFailed slot
  else (p.markSettled slot).detach slot

theorem settle_eq_pump (p : OrderedPublication τ) (slot : Slot τ) (failed : Bool) :
    p.settle slot failed = (p.settleSlot slot failed).pump := rfl

/-- What the rejection of a processing adds to the bookkeeping matters to no other field. -/
theorem settleSlot_eq (p : OrderedPublication τ) (slot : Slot τ) (failed : Bool) :
    ∃ failures lastFailureVersion, p.settleSlot slot failed =
      { (p.markSettled slot).detach slot with failures, lastFailureVersion } := by
  cases failed <;> exact ⟨_, _, rfl⟩

/-- The settled slot leaves, and the settled high-water passes every version that settled. -/
theorem Ordered.leave {start : Nat} {p : OrderedPublication τ} (h : p.Ordered start)
    {slot : Slot τ} (hmem : slot ∈ p.slots) (hunsettled : slot.version ∈ p.unsettledVersions)
    (hstate : slot.state = .processing) :
    ((p.markSettled slot).detach slot).Ordered start := by
  have hopen := h.wellFormed.processing_ne_open hmem hstate
  have hmarked : (p.markSettled slot).WellFormed :=
    { h.wellFormed with }
  have hsettledLe := h.settled_le
  have hscheduled : p.scheduled ≠ some slot.id := by
    intro hsome
    obtain ⟨-, found, hfound, hid, hversion, -⟩ := h.scheduled _ hsome
    rw [h.wellFormed.slot_unique hfound hmem hid] at hversion
    have hle := (h.unsettled _ hunsettled).2.1
    omega
  have hkept : ∀ other ∈ p.slots, other.version ≠ slot.version →
      other ∈ p.slots.filter fun kept => kept.id ≠ slot.id := by
    intro other hother hne
    refine (h.wellFormed.mem_of_ne hmem hother ?_).2
    rintro rfl
    exact hne rfl
  obtain ⟨hle, hbound, hclear, hstop⟩ := advanceSettled_spec
    (p.unsettledVersions.filter fun version => version ≠ slot.version)
    (p.startedHighWater - p.settledHighWater) p.settledHighWater
  refine ⟨hmarked.detach hopen, h.increasing.sublist filter_sublist,
    h.start_le.trans hle, ?_, h.front_le, ?_, ?_, ?_, ?_, ?_, ?_, ?_⟩
  · show advanceSettled _ _ _ ≤ p.startedHighWater
    omega
  · intro other hother hreserved
    exact h.reserved other (mem_of_mem_filter hother) hreserved
  · intro other hother hcommitted
    exact h.committed other (mem_of_mem_filter hother) hcommitted
  · intro other hother hprocessing
    obtain ⟨hother, hne⟩ := mem_filter.1 hother
    simp only [ne_eq, decide_eq_true_eq] at hne
    refine (h.processing other hother hprocessing).imp_right fun hmemUnsettled => ?_
    refine mem_filter.2 ⟨hmemUnsettled, ?_⟩
    simp only [ne_eq, decide_eq_true_eq]
    exact fun heq => hne (congrArg Slot.id (h.slot_unique hother hmem heq))
  · intro version hlt hversion
    obtain ⟨other, hother, hotherVersion, hotherState⟩ := h.waiting version hlt hversion
    have hcommitted := (h.committed other hother hotherState).1
    have hslotLe := (h.unsettled _ hunsettled).2.1
    have hstarted := startedHighWater_le_front p
    exact ⟨other, hkept other hother (by omega), hotherVersion, hotherState⟩
  · intro id hid
    obtain ⟨hstarting, other, hother, hotherId, hotherVersion, hotherState⟩ := h.scheduled id hid
    have hslotLe := (h.unsettled _ hunsettled).2.1
    exact ⟨hstarting, other, hkept other hother (by omega), hotherId, hotherVersion, hotherState⟩
  · intro version hversion
    obtain ⟨hold, hne⟩ := mem_filter.1 hversion
    simp only [ne_eq, decide_eq_true_eq] at hne
    obtain ⟨hlt, hstarted, other, hother, hotherVersion, hotherState⟩ := h.unsettled version hold
    refine ⟨?_, hstarted, other, hkept other hother (by omega), hotherVersion, hotherState⟩
    rcases Nat.lt_or_ge (advanceSettled (p.unsettledVersions.filter fun v => v ≠ slot.version)
      (p.startedHighWater - p.settledHighWater) p.settledHighWater) version with hlt' | hge
    · exact hlt'
    · exact absurd hversion (hclear version hlt hge)
  · intro hlt
    have hlt : advanceSettled (p.unsettledVersions.filter fun v => v ≠ slot.version)
      (p.startedHighWater - p.settledHighWater) p.settledHighWater < p.startedHighWater := hlt
    exact hstop (by omega)

/-- **A settlement**, of a slot that was started. -/
theorem Ordered.settleSlot (h : p.Ordered start) (hmem : slot ∈ p.slots)
    (hunsettled : slot.version ∈ p.unsettledVersions) (hstate : slot.state = .processing)
    (failed : Bool) :
    (p.settleSlot slot failed).Ordered start := by
  have hsettled := h.leave hmem hunsettled hstate
  obtain ⟨failures, lastFailureVersion, heq⟩ := p.settleSlot_eq slot failed
  rw [heq]
  refine { hsettled with wellFormed := ?_ }
  exact { hsettled.wellFormed with }

/-- Once its `process` call is over, no slot is starting; the next one may be queued. -/
theorem Ordered.idle (h : p.Ordered start) (hnone : p.scheduled = none) : { p with starting := false }.Ordered start :=
  { h with
    wellFormed := { h.wellFormed with }
    scheduled := by
      intro id hid
      rw [hnone] at hid
      cases hid }

theorem Ordered.handedOff (h : p.Ordered start) (hnone : p.scheduled = none) :
    p.handedOff.Ordered start :=
  (h.idle hnone).pump

theorem Ordered.close (h : p.Ordered start) :
    p.close.Ordered start :=
  { h with
    wellFormed := { h.wellFormed with } }

/-! ## Items and bytes -/

/-- The bytes the slots reserve. -/
def slotBytes (p : OrderedPublication τ) : Nat := (p.slots.map Slot.reservedBytes).sum

/-- The counters are those of the slots, within the limits. -/
structure Accounted (limits : CapacityLimits) (p : OrderedPublication τ) : Prop where
  limits_eq : p.limits = limits
  items : p.items = p.slots.length
  bytes : p.bytes = p.slotBytes
  items_le : p.items ≤ limits.maxItems
  bytes_le : p.bytes ≤ limits.maxBytes

theorem accounted_initial (limits : CapacityLimits) (initialVersion : Nat) :
    Accounted limits (initial limits initialVersion : OrderedPublication τ) where
  limits_eq := rfl
  items := rfl
  bytes := rfl
  items_le := Int.natCast_nonneg _
  bytes_le := Int.natCast_nonneg _

/-- A slot of the list stands between the slots that stay when it leaves. -/
theorem WellFormed.split (h : p.WellFormed) (hslot : slot ∈ p.slots) :
    ∃ before after, p.slots = before ++ slot :: after ∧
      (∀ other ∈ before, other.id ≠ slot.id) ∧ ∀ other ∈ after, other.id ≠ slot.id := by
  obtain ⟨before, after, hsplit⟩ := append_of_mem hslot
  have hdistinct := h.distinct
  rw [hsplit, map_append, map_cons, nodup_middle, nodup_cons,
    ← map_append] at hdistinct
  have hother : ∀ other ∈ before ++ after, other.id ≠ slot.id := by
    intro other hmem hid
    apply hdistinct.1
    rw [← hid]
    exact mem_map_of_mem hmem
  exact ⟨before, after, hsplit, fun other hmem => hother other (mem_append_left _ hmem),
    fun other hmem => hother other (mem_append_right _ hmem)⟩

/-- What a replaced slot keeps. -/
theorem setSlot_map {β : Type} (p : OrderedPublication τ) (id : Nat) {f : Slot τ → Slot τ}
    (g : Slot τ → β) (hf : ∀ slot, g (f slot) = g slot) :
    (p.setSlot id f).slots.map g = p.slots.map g := by
  rw [setSlot_slots, map_map]
  refine map_congr_left ?_
  intro slot _
  simp only [Function.comp_apply]
  split
  · exact hf slot
  · rfl

/-- The pump changes no slot but in its state. -/
theorem pump_map {β : Type} (p : OrderedPublication τ) (f : Slot τ → β)
    (hf : ∀ slot, f { slot with state := .processing } = f slot) :
    p.pump.slots.map f = p.slots.map f := by
  unfold pump
  split
  · rfl
  split
  · rfl
  exact p.setSlot_map _ f hf

variable {limits : CapacityLimits}

theorem Accounted.of_same (h : p.Accounted limits) (hlimits : q.limits = p.limits)
    (hslots : q.slots = p.slots) (hitems : q.items = p.items) (hbytes : q.bytes = p.bytes) :
    q.Accounted limits where
  limits_eq := hlimits.trans h.limits_eq
  items := by rw [hitems, hslots, h.items]
  bytes := by rw [hbytes, h.bytes, slotBytes, slotBytes, hslots]
  items_le := hitems ▸ h.items_le
  bytes_le := hbytes ▸ h.bytes_le

theorem Accounted.pump (h : p.Accounted limits) :
    p.pump.Accounted limits := by
  have hbytes : p.pump.slotBytes = p.slotBytes := congrArg sum (p.pump_map _ fun _ => rfl)
  have hlength : p.pump.slots.length = p.slots.length := by
    simpa using congrArg length (p.pump_map Slot.id fun _ => rfl)
  have hsame : p.pump.items = p.items ∧ p.pump.bytes = p.bytes ∧ p.pump.limits = p.limits := by
    unfold OrderedPublication.pump
    split
    · exact ⟨rfl, rfl, rfl⟩
    · split <;> exact ⟨rfl, rfl, rfl⟩
  obtain ⟨hitems, hbytesSame, hlimits⟩ := hsame
  refine ⟨hlimits.trans h.limits_eq, ?_, ?_, hitems ▸ h.items_le, hbytesSame ▸ h.bytes_le⟩
  · rw [hitems, hlength, h.items]
  · rw [hbytesSame, hbytes, h.bytes]

theorem Accounted.detach {p : OrderedPublication τ} (h : p.Accounted limits) (hp : p.WellFormed)
    {slot : Slot τ} (hslot : slot ∈ p.slots) : (p.detach slot).Accounted limits := by
  obtain ⟨before, after, hsplit, hbefore, hafter⟩ := hp.split hslot
  have hfilter : (p.detach slot).slots = before ++ after := by
    show p.slots.filter _ = _
    rw [hsplit, filter_append, filter_cons_of_neg (by simp),
      filter_eq_self.2 (by simpa using hbefore), filter_eq_self.2 (by simpa using hafter)]
  have hitems := h.items
  have hbytes := h.bytes
  have hitemsLe := h.items_le
  have hbytesLe := h.bytes_le
  rw [slotBytes, hsplit, map_append, map_cons, sum_append, sum_cons] at hbytes
  rw [hsplit, length_append, length_cons] at hitems
  refine ⟨h.limits_eq, ?_, ?_, ?_, ?_⟩
  · rw [hfilter, length_append]
    show p.items - 1 = _
    omega
  · rw [slotBytes, hfilter, map_append, sum_append]
    show p.bytes - slot.reservedBytes = _
    omega
  · exact (Int.sub_le_self _ (by decide)).trans hitemsLe
  · exact (Int.sub_le_self _ (Int.natCast_nonneg _)).trans hbytesLe

section

variable (h : p.Accounted limits)
include h

theorem Accounted.reserve {now : Int} (hreserve : p.reserve bytes now = .ok (q, id)) :
    q.Accounted limits := by
  unfold OrderedPublication.reserve at hreserve
  split_ifs at hreserve with _ hroom
  cases hreserve
  rw [h.limits_eq] at hroom
  have hitems := h.items
  have hbytes := h.bytes
  refine ⟨h.limits_eq, ?_, ?_, ?_, ?_⟩
  · show p.items + 1 = ((p.slots ++ [_]).length : Int)
    rw [length_append, length_singleton]
    omega
  · show p.bytes + bytes = (((p.slots ++ [_]).map Slot.reservedBytes).sum : Int)
    rw [map_append, sum_append, map_singleton, sum_singleton, hbytes,
      slotBytes]
    rfl
  · show p.items + 1 ≤ (limits.maxItems : Int)
    omega
  · show p.bytes + bytes ≤ (limits.maxBytes : Int)
    omega

theorem Accounted.commitSlot {value : τ} (hcommit : p.commitSlot id value = .ok q) :
    q.Accounted limits := by
  rw [OrderedPublication.commitSlot, Except.bind_eq_ok] at hcommit
  obtain ⟨slot, -, hcommit⟩ := hcommit
  cases hcommit
  apply Accounted.pump
  refine { h with items := ?_, bytes := ?_ }
  · rw [setSlot_slots, length_map]
    exact h.items
  have hmap := p.setSlot_map id (f := fun s => { s with state := .committed, value := some value })
    Slot.reservedBytes fun _ => rfl
  rw [slotBytes, hmap]
  exact h.bytes

theorem Accounted.resizeSlot (hp : p.WellFormed) (hresize : p.resizeSlot id bytes = .ok q) :
    q.Accounted limits := by
  rw [OrderedPublication.resizeSlot, Except.bind_eq_ok] at hresize
  obtain ⟨slot, hslot, hresize⟩ := hresize
  split_ifs at hresize with hroom
  cases hresize
  obtain ⟨-, hmem, rfl, -⟩ := assertOpenSlot_eq_ok hslot
  obtain ⟨before, after, hsplit, hbefore, hafter⟩ := hp.split hmem
  have hslots : (p.setSlot slot.id fun s => { s with reservedBytes := bytes }).slots =
      before ++ { slot with reservedBytes := bytes } :: after := by
    have hkeep : ∀ others : List (Slot τ), (∀ other ∈ others, other.id ≠ slot.id) →
        (others.map fun s => if s.id = slot.id then { s with reservedBytes := bytes } else s) =
          others := by
      intro others hothers
      refine (map_congr_left fun other hother => if_neg (hothers other hother)).trans ?_
      exact map_id' others
    rw [setSlot_slots, hsplit, map_append, map_cons, if_pos rfl, hkeep before hbefore,
      hkeep after hafter]
  have hbytes := h.bytes
  rw [slotBytes, hsplit, map_append, map_cons, sum_append, sum_cons] at hbytes
  rw [h.limits_eq] at hroom
  refine ⟨h.limits_eq, ?_, ?_, h.items_le, ?_⟩
  · rw [setSlot_slots, length_map]
    exact h.items
  · show p.bytes + (bytes - slot.reservedBytes) =
      ((((p.setSlot slot.id _).slots).map Slot.reservedBytes).sum : Int)
    simp only [hslots, map_append, map_cons, sum_append, sum_cons]
    omega
  · show p.bytes + (bytes - slot.reservedBytes) ≤ (limits.maxBytes : Int)
    omega

theorem Accounted.cancelSlot (hp : p.WellFormed) (hcancel : p.cancelSlot id = .ok q) :
    q.Accounted limits := by
  rw [OrderedPublication.cancelSlot, Except.bind_eq_ok] at hcancel
  obtain ⟨slot, hslot, hcancel⟩ := hcancel
  cases hcancel
  obtain ⟨-, hmem, -, -⟩ := assertOpenSlot_eq_ok hslot
  have hclosed : { p with openReservation := none }.Accounted limits := h.of_same rfl rfl rfl rfl
  exact hclosed.detach hp.closeReservation hmem

end

theorem Accounted.settle {p : OrderedPublication τ} (h : p.Accounted limits) (hp : p.WellFormed)
    {slot : Slot τ} (hslot : slot ∈ p.slots) (failed : Bool) :
    (p.settle slot failed).Accounted limits := by
  have hmarked : (p.markSettled slot).Accounted limits := h.of_same rfl rfl rfl rfl
  have hmarkedWf : (p.markSettled slot).WellFormed := { hp with }
  have hsettled := hmarked.detach hmarkedWf hslot
  obtain ⟨failures, lastFailureVersion, heq⟩ := p.settleSlot_eq slot failed
  rw [settle_eq_pump, heq]
  apply Accounted.pump
  exact hsettled.of_same rfl rfl rfl rfl

end AckerDB.OrderedPublication
