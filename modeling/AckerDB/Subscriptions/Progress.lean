import AckerDB.Subscriptions.Ordering

/-!
# What a publication waits for

Of the slots in processing one may be queued as a microtask and one in its `process`
call; the others were handed off.  A slot that is reserved is numbered, and leaves the
list once.

* `Quiet` — an operation by which no slot starts and none settles;
* `Awaiting` — who holds each slot in processing, kept by every operation;
* `Passed`, `Completed` — what the record of a run says about the slots that are left.
-/

namespace AckerDB.OrderedPublication

open List

variable {τ : Type}

/-! ## Operations by which no slot starts and none settles -/

/-- No slot starts and none settles; the pump may queue one. -/
structure Quiet (p q : OrderedPublication τ) : Prop where
  unsettled : q.unsettledVersions = p.unsettledVersions
  started : q.startedHighWater = p.startedHighWater
  kept : ∀ slot ∈ p.slots, slot.state = .processing → slot ∈ q.slots
  queued : ∀ slot ∈ q.slots, slot.state = .processing →
    slot ∈ p.slots ∨ q.starting = true ∧ q.scheduled = some slot.id
  starting : q.starting = p.starting ∧ q.scheduled = p.scheduled ∨
    p.starting = false ∧ q.starting = true ∧ ∃ id, q.scheduled = some id ∧
      ∀ slot ∈ p.slots, slot.state = .processing → slot.id ≠ id

variable {p : OrderedPublication τ}

theorem Quiet.trans {q r : OrderedPublication τ} (hpq : Quiet p q) (hqr : Quiet q r) :
    Quiet p r where
  unsettled := hqr.unsettled.trans hpq.unsettled
  started := hqr.started.trans hpq.started
  kept := fun slot hslot hstate => hqr.kept slot (hpq.kept slot hslot hstate) hstate
  queued := by
    intro slot hslot hstate
    rcases hqr.queued slot hslot hstate with hslot | hscheduled
    · refine (hpq.queued slot hslot hstate).imp_right ?_
      rintro ⟨hstarting, hscheduled⟩
      rcases hqr.starting with ⟨hsame, hsameScheduled⟩ | ⟨hfalse, -⟩
      · exact ⟨hsame.trans hstarting, hsameScheduled.trans hscheduled⟩
      · rw [hfalse] at hstarting
        cases hstarting
    · exact .inr hscheduled
  starting := by
    rcases hqr.starting with ⟨hsame, hscheduled⟩ | ⟨hfalse, hrest⟩
    · rw [hsame, hscheduled]
      exact hpq.starting
    rcases hpq.starting with ⟨hsame, -⟩ | ⟨-, htrue, -⟩
    · obtain ⟨htrue, id, hid, hother⟩ := hrest
      refine .inr ⟨hsame ▸ hfalse, htrue, id, hid, fun slot hslot hstate => ?_⟩
      exact hother slot (hpq.kept slot hslot hstate) hstate
    · rw [hfalse] at htrue
      cases htrue

variable {id bytes : Nat} {slot : Slot τ} {value : τ} {now : Int}

section

variable {p q : OrderedPublication τ}

/-- An operation that starts and queues nothing, and leaves the slots in processing alone. -/
theorem Quiet.of_slots
    (hunsettled : q.unsettledVersions = p.unsettledVersions)
    (hstarted : q.startedHighWater = p.startedHighWater)
    (hslots : ∀ slot, slot.state = .processing → (slot ∈ q.slots ↔ slot ∈ p.slots))
    (hstarting : q.starting = p.starting) (hscheduled : q.scheduled = p.scheduled) : Quiet p q where
  unsettled := hunsettled
  started := hstarted
  kept := fun slot hslot hstate => (hslots slot hstate).2 hslot
  queued := fun slot hslot hstate => .inl ((hslots slot hstate).1 hslot)
  starting := .inl ⟨hstarting, hscheduled⟩

theorem WellFormed.quiet_pump (h : p.WellFormed) : Quiet p p.pump := by
  unfold OrderedPublication.pump
  split
  · exact .of_slots rfl rfl (fun _ _ => Iff.rfl) rfl rfl
  rename_i hstarting
  split
  · exact .of_slots rfl rfl (fun _ _ => Iff.rfl) rfl rfl
  rename_i found hfound
  have hmem := mem_of_find?_eq_some hfound
  have hcommitted : found.state = .committed := by simpa using find?_some hfound
  have hne : ∀ slot ∈ p.slots, slot.state = .processing → slot.id ≠ found.id := by
    intro slot hslot hstate hid
    rw [h.slot_unique hslot hmem hid, hcommitted] at hstate
    cases hstate
  refine ⟨rfl, rfl, ?_, ?_, .inr ⟨by simpa using hstarting, rfl, _, rfl, hne⟩⟩
  · intro slot hslot hstate
    exact (h.mem_setSlot hmem _).2 (.inr ⟨hslot, hne slot hslot hstate⟩)
  intro slot hslot _
  rcases (h.mem_setSlot hmem _).1 hslot with rfl | ⟨hslot, -⟩
  · exact .inr ⟨rfl, rfl⟩
  · exact .inl hslot

theorem quiet_reserve (h : p.reserve bytes now = .ok (q, id)) : Quiet p q := by
  unfold reserve at h
  split_ifs at h
  cases h
  refine .of_slots rfl rfl ?_ rfl rfl
  intro slot hstate
  rw [mem_append, mem_singleton]
  refine or_iff_left ?_
  rintro rfl
  cases hstate

/-- Replacing a slot that is not in processing, by one that is not, changes none that is. -/
theorem WellFormed.mem_setSlot_processing (h : p.WellFormed) {found : Slot τ}
    (hfound : found ∈ p.slots) (hstate : found.state ≠ .processing) {f : Slot τ → Slot τ}
    (hf : (f found).state ≠ .processing) (hslot : slot.state = .processing) :
    slot ∈ (p.setSlot found.id f).slots ↔ slot ∈ p.slots := by
  rw [h.mem_setSlot hfound]
  constructor
  · rintro (rfl | ⟨hmem, -⟩)
    · exact absurd hslot hf
    · exact hmem
  intro hmem
  refine .inr ⟨hmem, ?_⟩
  intro hid
  rw [h.slot_unique hmem hfound hid] at hslot
  exact hstate hslot

theorem WellFormed.quiet_commitSlot (hp : p.WellFormed) (h : p.commitSlot id value = .ok q) :
    Quiet p q := by
  rw [OrderedPublication.commitSlot, Except.bind_eq_ok] at h
  obtain ⟨found, hfound, h⟩ := h
  cases h
  obtain ⟨-, hmem, rfl, hstate⟩ := assertOpenSlot_eq_ok hfound
  refine Quiet.trans ?_ (hp.committing value).quiet_pump
  refine .of_slots rfl rfl ?_ rfl rfl
  intro slot hslot
  refine hp.mem_setSlot_processing hmem (by simp [hstate]) ?_ hslot
  simp

theorem WellFormed.quiet_resizeSlot (hp : p.WellFormed) (h : p.resizeSlot id bytes = .ok q) :
    Quiet p q := by
  rw [OrderedPublication.resizeSlot, Except.bind_eq_ok] at h
  obtain ⟨found, hfound, h⟩ := h
  obtain ⟨-, hmem, rfl, hstate⟩ := assertOpenSlot_eq_ok hfound
  split_ifs at h
  cases h
  refine .of_slots rfl rfl ?_ rfl rfl
  intro slot hslot
  exact hp.mem_setSlot_processing hmem (by simp [hstate]) (by simp [hstate]) hslot

theorem WellFormed.quiet_cancelSlot (hp : p.WellFormed) (h : p.cancelSlot id = .ok q) :
    Quiet p q := by
  rw [OrderedPublication.cancelSlot, Except.bind_eq_ok] at h
  obtain ⟨found, hfound, h⟩ := h
  cases h
  obtain ⟨-, hmem, rfl, hstate⟩ := assertOpenSlot_eq_ok hfound
  refine .of_slots rfl rfl ?_ rfl rfl
  intro slot hslot
  refine ⟨mem_of_mem_filter, fun hslotMem => (hp.mem_of_ne hmem hslotMem ?_).2⟩
  rintro rfl
  rw [hstate] at hslot
  cases hslot

end

/-! ## What is waited for -/

/-- While a slot waits, another one is starting. -/
def Pumped (p : OrderedPublication τ) : Prop :=
  ∀ slot ∈ p.slots, slot.state = .committed → p.starting = true

theorem pumped_pump (p : OrderedPublication τ) : p.pump.Pumped := by
  unfold pump
  split
  · rename_i hstarting
    exact fun _ _ _ => hstarting
  split
  · rename_i hnone
    intro slot hslot hstate
    exact absurd hstate (by simpa using find?_eq_none.1 hnone slot hslot)
  · exact fun _ _ _ => rfl

/-- Every slot in processing is queued, in its `process` call, or handed off. -/
structure Awaiting (p : OrderedPublication τ) (called : Option Nat) (handed : List Nat) :
    Prop where
  starting : p.starting = true → p.scheduled.isSome = true ∨ called.isSome = true
  calling : ∀ id, called = some id → p.starting = true ∧ p.scheduled = none ∧ id ∉ handed ∧
    ∃ slot ∈ p.slots, slot.id = id ∧ slot.state = .processing
  distinct : handed.Nodup
  pending : ∀ id ∈ handed, p.scheduled ≠ some id ∧
    ∃ slot ∈ p.slots, slot.id = id ∧ slot.state = .processing
  owned : ∀ slot ∈ p.slots, slot.state = .processing →
    p.scheduled = some slot.id ∨ called = some slot.id ∨ slot.id ∈ handed

section Awaiting

variable {start : Nat} {p q : OrderedPublication τ} {called : Option Nat} {handed : List Nat}

theorem Awaiting.quiet (h : p.Awaiting called handed) (hp : p.Ordered start)
    (hquiet : Quiet p q) : q.Awaiting called handed := by
  refine ⟨?_, ?_, h.distinct, ?_, ?_⟩
  · intro hstarting
    rcases hquiet.starting with ⟨hsame, hscheduled⟩ | ⟨-, -, id, hsome, -⟩
    · rw [hscheduled]
      exact h.starting (hsame ▸ hstarting)
    · exact .inl (by rw [hsome]; rfl)
  · intro id hid
    obtain ⟨hstarting, hnone, hnotHanded, slot, hslot, hslotId, hstate⟩ := h.calling id hid
    rcases hquiet.starting with ⟨hsame, hscheduled⟩ | ⟨hfalse, -⟩
    · exact ⟨hsame.trans hstarting, hscheduled.trans hnone, hnotHanded, slot,
        hquiet.kept slot hslot hstate, hslotId, hstate⟩
    · rw [hfalse] at hstarting
      cases hstarting
  · intro id hid
    obtain ⟨hne, slot, hslot, hslotId, hstate⟩ := h.pending id hid
    refine ⟨?_, slot, hquiet.kept slot hslot hstate, hslotId, hstate⟩
    rcases hquiet.starting with ⟨-, hscheduled⟩ | ⟨-, -, queued, hqueued, hother⟩
    · rw [hscheduled]
      exact hne
    · rw [hqueued, ← hslotId]
      exact fun heq => hother slot hslot hstate (Option.some.inj heq).symm
  · intro slot hslot hstate
    rcases hquiet.queued slot hslot hstate with hold | ⟨-, hscheduled⟩
    · rcases h.owned slot hold hstate with hscheduled | howned
      · rcases hquiet.starting with ⟨-, hsame⟩ | ⟨hfalse, -, -⟩
        · exact .inl (hsame.trans hscheduled)
        · have hstarting := (hp.scheduled _ hscheduled).1
          rw [hfalse] at hstarting
          cases hstarting
      · exact .inr howned
    · exact .inl hscheduled

/-- The queued slot is called. -/
theorem Awaiting.startScheduled (h : p.Awaiting called handed) (hp : p.Ordered start)
    (hstart : p.startScheduled = some (q, slot)) :
    q.Awaiting (some slot.id) handed := by
  obtain ⟨-, hmem, hstate, -, hscheduled, rfl⟩ := hp.startScheduled hstart
  refine ⟨fun _ => .inr rfl, ?_, h.distinct, ?_, ?_⟩
  · intro id hid
    cases hid
    exact ⟨(hp.scheduled _ hscheduled).1, rfl, fun hhanded => (h.pending _ hhanded).1 hscheduled,
      slot, hmem, rfl, hstate⟩
  · intro id hid
    exact ⟨nofun, (h.pending id hid).2⟩
  intro other hother hotherState
  rcases h.owned other hother hotherState with hsame | hcalled | hhanded
  · rw [hscheduled] at hsame
    exact .inr (.inl hsame)
  · have hnone := (h.calling _ hcalled).2.1
    rw [hscheduled] at hnone
    cases hnone
  · exact .inr (.inr hhanded)

/-- The slot of the call is handed off. -/
theorem Awaiting.handedOff (h : p.Awaiting (some id) handed) (hp : p.Ordered start) :
    p.handedOff.Awaiting none (handed ++ [id]) := by
  obtain ⟨-, hnone, hnotHanded, hslot⟩ := h.calling id rfl
  have hidle := hp.idle hnone
  refine Awaiting.quiet ⟨?_, nofun, ?_, ?_, ?_⟩ hidle hidle.wellFormed.quiet_pump
  · intro hfalse
    cases hfalse
  · exact h.distinct.append (nodup_singleton id) (disjoint_singleton.2 hnotHanded)
  · intro other hother
    have hne : p.scheduled ≠ some other := by simp [hnone]
    rcases mem_append.1 hother with hother | hother
    · exact ⟨hne, (h.pending other hother).2⟩
    · rw [mem_singleton] at hother
      exact ⟨hne, hother ▸ hslot⟩
  · intro slot hslot hstate
    rcases h.owned slot hslot hstate with hscheduled | hcalled | hhanded
    · exact .inl hscheduled
    · exact .inr (.inr (mem_append_right _ (by simp [Option.some.inj hcalled])))
    · exact .inr (.inr (mem_append_left _ hhanded))

/-- A slot leaves, with what waited for it. -/
theorem Awaiting.leave {slot : Slot τ} {starting failed : Bool} {next : Option Nat}
    {rest : List Nat} (h : p.Awaiting called handed)
    (hp : ({ p with starting }.settleSlot slot failed).Ordered start)
    (hstarting : starting = true → p.scheduled.isSome = true ∨ next.isSome = true)
    (hnext : ∀ id, next = some id → called = some id ∧ id ≠ slot.id ∧ starting = true)
    (hcalled : ∀ id, called = some id → id ≠ slot.id → next = some id)
    (hdistinct : rest.Nodup) (hrest : ∀ id, id ∈ rest ↔ id ∈ handed ∧ id ≠ slot.id) :
    ({ p with starting }.settle slot failed).Awaiting next rest := by
  refine Awaiting.quiet ?_ hp hp.wellFormed.quiet_pump
  obtain ⟨failures, lastFailureVersion, heq⟩ := { p with starting }.settleSlot_eq slot failed
  rw [heq]
  refine ⟨hstarting, ?_, hdistinct, ?_, ?_⟩
  · intro id hid
    obtain ⟨hsame, hne, htrue⟩ := hnext id hid
    obtain ⟨-, hnone, hnotHanded, other, hother, hotherId, hstate⟩ := h.calling id hsame
    exact ⟨htrue, hnone, fun hmem => hnotHanded ((hrest id).1 hmem).1, other,
      mem_detach.2 ⟨hother, hotherId ▸ hne⟩, hotherId, hstate⟩
  · intro id hid
    obtain ⟨hhanded, hne⟩ := (hrest id).1 hid
    obtain ⟨hscheduled, other, hother, hotherId, hstate⟩ := h.pending id hhanded
    exact ⟨hscheduled, other, mem_detach.2 ⟨hother, hotherId ▸ hne⟩, hotherId, hstate⟩
  intro other hother hstate
  obtain ⟨hother, hne⟩ := mem_detach.1 hother
  rcases h.owned other hother hstate with hscheduled | hcalling | hhanded
  · exact .inl hscheduled
  · exact .inr (.inl (hcalled _ hcalling hne))
  · exact .inr (.inr ((hrest _).2 ⟨hhanded, hne⟩))

end Awaiting

/-! ## What is recorded -/

/-- The recorded versions are those after the stored one, up to a high-water. -/
def Consecutive (start water : Nat) (versions : List Nat) : Prop :=
  versions = range' (start + 1) versions.length ∧ water = start + versions.length

variable {versions : List Nat} {start : Nat}

theorem Consecutive.append {water : Nat} (h : Consecutive start water versions) :
    Consecutive start (water + 1) (versions ++ [water + 1]) := by
  obtain ⟨hversions, hwater⟩ := h
  refine ⟨?_, ?_⟩
  · rw [length_append, length_singleton, range'_concat, ← hversions, Nat.one_mul,
      hwater]
    congr 2
    omega
  · rw [length_append, length_singleton]
    omega

/-- The versions that settled are those that were started and are not unsettled. -/
def Passed (start : Nat) (p : OrderedPublication τ) (versions : List Nat) : Prop :=
  ∀ version, version ∈ versions ↔
    start < version ∧ version ≤ p.startedHighWater ∧ version ∉ p.unsettledVersions

theorem Passed.quiet {q : OrderedPublication τ} (h : p.Passed start versions) (hquiet : Quiet p q) :
    q.Passed start versions := by
  intro version
  rw [hquiet.started, hquiet.unsettled]
  exact h version

theorem Passed.startScheduled {q : OrderedPublication τ} (h : p.Passed start versions)
    (hp : p.Ordered start) (hstart : p.startScheduled = some (q, slot)) :
    q.Passed start versions := by
  obtain ⟨-, -, -, hversion, -, rfl⟩ := hp.startScheduled hstart
  intro version
  rw [h version, mem_append, mem_singleton, not_or]
  constructor
  · rintro ⟨hlt, hle, hunsettled⟩
    exact ⟨hlt, by show version ≤ slot.version; omega, hunsettled, by omega⟩
  · rintro ⟨hlt, hle, hunsettled, hne⟩
    have hle : version ≤ slot.version := hle
    exact ⟨hlt, by omega, hunsettled⟩

theorem Passed.settle {start : Nat} {p : OrderedPublication τ} {versions : List Nat}
    {slot : Slot τ} {failed : Bool} (h : p.Passed start versions) (hp : p.Ordered start)
    (hwf : (p.settleSlot slot failed).WellFormed)
    (hunsettled : slot.version ∈ p.unsettledVersions) :
    (p.settle slot failed).Passed start (versions ++ [slot.version]) := by
  refine Passed.quiet ?_ hwf.quiet_pump
  obtain ⟨failures, lastFailureVersion, heq⟩ := p.settleSlot_eq slot failed
  rw [heq]
  intro version
  show _ ↔ start < version ∧ version ≤ p.startedHighWater ∧
    version ∉ p.unsettledVersions.filter fun other => other ≠ slot.version
  obtain ⟨hlt, hle, -⟩ := hp.unsettled _ hunsettled
  have hstart := hp.start_le
  rw [mem_append, mem_singleton, h version, mem_filter]
  simp only [ne_eq, decide_eq_true_eq, not_and, not_not]
  constructor
  · rintro (⟨hpast, hstarted, hnot⟩ | rfl)
    · exact ⟨hpast, hstarted, fun hmem => absurd hmem hnot⟩
    · exact ⟨by omega, hle, fun _ => rfl⟩
  rintro ⟨hpast, hstarted, honly⟩
  by_cases hmem : version ∈ p.unsettledVersions
  · exact .inr (honly hmem)
  · exact .inl ⟨hpast, hstarted, hmem⟩

/-- The slots of the list are those that were reserved and have not completed. -/
structure Completed (p : OrderedPublication τ) (completed : List Nat) : Prop where
  once : completed.Nodup
  known : ∀ id ∈ completed, id < p.nextSlot
  slots : p.slots.map Slot.id = (range p.nextSlot).filter fun id => id ∉ completed

section Completed

variable {p q : OrderedPublication τ} {completed : List Nat}

theorem Completed.of_ids (h : p.Completed completed)
    (hids : q.slots.map Slot.id = p.slots.map Slot.id) (hnext : q.nextSlot = p.nextSlot) :
    q.Completed completed where
  once := h.once
  known := hnext ▸ h.known
  slots := by rw [hids, h.slots, hnext]

theorem Completed.pump (h : p.Completed completed) : p.pump.Completed completed :=
  h.of_ids (p.pump_map Slot.id fun _ => rfl) p.pump_nextSlot

theorem pump_closed (p : OrderedPublication τ) : p.pump.closed = p.closed := by
  unfold pump
  split
  · rfl
  · split <;> rfl

/-- A commit adds and removes no slot. -/
theorem commitSlot_ids (h : p.commitSlot id value = .ok q) :
    q.slots.map Slot.id = p.slots.map Slot.id ∧ q.nextSlot = p.nextSlot ∧
      q.closed = p.closed := by
  rw [commitSlot, Except.bind_eq_ok] at h
  obtain ⟨found, -, h⟩ := h
  cases h
  refine ⟨?_, pump_nextSlot _, pump_closed _⟩
  exact (pump_map _ Slot.id fun _ => rfl).trans (p.setSlot_map id _ fun _ => rfl)

theorem commitSlot_pumped (h : p.commitSlot id value = .ok q) :
    q.Pumped := by
  rw [commitSlot, Except.bind_eq_ok] at h
  obtain ⟨found, -, h⟩ := h
  cases h
  exact pumped_pump _

/-- A change of size adds and removes no slot. -/
theorem resizeSlot_ids (h : p.resizeSlot id bytes = .ok q) :
    q.slots.map Slot.id = p.slots.map Slot.id ∧ q.nextSlot = p.nextSlot ∧
      q.closed = p.closed := by
  rw [resizeSlot, Except.bind_eq_ok] at h
  obtain ⟨found, -, h⟩ := h
  split_ifs at h
  · cases h
    exact ⟨p.setSlot_map id _ fun _ => rfl, rfl, rfl⟩

theorem resizeSlot_pumped (h : p.resizeSlot id bytes = .ok q) (hp : p.Pumped) : q.Pumped := by
  rw [resizeSlot, Except.bind_eq_ok] at h
  obtain ⟨found, -, h⟩ := h
  split_ifs at h
  cases h
  intro slot hslot hstate
  obtain ⟨old, hold, rfl⟩ := mem_map.1 hslot
  refine hp old hold ?_
  split at hstate <;> exact hstate

/-- A cancellation removes the reserved slot. -/
theorem cancelSlot_eq_ok (h : p.cancelSlot id = .ok q) :
    ∃ slot ∈ p.slots, slot.id = id ∧ q = { p with openReservation := none }.detach slot := by
  rw [cancelSlot, Except.bind_eq_ok] at h
  obtain ⟨slot, hslot, h⟩ := h
  cases h
  obtain ⟨-, hmem, hid, -⟩ := assertOpenSlot_eq_ok hslot
  exact ⟨slot, hmem, hid, rfl⟩

/-- Only an open publication takes a reservation. -/
theorem reserve_opened (h : p.reserve bytes now = .ok (q, id)) (hp : p.Pumped) :
    p.closed = false ∧ q.closed = false ∧ q.Pumped := by
  unfold reserve at h
  split at h
  · cases h
  rename_i hclosed
  have hclosed : p.closed = false := by simpa using hclosed
  split at h
  · cases h
  split at h
  · cases h
  cases h
  refine ⟨hclosed, hclosed, ?_⟩
  intro slot hslot hstate
  rcases mem_append.1 hslot with hslot | hslot
  · exact hp slot hslot hstate
  · rw [mem_singleton] at hslot
    rw [hslot] at hstate
    cases hstate

/-- A slot that leaves completes, once. -/
theorem Completed.detach (h : p.Completed completed) {slot : Slot τ} (hslot : slot ∈ p.slots) :
    (p.detach slot).Completed (completed ++ [slot.id]) := by
  have hmem : slot.id ∈ (range p.nextSlot).filter fun id => id ∉ completed := by
    rw [← h.slots]
    exact mem_map_of_mem hslot
  simp only [mem_filter, mem_range, decide_eq_true_eq] at hmem
  constructor
  · exact h.once.append (nodup_singleton _) (disjoint_singleton.2 hmem.2)
  · exact forall_mem_append.2 ⟨h.known, forall_mem_singleton.2 hmem.1⟩
  have hfilter : (p.detach slot).slots.map Slot.id =
      (p.slots.map Slot.id).filter fun id => id ≠ slot.id := by
    rw [filter_map]
    rfl
  rw [hfilter, h.slots, filter_filter]
  refine filter_congr ?_
  intro id _
  simp [and_comm]

theorem Completed.reserve (h : p.Completed completed)
    (hreserve : p.reserve bytes now = .ok (q, id)) : q.Completed completed := by
  unfold OrderedPublication.reserve at hreserve
  split_ifs at hreserve
  cases hreserve
  refine ⟨h.once, fun id hid => Nat.lt_succ_of_lt (h.known id hid), ?_⟩
  have hfresh : p.nextSlot ∉ completed := fun hmem => lt_irrefl _ (h.known _ hmem)
  rw [map_append, h.slots, range_succ]
  simp [hfresh]

theorem Completed.settle (h : p.Completed completed) {slot : Slot τ} (hslot : slot ∈ p.slots)
    (failed : Bool) : (p.settle slot failed).Completed (completed ++ [slot.id]) := by
  obtain ⟨failures, lastFailureVersion, heq⟩ := p.settleSlot_eq slot failed
  rw [settle_eq_pump, heq]
  apply Completed.pump
  exact Completed.of_ids (h.detach hslot) rfl rfl

end Completed

end AckerDB.OrderedPublication
