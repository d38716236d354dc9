import AckerDB.Lib.Run
import AckerDB.Subscriptions.Progress

/-!
# Runs of a publication

The callers of a publication reserve, resize, commit, cancel and close; the microtask of a
slot calls `process`, which throws, hands the slot off, or returns a promise; the promises
settle in any order.  A call that throws changes nothing.

* `Settling` — the invariant, kept by every event;
* `Settling.exists_drained` — no slot is stuck;
* `publication_orderly` — order, accounting, settlement and drain of every run.
-/

namespace AckerDB

open List Option

variable {τ : Type}

/-- The `process` call of the slot that is starting: none, running, or a promise that is
waited for. -/
inductive ProcessCall where
  | idle
  | called (slot : Nat)
  | awaited (slot : Nat)
  deriving DecidableEq

/-- The slot of a `process` call. -/
def ProcessCall.slot? : ProcessCall → Option Nat
  | .idle => none
  | .called slot => some slot
  | .awaited slot => some slot

/-- A publication, what its promises wait for, and a record of what happened. -/
structure PublicationRun (τ : Type) where
  publication : OrderedPublication τ
  call : ProcessCall := .idle
  /-- The slots that were handed off and whose completion is pending. -/
  handed : List Nat := []
  /-- Whether the promise of `close` was resolved. -/
  closeResolved : Bool := false
  /-- The versions that were committed, in order. -/
  committed : List Nat := []
  /-- The versions whose processing was started, in order. -/
  started : List Nat := []
  /-- The versions whose processing has settled, in order. -/
  settled : List Nat := []
  /-- The slots whose `completion` was resolved or rejected, in order. -/
  completed : List Nat := []

/-- What may happen to a publication. -/
inductive PublicationEvent (τ : Type) where
  | reserve (reservedBytes : Nat) (now : Int)
  | resize (slot reservedBytes : Nat)
  | commit (slot : Nat) (value : τ)
  | cancel (slot : Nat)
  | close
  /-- The queued microtask calls `process`. -/
  | start
  /-- `process` throws; `failed` is whether it throws anything but `undefined`. -/
  | threw (failed : Bool)
  /-- `process` returns a handoff. -/
  | handoff
  /-- `process` returns a value or a promise. -/
  | returned
  /-- The promise of the starting slot settles. -/
  | processed (failed : Bool)
  /-- The completion of a handoff settles. -/
  | completed (slot : Nat) (failed : Bool)

namespace PublicationRun

/-- A new publication. -/
def initial (limits : CapacityLimits) (initialVersion : Nat) : PublicationRun τ where
  publication := .initial limits initialVersion

section

variable (r : PublicationRun τ)

/-- `resolveCloseIfDrained`. -/
def resolveCloseIfDrained : PublicationRun τ :=
  if r.publication.closed ∧ r.publication.items = 0 then { r with closeResolved := true } else r

/-- `settle`, with the promises it settles. -/
def settle (slot : Slot τ) (failed : Bool) : PublicationRun τ :=
  resolveCloseIfDrained
    { r with
      publication := r.publication.settle slot failed
      settled := r.settled ++ [slot.version]
      completed := r.completed ++ [slot.id] }

/-- The end of the `process` call of a slot that was not handed off. -/
def finish (slot : Slot τ) (failed : Bool) : PublicationRun τ :=
  { r with publication := { r.publication with starting := false }, call := .idle }.settle
    slot failed

/-- One event; a call that throws leaves the publication as it is. -/
def step : PublicationEvent τ → Option (PublicationRun τ)
  | .reserve reservedBytes now =>
    match r.publication.reserve reservedBytes now with
    | .ok (p, _) => some { r with publication := p }
    | .error _ => some r
  | .resize slot reservedBytes =>
    match r.publication.resizeSlot slot reservedBytes with
    | .ok p => some { r with publication := p }
    | .error _ => some r
  | .commit slot value =>
    match r.publication.commitSlot slot value with
    | .ok p =>
      some { r with publication := p, committed := r.committed ++ [p.committedHighWater] }
    | .error _ => some r
  | .cancel slot =>
    match r.publication.cancelSlot slot with
    | .ok p =>
      some (resolveCloseIfDrained
        { r with publication := p, completed := r.completed ++ [slot] })
    | .error _ => some r
  | .close =>
    if r.publication.closed then some r
    else some (resolveCloseIfDrained { r with publication := r.publication.close })
  | .start =>
    match r.publication.startScheduled with
    | some (p, slot) =>
      some { r with publication := p, call := .called slot.id
                    started := r.started ++ [slot.version] }
    | none => none
  | .threw failed =>
    match r.call with
    | .called id => (r.publication.slot? id).map fun slot => r.finish slot failed
    | _ => none
  | .handoff =>
    match r.call with
    | .called id =>
      some { r with publication := r.publication.handedOff, call := .idle
                    handed := r.handed ++ [id] }
    | _ => none
  | .returned =>
    match r.call with
    | .called id => some { r with call := .awaited id }
    | _ => none
  | .processed failed =>
    match r.call with
    | .awaited id => (r.publication.slot? id).map fun slot => r.finish slot failed
    | _ => none
  | .completed id failed =>
    if id ∈ r.handed then
      (r.publication.slot? id).map fun slot =>
        { r with handed := r.handed.erase id }.settle slot failed
    else none

end

open OrderedPublication

/-! ## The invariant of every run -/

/-- The promise of `close` is resolved exactly when the publication is closed and no slot is
left. -/
def Drained (r : PublicationRun τ) : Prop :=
  r.closeResolved = true ↔ r.publication.closed = true ∧ r.publication.slots = []

/-- The invariant of a run, all but the promise of `close`. -/
structure Settling (limits : CapacityLimits) (start : Nat) (r : PublicationRun τ) : Prop where
  ordered : r.publication.Ordered start
  accounted : r.publication.Accounted limits
  pumped : r.publication.Pumped
  awaiting : r.publication.Awaiting r.call.slot? r.handed
  committed : Consecutive start r.publication.committedHighWater r.committed
  started : Consecutive start r.publication.startedHighWater r.started
  settled : Passed start r.publication r.settled
  completed : r.publication.Completed r.completed

variable {next : PublicationRun τ} {bytes : Nat}

section Settling

variable {limits : CapacityLimits} {start : Nat} {r : PublicationRun τ}

variable {slot : Slot τ} {p : OrderedPublication τ} {id : Nat}

theorem settling_initial (limits : CapacityLimits) (start : Nat) :
    Settling limits start (initial limits start : PublicationRun τ) where
  ordered := ordered_initial limits start
  accounted := accounted_initial limits start
  pumped := nofun
  awaiting := ⟨nofun, nofun, nodup_nil, nofun, nofun⟩
  committed := ⟨rfl, rfl⟩
  started := ⟨rfl, rfl⟩
  settled := by
    intro version
    simp only [initial, OrderedPublication.initial, not_mem_nil, not_false_eq_true, and_true,
      false_iff]
    omega
  completed := ⟨nodup_nil, nofun, rfl⟩

theorem Settling.resolveCloseIfDrained (h : Settling limits start r) :
    Settling limits start r.resolveCloseIfDrained := by
  unfold PublicationRun.resolveCloseIfDrained
  split
  · exact { h with }
  · exact h

/-- The promise is resolved in the turn in which the last slot leaves. -/
theorem drained_resolveCloseIfDrained (h : Settling limits start r)
    (hpending : r.closeResolved = false) : r.resolveCloseIfDrained.Drained := by
  have hitems : r.publication.items = 0 ↔ r.publication.slots = [] := by
    rw [h.accounted.items, Int.natCast_eq_zero, length_eq_zero_iff]
  unfold PublicationRun.resolveCloseIfDrained
  split
  · rename_i hdrained
    exact iff_of_true rfl ⟨hdrained.1, hitems.1 hdrained.2⟩
  · rename_i hopen
    rw [hitems] at hopen
    exact iff_of_false (by simp [hpending]) hopen

/-- While a slot is left, the promise is pending. -/
theorem Drained.pending (h : r.Drained) (hslot : slot ∈ r.publication.slots) :
    r.closeResolved = false := by
  cases hresolved : r.closeResolved with
  | false => rfl
  | true =>
    rw [(h.1 hresolved).2] at hslot
    cases hslot

/-- An operation by which no slot starts and none settles. -/
theorem Settling.quiet (h : Settling limits start r) {committed completed : List Nat}
    (hquiet : Quiet r.publication p) (hordered : p.Ordered start) (haccounted : p.Accounted limits)
    (hpumped : p.Pumped) (hcommitted : Consecutive start p.committedHighWater committed)
    (hcompleted : p.Completed completed) :
    Settling limits start { r with publication := p, committed, completed } where
  ordered := hordered
  accounted := haccounted
  pumped := hpumped
  awaiting := h.awaiting.quiet h.ordered hquiet
  committed := hcommitted
  started := by
    rw [hquiet.started]
    exact h.started
  settled := h.settled.quiet hquiet
  completed := hcompleted

theorem Drained.of_ids (h : r.Drained) (hresolved : next.closeResolved = r.closeResolved)
    (hclosed : next.publication.closed = r.publication.closed)
    (hids : next.publication.slots.map Slot.id = r.publication.slots.map Slot.id) :
    next.Drained := by
  have hempty : next.publication.slots = [] ↔ r.publication.slots = [] := by
    rw [← map_eq_nil_iff, hids, map_eq_nil_iff]
  unfold Drained
  rw [hresolved, hclosed, hempty]
  exact h

/-- A publication that is not closed has no promise to resolve. -/
theorem Drained.opened (h : r.Drained) (hclosed : r.publication.closed = false) :
    r.closeResolved = false := by
  cases hresolved : r.closeResolved with
  | false => rfl
  | true =>
    have htrue := (h.1 hresolved).1
    rw [hclosed] at htrue
    cases htrue

/-! ## Every event keeps the invariant -/

section

variable (h : Settling limits start r) (hdrained : r.Drained)
include h hdrained

theorem Settling.reserve {now : Int} (hreserve : r.publication.reserve bytes now = .ok (p, id)) :
    Settling limits start { r with publication := p } ∧
      Drained { r with publication := p } := by
  have hwater := reserve_committedHighWater hreserve
  obtain ⟨hopen, hclosed, hpumped⟩ := reserve_opened hreserve h.pumped
  refine ⟨h.quiet (quiet_reserve hreserve) (h.ordered.reserve hreserve)
    (h.accounted.reserve hreserve) hpumped (hwater ▸ h.committed)
    (h.completed.reserve hreserve), ?_⟩
  exact iff_of_false (by simp [hdrained.opened hopen]) (by simp [hclosed])

theorem Settling.resize (hresize : r.publication.resizeSlot id bytes = .ok p) :
    Settling limits start { r with publication := p } ∧
      Drained { r with publication := p } := by
  have hwf := h.ordered.wellFormed
  have hwater := (hwf.resizeSlot hresize).2.2
  obtain ⟨hids, hnext, hclosed⟩ := resizeSlot_ids hresize
  refine ⟨h.quiet (hwf.quiet_resizeSlot hresize) (h.ordered.resizeSlot hresize)
    (h.accounted.resizeSlot hwf hresize) (resizeSlot_pumped hresize h.pumped)
    (hwater ▸ h.committed) (h.completed.of_ids hids hnext), ?_⟩
  exact hdrained.of_ids rfl hclosed hids

theorem Settling.commit {value : τ} (hcommit : r.publication.commitSlot id value = .ok p) :
    Settling limits start
        { r with publication := p, committed := r.committed ++ [p.committedHighWater] } ∧
      Drained { r with publication := p, committed := r.committed ++ [p.committedHighWater] } := by
  have hwf := h.ordered.wellFormed
  obtain ⟨-, -, -, hwater⟩ := hwf.commitSlot hcommit
  obtain ⟨hids, hnext, hclosed⟩ := commitSlot_ids hcommit
  refine ⟨h.quiet (hwf.quiet_commitSlot hcommit) (h.ordered.commitSlot hcommit)
    (h.accounted.commitSlot hcommit) (commitSlot_pumped hcommit) ?_
    (h.completed.of_ids hids hnext), hdrained.of_ids rfl hclosed hids⟩
  rw [hwater]
  exact h.committed.append

theorem Settling.cancel (hcancel : r.publication.cancelSlot id = .ok p) :
    Settling limits start (PublicationRun.resolveCloseIfDrained
        { r with publication := p, completed := r.completed ++ [id] }) ∧
      (PublicationRun.resolveCloseIfDrained
        { r with publication := p, completed := r.completed ++ [id] }).Drained := by
  have hwf := h.ordered.wellFormed
  obtain ⟨-, -, -, hwater⟩ := hwf.cancelSlot hcancel
  obtain ⟨slot, hslot, rfl, rfl⟩ := cancelSlot_eq_ok hcancel
  have hcompleted : { r.publication with openReservation := none }.Completed r.completed :=
    h.completed.of_ids rfl rfl
  have hsettling := h.quiet (hwf.quiet_cancelSlot hcancel) (h.ordered.cancelSlot hcancel)
    (h.accounted.cancelSlot hwf hcancel)
    (fun other hother hstate => h.pumped other (mem_detach.1 hother).1 hstate)
    h.committed (hcompleted.detach hslot)
  exact ⟨hsettling.resolveCloseIfDrained,
    drained_resolveCloseIfDrained hsettling (hdrained.pending hslot)⟩

theorem Settling.close (hopen : r.publication.closed = false) :
    Settling limits start
        (PublicationRun.resolveCloseIfDrained { r with publication := r.publication.close }) ∧
      (PublicationRun.resolveCloseIfDrained
        { r with publication := r.publication.close }).Drained := by
  have hquiet : Quiet r.publication r.publication.close :=
    .of_slots rfl rfl (fun _ _ => Iff.rfl) rfl rfl
  have hsettling := h.quiet hquiet h.ordered.close (h.accounted.of_same rfl rfl rfl rfl) h.pumped
    h.committed (h.completed.of_ids rfl rfl)
  exact ⟨hsettling.resolveCloseIfDrained,
    drained_resolveCloseIfDrained hsettling (hdrained.opened hopen)⟩

theorem Settling.started_slot (hstart : r.publication.startScheduled = some (p, slot)) :
    Settling limits start
        { r with publication := p, call := .called slot.id
                 started := r.started ++ [slot.version] } ∧
      Drained { r with publication := p, call := .called slot.id
                       started := r.started ++ [slot.version] } := by
  have hawaiting := h.awaiting.startScheduled h.ordered hstart
  have hpassed := h.settled.startScheduled h.ordered hstart
  obtain ⟨hordered, -, -, hversion, -, rfl⟩ := h.ordered.startScheduled hstart
  refine ⟨⟨hordered, h.accounted.of_same rfl rfl rfl rfl, h.pumped, hawaiting, h.committed, ?_,
    hpassed, h.completed.of_ids rfl rfl⟩, hdrained.of_ids rfl rfl rfl⟩
  rw [hversion]
  exact h.started.append

theorem Settling.handoff (hcall : r.call = .called id) :
    Settling limits start
        { r with publication := r.publication.handedOff, call := .idle
                 handed := r.handed ++ [id] } ∧
      Drained { r with publication := r.publication.handedOff, call := .idle
                       handed := r.handed ++ [id] } := by
  have hawaiting := h.awaiting
  rw [hcall] at hawaiting
  have hnone := (hawaiting.calling id rfl).2.1
  have hidle := h.ordered.idle hnone
  have hquiet := hidle.wellFormed.quiet_pump
  have hids : r.publication.handedOff.slots.map Slot.id = r.publication.slots.map Slot.id :=
    pump_map _ Slot.id fun _ => rfl
  refine ⟨⟨hidle.pump, ?_, pumped_pump _, hawaiting.handedOff h.ordered, ?_, ?_, ?_,
    h.completed.of_ids hids (pump_nextSlot _)⟩, hdrained.of_ids rfl (pump_closed _) hids⟩
  · exact Accounted.pump (p := { r.publication with starting := false })
      (h.accounted.of_same rfl rfl rfl rfl)
  · rw [handedOff_committedHighWater]
    exact h.committed
  · rw [show r.publication.handedOff.startedHighWater = r.publication.startedHighWater from
      hquiet.started]
    exact h.started
  · exact Passed.quiet (p := { r.publication with starting := false }) h.settled hquiet

/-- A slot in processing that is not queued settles. -/
theorem Settling.settle {slot : Slot τ} {next : ProcessCall} {rest : List Nat}
    {starting failed : Bool} (hslot : slot ∈ r.publication.slots)
    (hstate : slot.state = .processing) (hscheduled : r.publication.scheduled ≠ some slot.id)
    (hordered : { r.publication with starting }.Ordered start)
    (hawaiting : ({ r.publication with starting }.settle slot failed).Awaiting next.slot? rest) :
    Settling limits start
        ({ r with publication := { r.publication with starting }, call := next
                  handed := rest }.settle slot failed) ∧
      ({ r with publication := { r.publication with starting }, call := next
                handed := rest }.settle slot failed).Drained := by
  have hunsettled : slot.version ∈ r.publication.unsettledVersions :=
    (h.ordered.processing slot hslot hstate).resolve_left hscheduled
  have hleft := hordered.settleSlot hslot hunsettled hstate failed
  have hquiet := hleft.wellFormed.quiet_pump
  have haccounted : { r.publication with starting }.Accounted limits :=
    h.accounted.of_same rfl rfl rfl rfl
  have hcompleted : { r.publication with starting }.Completed r.completed :=
    h.completed.of_ids rfl rfl
  have hpassed : { r.publication with starting }.Passed start r.settled := h.settled
  obtain ⟨failures, lastFailureVersion, heq⟩ :=
    { r.publication with starting }.settleSlot_eq slot failed
  have hsettling : Settling limits start
      { r with publication := { r.publication with starting }.settle slot failed, call := next
               handed := rest, settled := r.settled ++ [slot.version]
               completed := r.completed ++ [slot.id] } := by
    refine ⟨hleft.pump, haccounted.settle hordered.wellFormed hslot failed, pumped_pump _,
      hawaiting, ?_, ?_, hpassed.settle hordered hleft.wellFormed hunsettled, hcompleted.settle hslot failed⟩
    · show Consecutive start
        ({ r.publication with starting }.settle slot failed).committedHighWater _
      rw [settle_committedHighWater]
      exact h.committed
    · rw [settle_eq_pump, hquiet.started, heq]
      exact h.started
  exact ⟨hsettling.resolveCloseIfDrained,
    drained_resolveCloseIfDrained hsettling (hdrained.pending hslot)⟩

end

/-- The `process` call of a slot ends. -/
theorem Settling.finish (failed : Bool) (h : Settling limits start r) (hdrained : r.Drained)
    (hcall : r.call.slot? = some id) (hfound : r.publication.slot? id = some slot) :
    Settling limits start (r.finish slot failed) ∧ (r.finish slot failed).Drained := by
  obtain ⟨-, hnone, hnotHanded, other, hother, rfl, hstate⟩ := h.awaiting.calling id hcall
  rw [h.ordered.wellFormed.slot?_eq hother] at hfound
  obtain rfl := some.inj hfound
  have hidle := h.ordered.idle hnone
  have hunsettled : other.version ∈ r.publication.unsettledVersions :=
    (h.ordered.processing other hother hstate).resolve_left (by simp [hnone])
  suffices hawaiting : ({ r.publication with starting := false }.settle other failed).Awaiting
      ProcessCall.idle.slot? r.handed from
    h.settle hdrained hother hstate (by simp [hnone]) hidle hawaiting
  refine h.awaiting.leave (hidle.settleSlot hother hunsettled hstate failed) nofun nofun ?_
    h.awaiting.distinct ?_
  · intro id hid hne
    rw [hcall] at hid
    exact absurd (some.inj hid).symm hne
  intro id
  refine ⟨fun hid => ⟨hid, ?_⟩, And.left⟩
  rintro rfl
  exact hnotHanded hid

/-- The completion of a handoff settles. -/
theorem Settling.complete (failed : Bool) (h : Settling limits start r) (hdrained : r.Drained)
    (hhanded : id ∈ r.handed) (hfound : r.publication.slot? id = some slot) :
    Settling limits start ({ r with handed := r.handed.erase id }.settle slot failed) ∧
      ({ r with handed := r.handed.erase id }.settle slot failed).Drained := by
  obtain ⟨hscheduled, other, hother, rfl, hstate⟩ := h.awaiting.pending id hhanded
  rw [h.ordered.wellFormed.slot?_eq hother] at hfound
  obtain rfl := some.inj hfound
  have hunsettled : other.version ∈ r.publication.unsettledVersions :=
    (h.ordered.processing other hother hstate).resolve_left hscheduled
  suffices hawaiting : (r.publication.settle other failed).Awaiting r.call.slot?
      (r.handed.erase other.id) from
    @Settling.settle _ limits start r h hdrained other r.call _ r.publication.starting failed hother
      hstate hscheduled h.ordered hawaiting
  refine @Awaiting.leave _ start r.publication _ _ other r.publication.starting failed _ _
    h.awaiting (h.ordered.settleSlot hother hunsettled hstate failed) h.awaiting.starting ?_
    (fun id hid _ => hid) (h.awaiting.distinct.erase _) ?_
  · intro id hid
    obtain ⟨hstarting, -, hnotHanded, -⟩ := h.awaiting.calling id hid
    refine ⟨hid, ?_, hstarting⟩
    rintro rfl
    exact hnotHanded hhanded
  · intro id
    rw [h.awaiting.distinct.mem_erase_iff, and_comm]

/-- **Every event keeps the invariant.** -/
theorem Settling.step {event : PublicationEvent τ} (h : Settling limits start r)
    (hdrained : r.Drained) (hstep : r.step event = some next) :
    Settling limits start next ∧ next.Drained := by
  cases event with
  | reserve =>
    rw [PublicationRun.step] at hstep
    split at hstep
    · rename_i hreserve
      cases hstep
      exact h.reserve hdrained hreserve
    · cases hstep
      exact ⟨h, hdrained⟩
  | resize =>
    rw [PublicationRun.step] at hstep
    split at hstep
    · rename_i hresize
      cases hstep
      exact h.resize hdrained hresize
    · cases hstep
      exact ⟨h, hdrained⟩
  | commit =>
    rw [PublicationRun.step] at hstep
    split at hstep
    · rename_i hcommit
      cases hstep
      exact h.commit hdrained hcommit
    · cases hstep
      exact ⟨h, hdrained⟩
  | cancel =>
    rw [PublicationRun.step] at hstep
    split at hstep
    · rename_i hcancel
      cases hstep
      exact h.cancel hdrained hcancel
    · cases hstep
      exact ⟨h, hdrained⟩
  | close =>
    rw [PublicationRun.step] at hstep
    split at hstep
    · cases hstep
      exact ⟨h, hdrained⟩
    · rename_i hopen
      cases hstep
      exact h.close hdrained (by simpa using hopen)
  | start =>
    rw [PublicationRun.step] at hstep
    split at hstep
    · rename_i hstart
      cases hstep
      exact h.started_slot hdrained hstart
    · cases hstep
  | handoff =>
    rw [PublicationRun.step] at hstep
    split at hstep
    · rename_i hcall
      cases hstep
      exact h.handoff hdrained hcall
    · cases hstep
  | returned =>
    rw [PublicationRun.step] at hstep
    split at hstep
    · rename_i hcall
      cases hstep
      have hawaiting := h.awaiting
      rw [hcall] at hawaiting
      exact ⟨{ h with awaiting := hawaiting }, hdrained⟩
    · cases hstep
  | threw failed | processed failed =>
    rw [PublicationRun.step] at hstep
    split at hstep
    · rename_i hcall
      obtain ⟨slot, hslot, rfl⟩ := map_eq_some_iff.1 hstep
      exact h.finish failed hdrained (by rw [hcall]; rfl) hslot
    · cases hstep
  | completed id failed =>
    rw [PublicationRun.step] at hstep
    split at hstep
    · rename_i hhanded
      obtain ⟨slot, hslot, rfl⟩ := map_eq_some_iff.1 hstep
      exact h.complete failed hdrained hhanded hslot
    · cases hstep

theorem settling_of_reachable {guard : PublicationRun τ → PublicationEvent τ → Prop}
    (hreach : Run.Reachable PublicationRun.step guard (initial limits start) r) :
    Settling limits start r ∧ r.Drained := by
  refine @Run.Reachable.induct _ _ _ _ _ _ (fun r => Settling limits start r ∧ r.Drained)
    hreach ?_ ?_
  · refine ⟨settling_initial limits start, ?_⟩
    exact iff_of_false (by simp [initial]) (by simp [initial, OrderedPublication.initial])
  · intro s event next _ hinv _ hnext
    exact hinv.1.step hinv.2 hnext

/-! ## Nothing is stuck -/

/-- What the settlement of a slot is waiting for. -/
theorem Settling.awaited (h : Settling limits start r) (hslot : slot ∈ r.publication.slots) :
    r.publication.openReservation = some slot.id ∨ r.publication.scheduled.isSome = true ∨
      r.call.slot?.isSome = true ∨ slot.id ∈ r.handed := by
  cases hstate : slot.state with
  | reserved => exact .inl (h.ordered.reserved slot hslot hstate)
  | committed =>
    have hstarting := h.awaiting.starting (h.pumped slot hslot hstate)
    exact .inr (hstarting.imp_right .inl)
  | processing =>
    rcases h.awaiting.owned slot hslot hstate with hscheduled | hcalled | hhanded
    · exact .inr (.inl (by rw [hscheduled]; rfl))
    · exact .inr (.inr (.inl (by rw [hcalled]; rfl)))
    · exact .inr (.inr (.inr hhanded))

/-- How many events the slots still need at most. -/
def outstanding (p : OrderedPublication τ) : Nat :=
  2 * p.slots.length + if p.scheduled.isSome then 1 else 0

theorem outstanding_lt {q : OrderedPublication τ} (h : q.slots.length < p.slots.length) :
    outstanding q < outstanding p := by
  unfold outstanding
  split <;> split <;> omega

theorem length_settle_lt (hslot : slot ∈ p.slots) (failed : Bool) :
    (p.settle slot failed).slots.length < p.slots.length := by
  have hpump := congrArg length ((p.settleSlot slot failed).pump_map Slot.id fun _ => rfl)
  simp only [length_map] at hpump
  obtain ⟨failures, lastFailureVersion, heq⟩ := p.settleSlot_eq slot failed
  rw [settle_eq_pump, hpump, heq]
  exact length_filter_lt_length_iff_exists.2 ⟨slot, hslot, by simp⟩

@[simp] theorem resolveCloseIfDrained_publication (r : PublicationRun τ) :
    r.resolveCloseIfDrained.publication = r.publication := by
  unfold PublicationRun.resolveCloseIfDrained
  split <;> rfl

/-- While a slot is left, some event brings the run closer to its end. -/
theorem Settling.exists_step (h : Settling limits start r) (hslot : slot ∈ r.publication.slots) :
    ∃ event next, r.step event = some next ∧
      outstanding next.publication < outstanding r.publication := by
  have hwf := h.ordered.wellFormed
  rcases h.awaited hslot with hopen | hscheduled | hcalled | hhanded
  · obtain ⟨p, hp⟩ := hwf.exists_cancelSlot hopen
    refine ⟨.cancel slot.id, _, by rw [PublicationRun.step, hp], ?_⟩
    obtain ⟨found, hfound, -, rfl⟩ := cancelSlot_eq_ok hp
    rw [resolveCloseIfDrained_publication]
    exact outstanding_lt (length_filter_lt_length_iff_exists.2 ⟨found, hfound, by simp⟩)
  · obtain ⟨id, hid⟩ := isSome_iff_exists.1 hscheduled
    obtain ⟨-, found, hfound, rfl, -⟩ := h.ordered.scheduled id hid
    refine ⟨.start, _, by
      rw [PublicationRun.step, startScheduled, hid, bind_eq_bind, bind_some,
        hwf.slot?_eq hfound]
      rfl, ?_⟩
    simp [outstanding, hid]
  · obtain ⟨id, hid⟩ := isSome_iff_exists.1 hcalled
    obtain ⟨-, -, -, found, hfound, rfl, -⟩ := h.awaiting.calling id hid
    have hfinish : outstanding (r.finish found false).publication < outstanding r.publication := by
      rw [PublicationRun.finish, PublicationRun.settle, resolveCloseIfDrained_publication]
      exact outstanding_lt
        (length_settle_lt (p := { r.publication with starting := false }) hfound false)
    cases hcall : r.call with
    | idle =>
      rw [hcall] at hid
      cases hid
    | called =>
      rw [hcall] at hid
      cases hid
      refine ⟨.threw false, r.finish found false, ?_, hfinish⟩
      rw [PublicationRun.step, hcall]
      show (r.publication.slot? found.id).map _ = _
      rw [hwf.slot?_eq hfound]
      rfl
    | awaited =>
      rw [hcall] at hid
      cases hid
      refine ⟨.processed false, r.finish found false, ?_, hfinish⟩
      rw [PublicationRun.step, hcall]
      show (r.publication.slot? found.id).map _ = _
      rw [hwf.slot?_eq hfound]
      rfl
  · refine ⟨.completed slot.id false, _, by
      rw [PublicationRun.step, if_pos hhanded, hwf.slot?_eq hslot, map_some], ?_⟩
    rw [PublicationRun.settle, resolveCloseIfDrained_publication]
    exact outstanding_lt (length_settle_lt hslot false)

/-- **No slot is stuck.**  From every state some run settles every slot. -/
theorem Settling.exists_drained (h : Settling limits start r) (hdrained : r.Drained) :
    ∃ events next, Run.run PublicationRun.step r events = some next ∧
      next.publication.slots = [] := by
  induction hsize : outstanding r.publication using Nat.strong_induction_on generalizing r with
  | _ size ih =>
    rcases eq_nil_or_concat r.publication.slots with hnil | ⟨front, slot, hslots⟩
    · exact ⟨[], r, rfl, hnil⟩
    have hslot : slot ∈ r.publication.slots := by simp [hslots]
    obtain ⟨event, middle, hstep, hlt⟩ := h.exists_step hslot
    obtain ⟨hmiddle, hmiddleDrained⟩ := h.step hdrained hstep
    obtain ⟨events, next, hrun, hempty⟩ := ih _ (hsize ▸ hlt) hmiddle hmiddleDrained rfl
    refine ⟨event :: events, next, ?_, hempty⟩
    rw [Run.run, hstep]
    exact hrun

end Settling

/-! ## The contract -/

/-- **What every run of a publication keeps**, for the limits and the stored version it was
made with. -/
structure Orderly (limits : CapacityLimits) (start : Nat) (r : PublicationRun τ) : Prop where
  /-- A reserved slot has the version after the committed high-water. -/
  reserved : ∀ slot ∈ r.publication.slots, slot.state = .reserved →
    slot.version = r.publication.committedHighWater + 1
  /-- The versions are committed one after another, from the stored one. -/
  committed : r.committed = range' (start + 1) r.committed.length
  highWater : r.publication.committedHighWater = start + r.committed.length
  /-- They are started in the order of their versions. -/
  started : r.started <+: r.committed
  /-- The slots of the list are those that were reserved and have not completed. -/
  unsettled : r.publication.slots.map Slot.id =
    (range r.publication.nextSlot).filter fun id => id ∉ r.completed
  /-- No slot completes twice. -/
  once : r.completed.Nodup
  /-- No slot is stuck. -/
  settles : ∃ events next, Run.run PublicationRun.step r events = some next ∧
    next.publication.slots = []
  items : r.publication.items = r.publication.slots.length
  bytes : r.publication.bytes = r.publication.slotBytes
  items_le : r.publication.items ≤ limits.maxItems
  bytes_le : r.publication.bytes ≤ limits.maxBytes
  /-- The settled high-water is the last version up to which all have settled. -/
  processed : IsGreatest
    { version | start ≤ version ∧ ∀ earlier, start < earlier → earlier ≤ version →
      earlier ∈ r.settled }
    r.publication.settledHighWater
  /-- The promise of `close` is resolved exactly when no slot is left. -/
  closes : r.closeResolved = true ↔ r.publication.closed = true ∧ r.publication.slots = []

/-- The settled high-water passes what has settled and stops before what has not. -/
theorem Settling.isGreatest {limits : CapacityLimits} {start : Nat} {r : PublicationRun τ}
    (h : Settling limits start r) :
    IsGreatest
      { version | start ≤ version ∧ ∀ earlier, start < earlier → earlier ≤ version →
        earlier ∈ r.settled }
      r.publication.settledHighWater := by
  have hstarted := h.ordered.settled_le
  constructor
  · refine ⟨h.ordered.start_le, ?_⟩
    intro earlier hlt hle
    refine (h.settled earlier).2 ⟨hlt, by omega, ?_⟩
    intro hunsettled
    have hpast := (h.ordered.unsettled earlier hunsettled).1
    omega
  rintro version ⟨-, hall⟩
  by_contra hgreater
  -- the version after the settled high-water has not settled
  have hstart := h.ordered.start_le
  have hnext := hall (r.publication.settledHighWater + 1) (by omega) (by omega)
  obtain ⟨-, hle, hnotUnsettled⟩ := (h.settled _).1 hnext
  exact hnotUnsettled (h.ordered.stuck (by omega))

theorem range'_isPrefix {start short long : Nat} (h : short ≤ long) :
    range' start short <+: range' start long := by
  obtain ⟨rest, rfl⟩ := Nat.exists_eq_add_of_le h
  exact ⟨_, range'_append_1⟩

/-- **Order, accounting, settlement and drain.** -/
theorem publication_orderly (limits : CapacityLimits) (start : Nat) {r : PublicationRun τ}
    (hreach : Run.Reachable PublicationRun.step (fun _ _ => True) (initial limits start) r) :
    Orderly limits start r := by
  obtain ⟨h, hdrained⟩ := settling_of_reachable hreach
  obtain ⟨hcommitted, hwater⟩ := h.committed
  obtain ⟨hstarted, hstartedWater⟩ := h.started
  have hfront := h.ordered.front_le
  have hle := startedHighWater_le_front r.publication
  refine ⟨?_, hcommitted, hwater, ?_, h.completed.slots, h.completed.once,
    h.exists_drained hdrained, h.accounted.items, h.accounted.bytes, h.accounted.items_le, h.accounted.bytes_le, h.isGreatest,
    hdrained⟩
  · intro slot hslot hstate
    obtain ⟨found, hfound, hid, hversion, -⟩ :=
      h.ordered.wellFormed.reservation _ (h.ordered.reserved slot hslot hstate)
    rw [h.ordered.wellFormed.slot_unique hslot hfound hid.symm, hversion]
  · rw [hstarted, hcommitted]
    exact range'_isPrefix (by omega)

/-- Two commits, both handed off; the later one settles first, and the publication closes. -/
def handoffRun : List (PublicationEvent Unit) :=
  [.reserve 3 0, .commit 0 (), .reserve 4 0, .commit 1 (), .start, .handoff, .start, .handoff,
    .completed 1 false, .close]

theorem publication_orderly_handoffs :
    ∃ r, Run.run PublicationRun.step (initial ⟨2, 10⟩ 5) handoffRun = some r ∧
      r.settled = [7] ∧ r.publication.settledHighWater = 5 ∧ r.closeResolved = false ∧
      Orderly ⟨2, 10⟩ 5 r := by
  have hrun : (Run.run PublicationRun.step (initial ⟨2, 10⟩ 5) handoffRun).map (fun r =>
      (r.settled, r.publication.settledHighWater, r.closeResolved)) = some ([7], 5, false) := by
    decide +kernel
  obtain ⟨r, hr, hfields⟩ := map_eq_some_iff.1 hrun
  simp only [Prod.mk.injEq] at hfields
  refine ⟨r, hr, hfields.1, hfields.2.1, hfields.2.2, publication_orderly _ _ ?_⟩
  exact Run.reachable_of_run hr

end PublicationRun

end AckerDB
