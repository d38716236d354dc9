import AckerDB.Lib.DoublyLinked
import AckerDB.Subscriptions.Reactive.Window

/-!
# The resume window as it is stored

Record objects that know their neighbours in the ring and whether they are active, arrays of
records per entry, and counters.  Every operation does to them what the window of lists says.

* `LinkedHistory` — the objects, with the methods of the class;
* `Represents` — which window the objects stand for;
* `Represents.retain`, `Represents.prune`, `Represents.clear`, `Represents.chain` — the methods
  follow the window.
-/

namespace AckerDB

open Function List

/-- `TransitionHistory` with its record objects, by number. -/
structure LinkedHistory where
  limits : ResumeLimits
  /-- `head`, `tail`, and `previousGlobal` and `nextGlobal` of every record. -/
  links : DoublyLinked Nat := .empty
  records : Nat → HistoryRecord
  /-- `record.active`; a record that was never retained is referenced by nothing. -/
  active : Nat → Bool := fun _ => false
  /-- `entry.history`. -/
  histories : Nat → List Nat := fun _ => []
  /-- `entry.historyBytes`. -/
  historyBytes : Nat → Int := fun _ => 0
  retainedBytes : Int := 0
  retainedTransitions : Int := 0

namespace LinkedHistory

/-- `remove`. -/
def remove (l : LinkedHistory) (u : Nat) : LinkedHistory :=
  if l.active u then
    let record := l.records u
    { l with
      active := update l.active u false
      histories := update l.histories record.entry ((l.histories record.entry).erase u)
      historyBytes := update l.historyBytes record.entry
        (l.historyBytes record.entry - record.bytes)
      retainedBytes := l.retainedBytes - record.bytes
      retainedTransitions := l.retainedTransitions - 1
      links := l.links.unlink u }
  else l

/-- A loop that removes the head of the ring, as long as a condition asks for it; a turn for
every retained record is enough. -/
def removeHeads (wanted : LinkedHistory → HistoryRecord → Bool) : Nat → LinkedHistory → LinkedHistory
  | 0, l => l
  | turns + 1, l =>
    match l.links.head with
    | none => l
    | some u => if wanted l (l.records u) then removeHeads wanted turns (l.remove u) else l

/-- `prune`. -/
def prune (l : LinkedHistory) (now : Int) : LinkedHistory :=
  removeHeads (fun l record => decide (now - record.createdAtMs ≥ l.limits.maxAgeMs))
    l.retainedTransitions.toNat l

/-- `clear`. -/
def clear (l : LinkedHistory) (entry : Nat) : LinkedHistory :=
  (l.histories entry).foldl remove l

/-- The condition of the first loop of `retain`. -/
def crowded (l : LinkedHistory) (entry bytes : Nat) : Bool :=
  decide ((l.histories entry).length ≥ l.limits.maxTransitionsPerStream) ||
    decide ((bytes : Int) > l.limits.maxBytesPerStream - l.historyBytes entry)

/-- The first loop of `retain`; `remove(entry.history[0]!)` throws where there is no record. -/
def trimHistory (entry bytes : Nat) : Nat → LinkedHistory → Option LinkedHistory
  | 0, l => if l.crowded entry bytes then none else some l
  | turns + 1, l =>
    if l.crowded entry bytes then
      match l.histories entry with
      | [] => none
      | u :: _ => trimHistory entry bytes turns (l.remove u)
    else some l

/-- The end of `retain`: the record joins its entry and the ring. -/
def push (l : LinkedHistory) (record : HistoryRecord) : LinkedHistory :=
  { l with
    records := update l.records record.uid record
    active := update l.active record.uid true
    histories := update l.histories record.entry
      (l.histories record.entry ++ [record.uid])
    historyBytes := update l.historyBytes record.entry
      (l.historyBytes record.entry + record.bytes)
    retainedBytes := l.retainedBytes + record.bytes
    retainedTransitions := l.retainedTransitions + 1
    links := l.links.pushBack record.uid }

/-- `retain`; no result where it throws. -/
def retain (l : LinkedHistory) (record : HistoryRecord) : Option (LinkedHistory × Bool) :=
  let pruned := l.prune record.createdAtMs
  if record.bytes > l.limits.maxBytesPerStream ∨ record.bytes > l.limits.maxBytes then
    some (pruned.clear record.entry, false)
  else do
    let trimmed ← trimHistory record.entry record.bytes (pruned.histories record.entry).length pruned
    let roomy := removeHeads
      (fun l _ => decide ((record.bytes : Int) > l.limits.maxBytes - l.retainedBytes))
      trimmed.retainedTransitions.toNat trimmed
    if (record.bytes : Int) > roomy.limits.maxBytes - roomy.retainedBytes then
      some (roomy.clear record.entry, false)
    else some (roomy.push record, true)

/-- The loop of `chain`. -/
def chainFrom (l : LinkedHistory) (toVersion : Nat) : List Nat → Nat → Option (List HistoryRecord)
  | [], _ => none
  | u :: rest, version =>
    let record := l.records u
    if ¬ l.active u ∨ record.fromVersion < version then chainFrom l toVersion rest version
    else if record.fromVersion ≠ version then none
    else if record.toVersion = toVersion then some [record]
    else if record.toVersion > toVersion then none
    else (chainFrom l toVersion rest record.toVersion).map fun chain => record :: chain

/-- `chain`. -/
def chain (l : LinkedHistory) (entry fromVersion toVersion : Nat) : Option (List HistoryRecord) :=
  if fromVersion ≥ toVersion then none
  else l.chainFrom toVersion (l.histories entry) fromVersion

/-- **The window the objects stand for.**  Read along the links, the ring has exactly the active
records. -/
structure Represents (l : LinkedHistory) (h : TransitionHistory) : Prop where
  limits : l.limits = h.limits
  links : l.links.Holds (h.ring.map HistoryRecord.uid)
  records : ∀ record ∈ h.ring, l.records record.uid = record
  active : ∀ u, l.active u = true ↔ u ∈ h.ring.map HistoryRecord.uid
  histories : ∀ entry, l.histories entry = (h.streams entry).map HistoryRecord.uid
  historyBytes : l.historyBytes = h.streamBytes
  retainedBytes : l.retainedBytes = h.retainedBytes
  retainedTransitions : l.retainedTransitions = h.retainedTransitions

/-- The class before the first record. -/
def initial (limits : ResumeLimits) : LinkedHistory where
  limits := limits
  records := fun u => ⟨u, 0, 0, 0, .checkpoint, 0, 0⟩

theorem represents_initial (limits : ResumeLimits) : Represents (initial limits) { limits } where
  limits := rfl
  links := DoublyLinked.holds_empty
  records := by simp
  active := by simp [initial]
  histories := fun _ => rfl
  historyBytes := rfl
  retainedBytes := rfl
  retainedTransitions := rfl

section Refinement

open TransitionHistory

variable {l : LinkedHistory} {h : TransitionHistory} {record : HistoryRecord}

section

variable (hrep : Represents l h)

include hrep

theorem Represents.remove (hsound : h.Sound)
    {front back : List HistoryRecord} (hsplit : h.ring = front ++ record :: back) :
    Represents (l.remove record.uid) (h.remove record) := by
  have hmem : record ∈ h.ring := by simp [hsplit]
  have hactive : l.active record.uid = true :=
    (hrep.active _).2 (mem_map_of_mem hmem)
  have hrecord := hrep.records record hmem
  obtain ⟨-, hring⟩ := hsound.remove hsplit
  have hdistinct := hsound.distinct
  rw [hsplit, map_append] at hdistinct
  obtain ⟨-, hback, hapart⟩ := nodup_append.1 hdistinct
  have hremoved : l.remove record.uid =
      { l with
        active := update l.active record.uid false
        histories := update l.histories record.entry
          ((l.histories record.entry).erase record.uid)
        historyBytes := update l.historyBytes record.entry
          (l.historyBytes record.entry - record.bytes)
        retainedBytes := l.retainedBytes - record.bytes
        retainedTransitions := l.retainedTransitions - 1
        links := l.links.unlink record.uid } := by
    unfold LinkedHistory.remove
    rw [if_pos hactive, hrecord]
  have hwindow := remove_of_mem hmem
  refine ⟨?_, ?_, ?_, ?_, ?_, ?_, ?_, ?_⟩
  · rw [hremoved, hwindow]
    exact hrep.limits
  · have hlinks := hrep.links
    rw [hsplit, map_append] at hlinks
    rw [hring, hremoved, map_append]
    exact hlinks.unlink
  · intro other hother
    rw [hring] at hother
    rw [hremoved]
    refine hrep.records other ?_
    rw [hsplit]
    rcases mem_append.1 hother with hother | hother
    · exact mem_append_left _ hother
    · exact mem_append_right _ (mem_cons_of_mem _ hother)
  · intro u
    rw [hring, hremoved]
    by_cases hu : u = record.uid
    · subst hu
      simp only [update_self, Bool.false_eq_true, false_iff, map_append,
        mem_append, not_or]
      exact ⟨fun hfront => hapart _ hfront _ mem_cons_self rfl, (nodup_cons.1 hback).1⟩
    · simp only [update_of_ne hu]
      rw [hrep.active, hsplit]
      simp [hu]
  · intro entry
    rw [hremoved, hwindow]
    by_cases hentry : entry = record.entry
    · subst hentry
      have hnodup : ((h.streams record.entry).map HistoryRecord.uid).Nodup := by
        rw [hsound.stream]
        exact hsound.distinct.sublist (filter_sublist.map _)
      simp only [update_self]
      rw [hrep.histories, hnodup.erase_eq_filter, filter_map]
      congr 1
      refine filter_congr fun other _ => ?_
      by_cases hsame : other.uid = record.uid <;> simp [hsame]
    · simp only [update_of_ne hentry]
      exact hrep.histories entry
  · rw [hremoved, hwindow]
    simp only [hrep.historyBytes]
  · rw [hremoved, hwindow]
    simp only [hrep.retainedBytes]
  · rw [hremoved, hwindow]
    simp only [hrep.retainedTransitions]

omit hrep in
/-- A loop over the head of the ring. -/
theorem Represents.removeHeads {wanted : LinkedHistory → HistoryRecord → Bool}
    {wantedOf : TransitionHistory → HistoryRecord → Bool} {ring : List HistoryRecord}
    (hwanted : ∀ l h record, Represents l h → wanted l record = wantedOf h record)
    (hrep : Represents l h) (hsound : h.Sound) (hring : h.ring = ring) :
    Represents (removeHeads wanted ring.length l) (removeWhile wantedOf h ring) := by
  induction ring generalizing l h with
  | nil => exact hrep
  | cons record rest ih =>
    have hhead : l.links.head = some record.uid := by
      rw [hrep.links.head, hring]
      rfl
    have hrecord : l.records record.uid = record := hrep.records record (by simp [hring])
    have hsplit : h.ring = [] ++ record :: rest := hring
    simp only [length_cons, LinkedHistory.removeHeads, hhead, hrecord, removeWhile,
      hwanted l h record hrep]
    split
    · obtain ⟨hremoved, hafter⟩ := hsound.remove hsplit
      exact ih (hrep.remove hsound hsplit) hremoved hafter
    · exact hrep

theorem Represents.turns (hsound : h.Sound) :
    l.retainedTransitions.toNat = h.ring.length := by
  rw [hrep.retainedTransitions, hsound.retainedTransitions]
  exact Int.toNat_natCast _

theorem Represents.prune (hsound : h.Sound) (now : Int) :
    Represents (l.prune now) (h.prune now) := by
  unfold LinkedHistory.prune
  rw [hrep.turns hsound]
  refine hrep.removeHeads (fun l h record hrep => ?_) hsound rfl
  rw [hrep.limits]

/-- The oldest record of a stream leaves, and the stream goes on. -/
theorem Represents.removeFirst (hsound : h.Sound) {entry : Nat}
    {rest : List HistoryRecord} (hstream : h.streams entry = record :: rest) :
    Represents (l.remove record.uid) (h.remove record) ∧ (h.remove record).Sound ∧
      (h.remove record).streams entry = rest := by
  obtain ⟨front, back, hsplit, -⟩ := hsound.split_stream hstream
  obtain ⟨hremoved, hrest, -⟩ := hsound.remove_stream hstream
  exact ⟨hrep.remove hsound hsplit, hremoved, hrest⟩

theorem Represents.clear (hsound : h.Sound) (entry : Nat) :
    Represents (l.clear entry) (h.clear entry) := by
  unfold LinkedHistory.clear TransitionHistory.clear
  rw [hrep.histories]
  generalize hstream : h.streams entry = stream
  induction stream generalizing l h with
  | nil => exact hrep
  | cons record rest ih =>
    obtain ⟨hremoved, hremovedSound, hafter⟩ := hrep.removeFirst hsound hstream
    exact ih hremoved hremovedSound hafter

theorem Represents.crowded (entry bytes : Nat) :
    l.crowded entry bytes =
      (decide ((h.streams entry).length ≥ h.limits.maxTransitionsPerStream) ||
        decide ((bytes : Int) > h.limits.maxBytesPerStream - h.streamBytes entry)) := by
  unfold LinkedHistory.crowded
  rw [hrep.histories, hrep.limits, hrep.historyBytes, length_map]

/-- The first loop of `retain` ends before the stream is empty, or when it is. -/
theorem Represents.trimHistory (hsound : h.Sound) {entry bytes : Nat}
    (htransitions : 0 < h.limits.maxTransitionsPerStream)
    (hbytes : bytes ≤ h.limits.maxBytesPerStream) :
    ∃ trimmed, trimHistory entry bytes (l.histories entry).length l = some trimmed ∧
      Represents trimmed (h.trimStream entry bytes) := by
  unfold TransitionHistory.trimStream
  rw [hrep.histories, length_map]
  generalize hstream : h.streams entry = stream
  induction stream generalizing l h with
  | nil =>
    refine ⟨l, ?_, hrep⟩
    have hzero : h.streamBytes entry = 0 := by
      rw [hsound.streamBytes, hstream]
      rfl
    have hroom : l.crowded entry bytes = false := by
      rw [hrep.crowded, hstream, hzero]
      simp only [length_nil, Bool.or_eq_false_iff, decide_eq_false_iff_not]
      omega
    rw [length_nil, LinkedHistory.trimHistory, hroom]
    rfl
  | cons record rest ih =>
    rw [length_cons, LinkedHistory.trimHistory, hrep.crowded, removeWhile, hrep.histories,
      hstream, map_cons]
    split
    · obtain ⟨hremoved, hremovedSound, hafter⟩ := hrep.removeFirst hsound hstream
      have hlimits : (h.remove record).limits = h.limits := by
        unfold TransitionHistory.remove
        split <;> rfl
      exact ih hremoved hremovedSound (hlimits ▸ htransitions) (hlimits ▸ hbytes) hafter
    · exact ⟨l, rfl, hrep⟩

theorem Represents.push (hfresh : ∀ other ∈ h.ring, other.uid < record.uid) :
    Represents (l.push record) (h.push record) where
  limits := hrep.limits
  links := by
    have hloose : record.uid ∉ h.ring.map HistoryRecord.uid := by
      intro hmem
      obtain ⟨other, hother, heq⟩ := mem_map.1 hmem
      exact absurd (hfresh other hother) (by omega)
    show (l.links.pushBack record.uid).Holds ((h.ring ++ [record]).map HistoryRecord.uid)
    rw [map_append]
    exact hrep.links.pushBack hloose
  records := by
    intro other hother
    rcases mem_append.1 hother with hother | hother
    · have hne := Nat.ne_of_lt (hfresh other hother)
      show update l.records record.uid record other.uid = other
      rw [update_of_ne hne]
      exact hrep.records other hother
    · rw [mem_singleton] at hother
      subst hother
      exact update_self _ _ _
  active := by
    intro u
    by_cases hu : u = record.uid
    · subst hu
      simp [LinkedHistory.push, TransitionHistory.push]
    · simp only [LinkedHistory.push, TransitionHistory.push, update_of_ne hu,
        map_append, mem_append, hrep.active u]
      simp [hu]
  histories := by
    intro entry
    by_cases hentry : entry = record.entry
    · subst hentry
      simp [LinkedHistory.push, TransitionHistory.push, hrep.histories]
    · simp only [LinkedHistory.push, TransitionHistory.push, update_of_ne hentry]
      exact hrep.histories entry
  historyBytes := by simp only [LinkedHistory.push, TransitionHistory.push, hrep.historyBytes]
  retainedBytes := by simp only [LinkedHistory.push, TransitionHistory.push, hrep.retainedBytes]
  retainedTransitions := by
    simp only [LinkedHistory.push, TransitionHistory.push, hrep.retainedTransitions]

/-- **`retain` does not throw and follows the window.** -/
theorem Represents.retain (hsound : h.Sound) (htransitions : 0 < h.limits.maxTransitionsPerStream)
    (hfresh : ∀ other ∈ h.ring, other.uid < record.uid) :
    ∃ retained, l.retain record = some (retained, (h.retain record).2) ∧
      Represents retained (h.retain record).1 := by
  have hpruned := hrep.prune hsound record.createdAtMs
  obtain ⟨hprunedSound, hprunedTrims⟩ := hsound.prune record.createdAtMs
  unfold LinkedHistory.retain TransitionHistory.retain
  dsimp only
  rw [hrep.limits]
  split
  · exact ⟨_, rfl, hpruned.clear hprunedSound record.entry⟩
  rename_i hsmall
  rw [not_or, not_lt, not_lt] at hsmall
  have htransitions' := hprunedTrims.limits ▸ htransitions
  have hbytes' := hprunedTrims.limits ▸ hsmall.1
  obtain ⟨trimmed, htrimmed, htrimmedRep⟩ :=
    @Represents.trimHistory _ _ hpruned hprunedSound record.entry record.bytes htransitions'
      hbytes'
  obtain ⟨htrimmedSound, htrimmedTrims, -⟩ :=
    @Sound.trimStream _ hprunedSound record.entry record.bytes htransitions' hbytes'
  obtain ⟨hringSound, hringTrims, -⟩ := @Sound.trimRing _ htrimmedSound record.bytes
    ((hprunedTrims.trans htrimmedTrims).limits ▸ hsmall.2)
  have hroomy : Represents
      (LinkedHistory.removeHeads
        (fun l _ => decide ((record.bytes : Int) > l.limits.maxBytes - l.retainedBytes))
        trimmed.retainedTransitions.toNat trimmed)
      (((h.prune record.createdAtMs).trimStream record.entry record.bytes).trimRing
        record.bytes) := by
    rw [htrimmedRep.turns htrimmedSound]
    refine htrimmedRep.removeHeads (fun l h record hrep => ?_) htrimmedSound rfl
    rw [hrep.limits, hrep.retainedBytes]
  have htrims := (hprunedTrims.trans htrimmedTrims).trans hringTrims
  rw [htrimmed, Option.bind_eq_bind, Option.bind_some, hroomy.limits, hroomy.retainedBytes]
  split
  · exact ⟨_, rfl, hroomy.clear hringSound record.entry⟩
  · exact ⟨_, rfl, hroomy.push fun other hother => hfresh other (htrims.ring.subset hother)⟩

/-- `chain` returns what the window says. -/
theorem Represents.chain (hsound : h.Sound) (entry fromVersion toVersion : Nat) :
    l.chain entry fromVersion toVersion = h.chain entry fromVersion toVersion := by
  unfold LinkedHistory.chain TransitionHistory.chain
  split
  · rfl
  have hmem : ∀ record ∈ h.streams entry, record ∈ h.ring :=
    fun record hrecord => (hsound.mem_ring hrecord).1
  rw [hrep.histories]
  generalize h.streams entry = stream at hmem ⊢
  generalize fromVersion = version
  induction stream generalizing version with
  | nil => rfl
  | cons record rest ih =>
    have hrecord := hmem record mem_cons_self
    have hactive : l.active record.uid = h.active record := by
      rw [active_of_mem hrecord, hrep.active]
      exact mem_map_of_mem hrecord
    have hrest := fun version => ih (fun other hother => hmem other (mem_cons_of_mem _ hother))
      version
    rw [map_cons, LinkedHistory.chainFrom, TransitionHistory.chainFrom,
      hrep.records record hrecord, hactive, hrest, hrest]

end

end Refinement

end LinkedHistory

end AckerDB
