import AckerDB.Subscriptions.Reactive.History

/-!
# The resume window is bounded

Records leave the window in the order they came: from the head of the ring, or from the head of
the stream of an entry.  So the slice of an entry is always a tail of what it was, with new
records at its end.

* `Sound` — ring, streams and counters agree;
* `Within` — the counters respect the limits;
* `Trims` — records were only dropped from the heads of streams;
* `Sound.retain` — what becomes of a record, and of the others.
-/

namespace AckerDB

open Function List

namespace TransitionHistory

/-- The bytes of records. -/
def totalBytes (records : List HistoryRecord) : Nat :=
  (records.map HistoryRecord.bytes).sum

/-- **Ring, streams and counters agree.**  The ring is in the order of insertion, and the stream
of an entry is what the ring has of it. -/
structure Sound (h : TransitionHistory) : Prop where
  ordered : h.ring.Pairwise fun a b => a.uid < b.uid
  stream : ∀ entry, h.streams entry = h.ring.filter fun record => record.entry = entry
  streamBytes : ∀ entry, h.streamBytes entry = totalBytes (h.streams entry)
  retainedBytes : h.retainedBytes = totalBytes h.ring
  retainedTransitions : h.retainedTransitions = h.ring.length

/-- The counters respect the limits. -/
structure Within (h : TransitionHistory) : Prop where
  transitions : ∀ entry, (h.streams entry).length ≤ h.limits.maxTransitionsPerStream
  streamBytes : ∀ entry, h.streamBytes entry ≤ h.limits.maxBytesPerStream
  bytes : h.retainedBytes ≤ h.limits.maxBytes

/-- Records were only dropped, each when it was the oldest of its stream. -/
structure Trims (h h' : TransitionHistory) : Prop where
  limits : h'.limits = h.limits
  ring : h'.ring.Sublist h.ring
  stream : ∀ entry, h'.streams entry <:+ h.streams entry

theorem sound_initial (limits : ResumeLimits) : Sound { limits } :=
  ⟨.nil, fun _ => rfl, fun _ => rfl, rfl, rfl⟩

theorem within_initial (limits : ResumeLimits) : Within { limits } :=
  ⟨fun _ => Nat.zero_le _, fun _ => Int.natCast_nonneg _, Int.natCast_nonneg _⟩

theorem totalBytes_le {a b : List HistoryRecord} (h : a.Sublist b) : totalBytes a ≤ totalBytes b :=
  (h.map _).sum_le_sum fun _ _ => Nat.zero_le _

variable {rest : List HistoryRecord} {entry : Nat}

section Trim

variable {h h' h'' : TransitionHistory} {record : HistoryRecord}

theorem Trims.refl (h : TransitionHistory) : Trims h h :=
  ⟨rfl, .refl _, fun _ => suffix_refl _⟩

theorem Trims.trans (a : Trims h h') (b : Trims h' h'') : Trims h h'' :=
  ⟨b.limits.trans a.limits, b.ring.trans a.ring, fun e => (b.stream e).trans (a.stream e)⟩

theorem Trims.within (a : Trims h h') (hwithin : Within h) (hsound : Sound h)
    (hsound' : Sound h') : Within h' where
  transitions := fun e => by
    rw [a.limits]
    exact (a.stream e).length_le.trans (hwithin.transitions e)
  streamBytes := fun e => by
    have hle := totalBytes_le (a.stream e).sublist
    have hbound := hwithin.streamBytes e
    rw [hsound.streamBytes] at hbound
    rw [hsound'.streamBytes, a.limits]
    omega
  bytes := by
    have hle := totalBytes_le a.ring
    have hbound := hwithin.bytes
    rw [hsound.retainedBytes] at hbound
    rw [hsound'.retainedBytes, a.limits]
    omega

theorem Sound.distinct (hsound : Sound h) : (h.ring.map HistoryRecord.uid).Nodup := by
  rw [Nodup, pairwise_map]
  exact hsound.ordered.imp fun hlt => Nat.ne_of_lt hlt

theorem Sound.mem_ring (hsound : Sound h) (hmem : record ∈ h.streams entry) :
    record ∈ h.ring ∧ record.entry = entry := by
  rw [hsound.stream entry] at hmem
  simpa using hmem

/-- Dropping a record by its identity drops that record. -/
theorem filter_uid {records front back : List HistoryRecord}
    (hordered : records.Pairwise fun a b => a.uid < b.uid)
    (hsplit : records = front ++ record :: back) :
    (records.filter fun other => other.uid ≠ record.uid) = front ++ back := by
  subst hsplit
  obtain ⟨-, hback, hfront⟩ := pairwise_append.1 hordered
  have hkeepFront : ∀ other ∈ front, decide (other.uid ≠ record.uid) = true := by
    intro other hother
    have hlt := hfront other hother record mem_cons_self
    simp only [ne_eq, decide_eq_true_eq]
    omega
  have hkeepBack : ∀ other ∈ back, decide (other.uid ≠ record.uid) = true := by
    intro other hother
    have hlt := (pairwise_cons.1 hback).1 other hother
    simp only [ne_eq, decide_eq_true_eq]
    omega
  rw [filter_append, filter_cons_of_neg (by simp), filter_eq_self.2 hkeepFront,
    filter_eq_self.2 hkeepBack]

theorem active_of_mem (hmem : record ∈ h.ring) : h.active record = true :=
  any_eq_true.2 ⟨record, hmem, by simp⟩

theorem remove_of_mem (hmem : record ∈ h.ring) :
    h.remove record =
      { h with
        ring := h.ring.filter fun other => other.uid ≠ record.uid
        streams := update h.streams record.entry
          ((h.streams record.entry).filter fun other => other.uid ≠ record.uid)
        streamBytes := update h.streamBytes record.entry
          (h.streamBytes record.entry - record.bytes)
        retainedBytes := h.retainedBytes - record.bytes
        retainedTransitions := h.retainedTransitions - 1 } := by
  unfold TransitionHistory.remove
  rw [if_pos (active_of_mem hmem)]

theorem Sound.remove (hsound : Sound h) {front back : List HistoryRecord}
    (hsplit : h.ring = front ++ record :: back) :
    Sound (h.remove record) ∧ (h.remove record).ring = front ++ back := by
  have hmem : record ∈ h.ring := by simp [hsplit]
  have hring := filter_uid hsound.ordered hsplit
  have hstream : ((h.streams record.entry).filter fun other => other.uid ≠ record.uid) =
      (front ++ back).filter fun other => other.entry = record.entry := by
    rw [hsound.stream, filter_comm, hring]
  rw [remove_of_mem hmem, hring, hstream]
  refine ⟨⟨?_, ?_, ?_, ?_, ?_⟩, rfl⟩
  · refine hsound.ordered.sublist ?_
    rw [hsplit]
    exact (Sublist.refl front).append (sublist_cons_self record back)
  · intro entry
    by_cases hentry : entry = record.entry
    · subst hentry
      exact update_self _ _ _
    show update h.streams record.entry _ entry = _
    rw [update_of_ne hentry, hsound.stream, hsplit, filter_append,
      filter_append, filter_cons_of_neg]
    simpa using fun heq => hentry heq.symm
  · intro entry
    by_cases hentry : entry = record.entry
    · subst hentry
      have hbytes := hsound.streamBytes record.entry
      rw [hsound.stream, hsplit, filter_append, filter_cons_of_pos (by simp)] at hbytes
      show update h.streamBytes record.entry _ record.entry =
        totalBytes (update h.streams record.entry _ record.entry)
      rw [update_self, update_self, hbytes, filter_append]
      simp only [totalBytes, map_append, map_cons, sum_append, sum_cons]
      omega
    show update h.streamBytes record.entry _ entry =
      totalBytes (update h.streams record.entry _ entry)
    rw [update_of_ne hentry, update_of_ne hentry]
    exact hsound.streamBytes entry
  · have hbytes := hsound.retainedBytes
    rw [hsplit] at hbytes
    simp only [totalBytes, map_append, map_cons, sum_append, sum_cons]
      at hbytes ⊢
    omega
  · have hcount := hsound.retainedTransitions
    rw [hsplit] at hcount
    simp only [length_append, length_cons] at hcount ⊢
    omega

/-- The oldest record of a stream leaves. -/
theorem Sound.removeOldest (hsound : Sound h) {front back : List HistoryRecord}
    (hsplit : h.ring = front ++ record :: back)
    (holdest : ∀ other ∈ front, other.entry ≠ record.entry) :
    Sound (h.remove record) ∧ (h.remove record).ring = front ++ back ∧ Trims h (h.remove record) := by
  obtain ⟨hremoved, hring⟩ := hsound.remove hsplit
  refine ⟨hremoved, hring, ?_, ?_, ?_⟩
  · unfold TransitionHistory.remove
    split <;> rfl
  · rw [hring, hsplit]
    exact (Sublist.refl front).append (sublist_cons_self record back)
  intro entry
  rw [hremoved.stream, hring, hsound.stream, hsplit, filter_append, filter_append]
  by_cases hentry : record.entry = entry
  · subst hentry
    rw [filter_eq_nil_iff.2 (by simpa using holdest), filter_cons_of_pos (by simp)]
    exact suffix_cons record _
  · rw [filter_cons_of_neg (by simpa using hentry)]

variable {wanted : TransitionHistory → HistoryRecord → Bool}

/-- Dropping from the head of a queue of records, as long as a condition asks for it. -/
theorem Sound.removeHeads {queue : TransitionHistory → List HistoryRecord}
    (hqueue : ∀ {h record rest}, Sound h → queue h = record :: rest →
      Sound (h.remove record) ∧ queue (h.remove record) = rest ∧ Trims h (h.remove record))
    (hsound : Sound h) {records : List HistoryRecord} (hrecords : queue h = records) :
    Sound (removeWhile wanted h records) ∧ Trims h (removeWhile wanted h records) ∧
      ∀ first rest, queue (removeWhile wanted h records) = first :: rest →
        wanted (removeWhile wanted h records) first = false := by
  induction records generalizing h with
  | nil =>
    refine ⟨hsound, .refl h, fun first rest hfirst => ?_⟩
    rw [removeWhile, hrecords] at hfirst
    cases hfirst
  | cons record rest ih =>
    rw [removeWhile]
    split
    · obtain ⟨hremoved, hrest, htrims⟩ := hqueue hsound hrecords
      obtain ⟨hresult, hresultTrims, hends⟩ := ih hremoved hrest
      exact ⟨hresult, htrims.trans hresultTrims, hends⟩
    rename_i hstop
    refine ⟨hsound, .refl h, fun first others hfirst => ?_⟩
    rw [hrecords] at hfirst
    cases hfirst
    simpa using hstop

section

variable (hsound : Sound h)
include hsound

theorem Sound.remove_ring (hring : h.ring = record :: rest) :
    Sound (h.remove record) ∧ (h.remove record).ring = rest ∧ Trims h (h.remove record) :=
  @Sound.removeOldest h record hsound [] rest hring (by simp)

/-- The oldest record of a stream, in the ring. -/
theorem Sound.split_stream (hstream : h.streams entry = record :: rest) :
    ∃ front back, h.ring = front ++ record :: back ∧
      (∀ other ∈ front, other.entry ≠ record.entry) ∧ record.entry = entry ∧
      rest = back.filter fun other => other.entry = entry := by
  rw [hsound.stream, filter_eq_cons_iff] at hstream
  obtain ⟨front, back, hsplit, hfront, hentry, hrest⟩ := hstream
  have hentry : record.entry = entry := by simpa using hentry
  refine ⟨front, back, hsplit, ?_, hentry, hrest.symm⟩
  intro other hother
  rw [hentry]
  simpa using hfront other hother

theorem Sound.remove_stream (hstream : h.streams entry = record :: rest) :
    Sound (h.remove record) ∧ (h.remove record).streams entry = rest ∧
      Trims h (h.remove record) := by
  obtain ⟨front, back, hsplit, holdest, hentry, hrest⟩ := hsound.split_stream hstream
  obtain ⟨hremoved, hring, htrims⟩ := hsound.removeOldest hsplit holdest
  refine ⟨hremoved, ?_, htrims⟩
  rw [hremoved.stream, hring, filter_append, hrest, filter_eq_nil_iff.2]
  · rfl
  intro other hother
  rw [← hentry]
  simpa using holdest other hother

theorem Sound.prune (now : Int) : Sound (h.prune now) ∧ Trims h (h.prune now) := by
  obtain ⟨hpruned, htrims, -⟩ := hsound.removeHeads remove_ring rfl
  exact ⟨hpruned, htrims⟩

theorem Sound.clear (entry : Nat) :
    Sound (h.clear entry) ∧ Trims h (h.clear entry) ∧ (h.clear entry).streams entry = [] := by
  obtain ⟨hcleared, htrims, hends⟩ := hsound.removeHeads remove_stream rfl
  refine ⟨hcleared, htrims, ?_⟩
  cases hstream : (h.clear entry).streams entry with
  | nil => rfl
  | cons first rest => exact absurd (hends first rest hstream) (by simp)

/-- The loop of `retain` over the stream leaves room for a record that may fit. -/
theorem Sound.trimStream {entry bytes : Nat} (htransitions : 0 < h.limits.maxTransitionsPerStream)
    (hbytes : bytes ≤ h.limits.maxBytesPerStream) :
    Sound (h.trimStream entry bytes) ∧ Trims h (h.trimStream entry bytes) ∧
      ((h.trimStream entry bytes).streams entry).length < h.limits.maxTransitionsPerStream ∧
      (bytes : Int) ≤ h.limits.maxBytesPerStream - (h.trimStream entry bytes).streamBytes entry := by
  obtain ⟨htrimmed, htrims, hends⟩ := @Sound.removeHeads h (fun h _ =>
    decide ((h.streams entry).length ≥ h.limits.maxTransitionsPerStream) ||
      decide ((bytes : Int) > h.limits.maxBytesPerStream - h.streamBytes entry)) _ remove_stream hsound _ rfl
  refine ⟨htrimmed, htrims, ?_⟩
  have hlimits := htrims.limits
  unfold TransitionHistory.trimStream
  generalize removeWhile _ h (h.streams entry) = trimmed at htrimmed hends hlimits ⊢
  cases hstream : trimmed.streams entry with
  | nil =>
    have hzero : trimmed.streamBytes entry = 0 := by
      rw [htrimmed.streamBytes, hstream]
      rfl
    exact ⟨htransitions, by omega⟩
  | cons first rest =>
    have hstop := hends first rest hstream
    simp only [Bool.or_eq_false_iff, decide_eq_false_iff_not, not_le, not_lt, ge_iff_le,
      gt_iff_lt, hlimits] at hstop
    rw [← hstream]
    exact hstop

/-- The loop of `retain` over the ring leaves room for a record that may fit. -/
theorem Sound.trimRing {bytes : Nat} (hbytes : bytes ≤ h.limits.maxBytes) :
    Sound (h.trimRing bytes) ∧ Trims h (h.trimRing bytes) ∧
      (bytes : Int) ≤ h.limits.maxBytes - (h.trimRing bytes).retainedBytes := by
  obtain ⟨htrimmed, htrims, hends⟩ := @Sound.removeHeads h (fun h _ =>
    decide ((bytes : Int) > h.limits.maxBytes - h.retainedBytes)) _ remove_ring hsound _ rfl
  refine ⟨htrimmed, htrims, ?_⟩
  have hlimits := htrims.limits
  unfold TransitionHistory.trimRing
  generalize removeWhile _ h h.ring = trimmed at htrimmed hends hlimits ⊢
  cases hring : trimmed.ring with
  | nil =>
    have hzero : trimmed.retainedBytes = 0 := by
      rw [htrimmed.retainedBytes, hring]
      rfl
    omega
  | cons first rest =>
    have hstop := hends first rest hring
    simp only [decide_eq_false_iff_not, not_lt, gt_iff_lt, hlimits] at hstop
    exact hstop

theorem Sound.push (hfresh : ∀ other ∈ h.ring, other.uid < record.uid) :
    Sound (h.push record) where
  ordered := by
    refine pairwise_append.2 ⟨hsound.ordered, pairwise_singleton _ _, ?_⟩
    intro other hother new hnew
    rw [mem_singleton] at hnew
    rw [hnew]
    exact hfresh other hother
  stream := by
    intro entry
    by_cases hentry : entry = record.entry
    · subst hentry
      simp [TransitionHistory.push, hsound.stream]
    · have hne : ¬ record.entry = entry := fun heq => hentry heq.symm
      simp [TransitionHistory.push, update_of_ne hentry, hsound.stream, hne]
  streamBytes := by
    intro entry
    by_cases hentry : entry = record.entry
    · subst hentry
      simp [TransitionHistory.push, hsound.streamBytes, totalBytes]
    · simp [TransitionHistory.push, update_of_ne hentry, hsound.streamBytes]
  retainedBytes := by simp [TransitionHistory.push, hsound.retainedBytes, totalBytes]
  retainedTransitions := by simp [TransitionHistory.push, hsound.retainedTransitions]

end

/-- What `retain` leaves of the streams: that of the record ends with it, or is gone. -/
structure Retains (h : TransitionHistory) (record : HistoryRecord) (h' : TransitionHistory)
    (kept : Bool) : Prop where
  limits : h'.limits = h.limits
  others : ∀ entry, entry ≠ record.entry → h'.streams entry <:+ h.streams entry
  stream : kept = true →
    ∃ rest, rest <:+ h.streams record.entry ∧ h'.streams record.entry = rest ++ [record]
  gone : kept = false → h'.streams record.entry = []

/-- **Retaining a record keeps the window sound and within its limits.** -/
theorem Sound.retain (hsound : Sound h) (hwithin : Within h)
    (htransitions : 0 < h.limits.maxTransitionsPerStream)
    (hfresh : ∀ other ∈ h.ring, other.uid < record.uid) :
    Sound (h.retain record).1 ∧ Within (h.retain record).1 ∧
      Retains h record (h.retain record).1 (h.retain record).2 := by
  obtain ⟨hpruned, hprunedTrims⟩ := hsound.prune record.createdAtMs
  unfold TransitionHistory.retain
  dsimp only
  split
  · obtain ⟨hcleared, hclearedTrims, hgone⟩ := hpruned.clear record.entry
    have htrims := hprunedTrims.trans hclearedTrims
    exact ⟨hcleared, htrims.within hwithin hsound hcleared, htrims.limits,
      fun entry _ => htrims.stream entry, fun hkept => absurd hkept (by simp), fun _ => hgone⟩
  rename_i hsmall
  rw [not_or, not_lt, not_lt] at hsmall
  obtain ⟨hstream, hstreamTrims, hlength, hstreamRoom⟩ :=
    @Sound.trimStream _ hpruned record.entry record.bytes
      (hprunedTrims.limits ▸ htransitions) (hprunedTrims.limits ▸ hsmall.1)
  have htrims := hprunedTrims.trans hstreamTrims
  obtain ⟨hring, hringTrims, hroom⟩ := @Sound.trimRing _ hstream record.bytes
    (htrims.limits ▸ hsmall.2)
  have htrims := htrims.trans hringTrims
  have hwithin' := htrims.within hwithin hsound hring
  have hlength' := (hringTrims.stream record.entry).length_le
  have hbytes' := totalBytes_le (hringTrims.stream record.entry).sublist
  rw [hstream.streamBytes] at hstreamRoom
  rw [hprunedTrims.limits] at hlength hstreamRoom
  rw [(hprunedTrims.trans hstreamTrims).limits] at hroom
  generalize ((h.prune record.createdAtMs).trimStream record.entry record.bytes).trimRing
    record.bytes = trimmed at hring htrims hwithin' hlength' hbytes' hroom ⊢
  have hnewer : ∀ other ∈ trimmed.ring, other.uid < record.uid :=
    fun other hother => hfresh other (htrims.ring.subset hother)
  -- the second check of the byte limit never fails: the loop made room
  rw [if_neg (by rw [htrims.limits]; omega)]
  refine ⟨hring.push hnewer, ⟨?_, ?_, ?_⟩, htrims.limits, ?_, ?_, fun hkept => absurd hkept (by simp)⟩
  · intro entry
    by_cases hentry : entry = record.entry
    · subst hentry
      simp only [TransitionHistory.push, update_self, length_append,
        length_singleton, htrims.limits]
      omega
    · simp only [TransitionHistory.push, update_of_ne hentry]
      exact hwithin'.transitions entry
  · intro entry
    by_cases hentry : entry = record.entry
    · subst hentry
      simp only [TransitionHistory.push, update_self, hring.streamBytes, htrims.limits]
      omega
    · simp only [TransitionHistory.push, update_of_ne hentry]
      exact hwithin'.streamBytes entry
  · simp only [TransitionHistory.push, htrims.limits]
    omega
  · intro entry hentry
    simp only [TransitionHistory.push, update_of_ne hentry]
    exact htrims.stream entry
  · intro _
    exact ⟨trimmed.streams record.entry, htrims.stream record.entry,
      by simp [TransitionHistory.push]⟩

end Trim

end TransitionHistory

end AckerDB
