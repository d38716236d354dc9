import AckerDB.Core.Result

/-!
# The resume window

One age-ordered ring of retained transitions over all entries, and for each entry
the slice its subscriptions resume through.  A record is active exactly while it
is in the ring.  Retaining a record first makes room for it, by age, by the
budget of its stream and by the budget of the ring; a record that cannot fit
breaks the window of its entry.

* `mem_retain`, `mem_prune`, `mem_clear` — no operation invents a record;
* `chain_spec` — a chain is a contiguous run of retained records between two versions.
-/

namespace AckerDB

open Function

/-- What a retained transition says: a new value, a new application error, or that
nothing changed. -/
inductive HistoryChange where
  | value (value : JsValue)
  | applicationError (error : ApplicationError)
  | checkpoint
  deriving DecidableEq

/-- `HistoryRecord`; `uid` stands for the identity of the record object. -/
structure HistoryRecord where
  uid : Nat
  entry : Nat
  fromVersion : Nat
  toVersion : Nat
  change : HistoryChange
  bytes : Nat
  createdAtMs : Int
  deriving DecidableEq

/-- The limits of the resume window. -/
structure ResumeLimits where
  maxTransitionsPerStream : Nat
  maxBytesPerStream : Nat
  maxAgeMs : Nat
  maxBytes : Nat
  deriving DecidableEq

/-- `TransitionHistory`, with the `history` and `historyBytes` of every entry. -/
structure TransitionHistory where
  limits : ResumeLimits
  /-- The global ring from head to tail. -/
  ring : List HistoryRecord := []
  /-- `entry.history`. -/
  streams : Nat → List HistoryRecord := fun _ => []
  /-- `entry.historyBytes`. -/
  streamBytes : Nat → Int := fun _ => 0
  retainedBytes : Int := 0
  retainedTransitions : Int := 0

namespace TransitionHistory

variable {h : TransitionHistory} {record : HistoryRecord} {entry : Nat}

section

variable (h : TransitionHistory)

/-- `record.active`. -/
def active (record : HistoryRecord) : Bool :=
  h.ring.any fun other => other.uid = record.uid

/-- `remove`. -/
def remove (record : HistoryRecord) : TransitionHistory :=
  if h.active record then
    { h with
      ring := h.ring.filter fun other => other.uid ≠ record.uid
      streams := update h.streams record.entry
        ((h.streams record.entry).filter fun other => other.uid ≠ record.uid)
      streamBytes := update h.streamBytes record.entry
        (h.streamBytes record.entry - record.bytes)
      retainedBytes := h.retainedBytes - record.bytes
      retainedTransitions := h.retainedTransitions - 1 }
  else h

/-- Remove records, one after another, as long as a condition asks for it. -/
def removeWhile (wanted : TransitionHistory → HistoryRecord → Bool) (h : TransitionHistory) :
    List HistoryRecord → TransitionHistory
  | [] => h
  | record :: rest => if wanted h record then removeWhile wanted (h.remove record) rest else h

/-- `prune`: remove from the head what is too old. -/
def prune (now : Int) : TransitionHistory :=
  removeWhile (fun h record => decide (now - record.createdAtMs ≥ h.limits.maxAgeMs)) h h.ring

/-- `clear`: remove every record of an entry. -/
def clear (entry : Nat) : TransitionHistory :=
  removeWhile (fun _ _ => true) h (h.streams entry)

/-- The loop of `retain` that makes room in the stream of the entry. -/
def trimStream (entry bytes : Nat) : TransitionHistory :=
  removeWhile (fun h _ =>
    decide ((h.streams entry).length ≥ h.limits.maxTransitionsPerStream) ||
      decide ((bytes : Int) > h.limits.maxBytesPerStream - h.streamBytes entry)) h (h.streams entry)

/-- The loop of `retain` that makes room in the ring. -/
def trimRing (bytes : Nat) : TransitionHistory :=
  removeWhile (fun h _ => decide ((bytes : Int) > h.limits.maxBytes - h.retainedBytes)) h h.ring

/-- Append a record to its stream and to the ring. -/
def push (record : HistoryRecord) : TransitionHistory :=
  { h with
    ring := h.ring ++ [record]
    streams := update h.streams record.entry (h.streams record.entry ++ [record])
    streamBytes := update h.streamBytes record.entry
      (h.streamBytes record.entry + record.bytes)
    retainedBytes := h.retainedBytes + record.bytes
    retainedTransitions := h.retainedTransitions + 1 }

/-- `retain`: whether the record could be kept. -/
def retain (record : HistoryRecord) : TransitionHistory × Bool :=
  let pruned := h.prune record.createdAtMs
  if record.bytes > h.limits.maxBytesPerStream ∨ record.bytes > h.limits.maxBytes then
    (pruned.clear record.entry, false)
  else
    let trimmed := (pruned.trimStream record.entry record.bytes).trimRing record.bytes
    if (record.bytes : Int) > trimmed.limits.maxBytes - trimmed.retainedBytes then
      (trimmed.clear record.entry, false)
    else (trimmed.push record, true)

/-- The loop of `chain` over the records of the entry. -/
def chainFrom (h : TransitionHistory) (toVersion : Nat) :
    List HistoryRecord → Nat → Option (List HistoryRecord)
  | [], _ => none
  | record :: rest, version =>
    if ¬ h.active record ∨ record.fromVersion < version then chainFrom h toVersion rest version
    else if record.fromVersion ≠ version then none
    else if record.toVersion = toVersion then some [record]
    else if record.toVersion > toVersion then none
    else (chainFrom h toVersion rest record.toVersion).map fun chain => record :: chain

/-- `chain`: the contiguous retained run between two versions. -/
def chain (entry fromVersion toVersion : Nat) :
    Option (List HistoryRecord) :=
  if fromVersion ≥ toVersion then none
  else h.chainFrom toVersion (h.streams entry) fromVersion

end

/-! ## No operation invents a record -/

theorem mem_remove {removed : HistoryRecord} (hmem : record ∈ (h.remove removed).streams entry) :
    record ∈ h.streams entry := by
  unfold remove at hmem
  split at hmem
  · by_cases hentry : entry = removed.entry
    · subst hentry
      simp only [update_self] at hmem
      exact List.mem_of_mem_filter hmem
    · simpa only [update_of_ne hentry] using hmem
  · exact hmem

theorem mem_removeWhile {wanted : TransitionHistory → HistoryRecord → Bool}
    {candidates : List HistoryRecord}
    (hmem : record ∈ (removeWhile wanted h candidates).streams entry) :
    record ∈ h.streams entry := by
  induction candidates generalizing h with
  | nil => exact hmem
  | cons candidate rest ih =>
    unfold removeWhile at hmem
    split at hmem
    · exact mem_remove (ih hmem)
    · exact hmem

theorem mem_prune {now : Int} (hmem : record ∈ (h.prune now).streams entry) :
    record ∈ h.streams entry :=
  mem_removeWhile hmem

theorem mem_clear {cleared : Nat} (hmem : record ∈ (h.clear cleared).streams entry) :
    record ∈ h.streams entry :=
  mem_removeWhile hmem

theorem mem_push {pushed : HistoryRecord} (hmem : record ∈ (h.push pushed).streams entry) :
    record ∈ h.streams entry ∨ (record = pushed ∧ entry = pushed.entry) := by
  by_cases hentry : entry = pushed.entry
  · subst hentry
    simp only [push, update_self, List.mem_append, List.mem_singleton] at hmem
    rcases hmem with hmem | hmem
    · exact .inl hmem
    · exact .inr ⟨hmem, rfl⟩
  · simp only [push, update_of_ne hentry] at hmem
    exact .inl hmem

/-- A retained record is the new one or was there before. -/
theorem mem_retain {h : TransitionHistory} {retained record : HistoryRecord} {entry : Nat}
    (hmem : record ∈ (h.retain retained).1.streams entry) :
    record ∈ h.streams entry ∨ (record = retained ∧ entry = retained.entry) := by
  unfold retain at hmem
  dsimp only at hmem
  split at hmem
  · exact .inl (mem_prune (mem_clear hmem))
  split at hmem
  · exact .inl (mem_prune (mem_removeWhile (mem_removeWhile (mem_clear hmem))))
  · rcases mem_push hmem with hmem | hmem
    · exact .inl (mem_prune (mem_removeWhile (mem_removeWhile hmem)))
    · exact .inr hmem

/-! ## Chains are contiguous -/

/-- The records lead from one version to another without a gap. -/
inductive Contiguous : Nat → List HistoryRecord → Nat → Prop
  | single (record : HistoryRecord) : Contiguous record.fromVersion [record] record.toVersion
  | cons (record : HistoryRecord) {rest : List HistoryRecord} {last : Nat} :
      Contiguous record.toVersion rest last → record.toVersion < last →
      Contiguous record.fromVersion (record :: rest) last

theorem chainFrom_spec {toVersion version : Nat} {records chain : List HistoryRecord}
    (hchain : h.chainFrom toVersion records version = some chain) :
    Contiguous version chain toVersion ∧ ∀ record ∈ chain, record ∈ records := by
  induction records generalizing version chain with
  | nil => cases hchain
  | cons record rest ih =>
    unfold chainFrom at hchain
    split at hchain
    · obtain ⟨hcontiguous, hmem⟩ := ih hchain
      exact ⟨hcontiguous, fun r hr => List.mem_cons_of_mem _ (hmem r hr)⟩
    split at hchain
    · cases hchain
    rename_i hstart
    rw [not_not] at hstart
    subst hstart
    split at hchain
    · rename_i hend
      cases hchain
      subst hend
      exact ⟨.single record, by simp⟩
    split at hchain
    · cases hchain
    rw [Option.map_eq_some_iff] at hchain
    obtain ⟨tail, htail, rfl⟩ := hchain
    obtain ⟨hcontiguous, hmem⟩ := ih htail
    refine ⟨.cons record hcontiguous (by omega), ?_⟩
    intro found hfound
    rcases List.mem_cons.1 hfound with rfl | hfound
    · exact List.mem_cons_self
    · exact List.mem_cons_of_mem _ (hmem found hfound)

/-- **A chain is a contiguous run of the entry's records.** -/
theorem chain_spec {fromVersion toVersion : Nat} {chain : List HistoryRecord}
    (hchain : h.chain entry fromVersion toVersion = some chain) :
    fromVersion < toVersion ∧ Contiguous fromVersion chain toVersion ∧
      ∀ record ∈ chain, record ∈ h.streams entry := by
  unfold TransitionHistory.chain at hchain
  split_ifs at hchain
  · obtain ⟨hcontiguous, hmem⟩ := chainFrom_spec hchain
    exact ⟨by omega, hcontiguous, hmem⟩

end TransitionHistory

end AckerDB
