import AckerDB.Lib.Run
import AckerDB.Runtime.Admission

/-!
# Conservation of admissions

The three structures of an `AdmissionQueue` hold the same entries, and every ticket settles
once.

* `Linked` — the list of all entries and those of the fairness keys, with the counters;
* `Scheduled` — the heap has every active entry, among items of entries that have left;
* `Settled` — a ticket has settled, once and with its own reason, when its entry has left;
* `Conserved.accept`, `Conserved.rejectEntry` — an entry comes in, and leaves.
-/

namespace AckerDB.AdmissionQueue

open Function List

variable {α Time : Type}

section

variable (q : AdmissionQueue α Time)

/-- The entries that are queued, in the order of their numbers. -/
def active : List Nat :=
  (range q.entries.length).filter q.isActive

/-- What an entry weighs. -/
def bytesOf (n : Nat) : Nat := q.entries[n]?.elim 0 (·.bytes)

/-- The fairness key of an entry. -/
def keyOf (n : Nat) : Option String :=
  q.entries[n]?.bind (·.fairnessKey)

/-- The queued entries of a fairness key. -/
def activeOf (key : String) : List Nat :=
  q.active.filter fun n => q.keyOf n = some key

/-- Whether an entry has expired by a time. -/
def isDue [LinearOrder Time] (q : AdmissionQueue α Time) (now : Time) (n : Nat) : Bool :=
  q.entries[n]?.any fun entry => decide (entry.expiresAtMs ≤ now)

theorem isActive_iff {q : AdmissionQueue α Time} {n : Nat} :
    q.isActive n = true ↔ ∃ entry, q.entries[n]? = some entry ∧ entry.active = true := by
  unfold isActive
  split
  · rename_i entry hentry
    simp [hentry]
  · rename_i hentry
    simp [hentry]

theorem lt_of_isActive {q : AdmissionQueue α Time} {n : Nat} (h : q.isActive n = true) :
    n < q.entries.length := by
  obtain ⟨entry, hentry, -⟩ := isActive_iff.1 h
  exact (List.getElem?_eq_some_iff.1 hentry).1

theorem mem_active {q : AdmissionQueue α Time} {n : Nat} :
    n ∈ q.active ↔ q.isActive n = true := by
  rw [active, mem_filter, mem_range]
  exact ⟨And.right, fun h => ⟨lt_of_isActive h, h⟩⟩

theorem nodup_active : q.active.Nodup := nodup_range.filter _

theorem mem_activeOf {q : AdmissionQueue α Time} {key : String} {n : Nat} :
    n ∈ q.activeOf key ↔ q.isActive n = true ∧ q.keyOf n = some key := by
  rw [activeOf, mem_filter, mem_active, decide_eq_true_iff]

/-! ## The invariants -/

/-- The lists of the fairness keys that have one, as cells. -/
structure Listed (groups : List (String × DoublyLinked Nat)) (cells : String → List Nat) :
    Prop where
  keys : (groups.map Prod.fst).Nodup
  holds : ∀ found ∈ groups, found.2.Holds (cells found.1)
  mem_keys : ∀ key, key ∈ groups.map Prod.fst ↔ cells key ≠ []

/-- **The lists and the counters.** -/
structure Linked (options : AdmissionOptions Time) (q : AdmissionQueue α Time) : Prop where
  links : q.links.Holds q.active
  listed : options.discipline = .roundRobin → Listed q.groups q.activeOf
  keyed : options.discipline = .roundRobin → ∀ n, q.isActive n = true → (q.keyOf n).isSome
  ungrouped : options.discipline = .fifo → q.groups = []
  items : q.queuedItems = q.active.length
  bytes : q.queuedBytes = ((q.active.map q.bytesOf).sum : Nat)
  items_le : q.queuedItems ≤ options.limits.maxItems
  bytes_le : q.queuedBytes ≤ options.limits.maxBytes

/-- **The heap.** -/
structure Scheduled [LinearOrder Time] (q : AdmissionQueue α Time) : Prop where
  ordered : BinaryHeap.Ordered id q.expiryHeap
  distinct : q.expiryHeap.toList.Nodup
  known : ∀ item ∈ q.expiryHeap.toList, ∃ entry,
    q.entries[(ofLex item).2]? = some entry ∧ entry.expiresAtMs = (ofLex item).1
  waiting : ∀ n entry, q.entries[n]? = some entry → entry.active = true →
    toLex (entry.expiresAtMs, n) ∈ q.expiryHeap.toList

/-- A settlement that an entry may come to. -/
def Own (entry : PendingAdmission α Time) :
    AdmissionSettlement α Time → Prop
  | .admitted lease => lease.value = entry.value ∧ lease.fairnessKey = entry.fairnessKey ∧
      lease.bytes = entry.bytes ∧ lease.enqueuedAtMs = entry.enqueuedAtMs
  | .rejected reason => reason = entry.expiresBy ∨ reason = .canceled ∧ entry.signal = true ∨
      reason = .closed ∧ q.isClosed = true

/-- **The tickets.** -/
structure Settled : Prop where
  distinct : (q.settlements.map Prod.fst).Nodup
  settled : ∀ n, n ∈ q.settlements.map Prod.fst ↔ n < q.entries.length ∧ q.isActive n = false
  own : ∀ n settlement, (n, settlement) ∈ q.settlements →
    ∃ entry, q.entries[n]? = some entry ∧ q.Own entry settlement

end

/-- **Everything that holds of a queue in a run.** -/
structure Conserved [LinearOrder Time] (options : AdmissionOptions Time)
    (q : AdmissionQueue α Time) : Prop where
  linked : Linked options q
  scheduled : Scheduled q
  settled : Settled q

/-- The lists and the counters do not depend on the rest of the queue. -/
theorem Linked.of_same {options : AdmissionOptions Time} {q r : AdmissionQueue α Time}
    (h : Linked options q) (hentries : r.entries = q.entries) (hlinks : r.links = q.links)
    (hgroups : r.groups = q.groups) (hitems : r.queuedItems = q.queuedItems)
    (hbytes : r.queuedBytes = q.queuedBytes) : Linked options r := by
  have hactive : r.isActive = q.isActive := by
    unfold isActive
    rw [hentries]
  have hkeys : r.keyOf = q.keyOf := by
    unfold keyOf
    rw [hentries]
  have hweights : r.bytesOf = q.bytesOf := by
    unfold bytesOf
    rw [hentries]
  have hsame : r.active = q.active := by rw [active, active, hactive, hentries]
  have hcells : r.activeOf = q.activeOf := by
    funext key
    rw [activeOf, activeOf, hsame, hkeys]
  refine ⟨?_, ?_, ?_, ?_, ?_, ?_, ?_, ?_⟩
  · rw [hlinks, hsame]
    exact h.links
  · rw [hgroups, hcells]
    exact h.listed
  · rw [hactive, hkeys]
    exact h.keyed
  · rw [hgroups]
    exact h.ungrouped
  · rw [hitems, hsame]
    exact h.items
  · rw [hbytes, hsame, hweights]
    exact h.bytes
  · rw [hitems]
    exact h.items_le
  · rw [hbytes]
    exact h.bytes_le

theorem conserved_empty [LinearOrder Time] (options : AdmissionOptions Time) :
    Conserved options ({} : AdmissionQueue α Time) where
  linked :=
    { links := DoublyLinked.holds_empty
      listed := fun _ => ⟨nodup_nil, by simp, by simp [activeOf, active]⟩
      keyed := by simp [isActive]
      ungrouped := fun _ => rfl
      items := rfl
      bytes := rfl
      items_le := Int.natCast_nonneg _
      bytes_le := Int.natCast_nonneg _ }
  scheduled :=
    { ordered := fun j _ => BinaryHeap.below_of_size_le (Nat.zero_le j)
      distinct := nodup_nil
      known := by simp
      waiting := by simp }
  settled :=
    { distinct := nodup_nil
      settled := by simp
      own := by simp }

/-! ## The lists of the fairness keys -/

section Groups

variable {groups : List (String × DoublyLinked Nat)} {cells : String → List Nat}
variable {key : String} {n : Nat}

section

variable (h : Listed groups cells)
include h

theorem Listed.lookup {group : DoublyLinked Nat} (hlookup : groups.lookup key = some group) :
    group.Holds (cells key) :=
  h.holds (key, group) ((InsertionMap.mem_iff_lookup h.keys).2 hlookup)

theorem Listed.lookup_isSome (hcells : cells key ≠ []) :
    ∃ group, groups.lookup key = some group := by
  have hmem := (h.mem_keys key).2 hcells
  cases hlookup : groups.lookup key with
  | none => exact absurd hmem (InsertionMap.lookup_eq_none.1 hlookup)
  | some group => exact ⟨group, rfl⟩

/-- A list is set that is not empty. -/
theorem Listed.set {group : DoublyLinked Nat} {list : List Nat} (hgroup : group.Holds list)
    (hlist : list ≠ []) :
    Listed (InsertionMap.set groups key group) (update cells key list) := by
  refine ⟨InsertionMap.nodup_set h.keys, fun found hfound => ?_, fun other => ?_⟩
  · rcases InsertionMap.mem_set.1 hfound with rfl | ⟨hmem, hne⟩
    · rw [update_self]
      exact hgroup
    · rw [update_of_ne hne]
      exact h.holds found hmem
  rw [InsertionMap.keys_set]
  by_cases hkey : other = key
  · subst hkey
    rw [update_self]
    refine iff_of_true ?_ hlist
    split <;> simp_all
  · rw [update_of_ne hkey, ← h.mem_keys other]
    split <;> simp [hkey]

/-- The list of a key is dropped. -/
theorem Listed.delete :
    Listed (InsertionMap.delete groups key) (update cells key []) := by
  refine ⟨InsertionMap.nodup_delete h.keys, fun found hfound => ?_, fun other => ?_⟩
  · obtain ⟨hmem, hne⟩ := InsertionMap.mem_delete.1 hfound
    rw [update_of_ne hne]
    exact h.holds found hmem
  rw [InsertionMap.keys_delete]
  by_cases hkey : other = key
  · simp [hkey]
  · rw [update_of_ne hkey, ← h.mem_keys other]
    simp [hkey]

theorem Listed.push (hn : n ∉ cells key) :
    Listed (InsertionMap.set groups key (((groups.lookup key).getD .empty).pushBack n))
      (update cells key (cells key ++ [n])) := by
  have hgroup : ((groups.lookup key).getD .empty).Holds (cells key) := by
    cases hlookup : groups.lookup key with
    | some => exact h.lookup hlookup
    | none =>
      have hnone : cells key = [] := by
        by_contra hne
        exact InsertionMap.lookup_eq_none.1 hlookup ((h.mem_keys key).2 hne)
      rw [hnone]
      exact DoublyLinked.holds_empty
  exact h.set (hgroup.pushBack hn) (by simp)

theorem Listed.leave (hn : n ∈ cells key) :
    Listed (leaveGroup groups key n)
      (update cells key ((cells key).filter fun m => m ≠ n)) := by
  obtain ⟨group, hlookup⟩ := h.lookup_isSome (ne_nil_of_mem hn)
  have hleft := (h.lookup hlookup).unlink_filter hn
  unfold leaveGroup
  rw [hlookup]
  dsimp only
  split
  · rename_i hempty
    rw [hleft.head_isNone.1 hempty]
    exact h.delete
  · rename_i hsome
    exact h.set hleft fun hnil => hsome (hleft.head_isNone.2 hnil)

theorem Listed.rotate (options : AdmissionOptions Time) (served : Option String) :
    Listed (rotate options groups served) cells := by
  unfold AdmissionQueue.rotate
  split
  · rename_i served _
    split
    · rename_i group hlookup
      have hmem := (InsertionMap.mem_iff_lookup h.keys).2 hlookup
      have hiff : ∀ found, found ∈ InsertionMap.delete groups served ++ [(served, group)] ↔
          found ∈ groups := by
        intro found
        rw [mem_append, InsertionMap.mem_delete, mem_singleton]
        constructor
        · rintro (⟨hfound, -⟩ | rfl)
          · exact hfound
          · exact hmem
        intro hfound
        by_cases hkey : found.1 = served
        · have hsame : groups.lookup served = some found.2 :=
            (InsertionMap.mem_iff_lookup h.keys).1 (hkey ▸ hfound)
          rw [hlookup] at hsame
          exact .inr (Prod.ext hkey (Option.some.inj hsame).symm)
        · exact .inl ⟨hfound, hkey⟩
      refine ⟨InsertionMap.nodup_delete_append h.keys, ?_, ?_⟩
      · exact fun found hfound => h.holds found ((hiff found).1 hfound)
      · intro key
        rw [← h.mem_keys key, mem_map, mem_map]
        simp only [hiff]
    · exact h
  · exact h

end

end Groups

/-! ## An entry is accepted -/

section Accept

variable {options : AdmissionOptions Time} {q : AdmissionQueue α Time}
variable {entry : PendingAdmission α Time}

variable {r : AdmissionQueue α Time}

/-- The table of the entries grows. -/
structure Grown (q r : AdmissionQueue α Time) (entry : PendingAdmission α Time) : Prop where
  entries : r.entries = q.entries ++ [entry]
  fresh : entry.active = true

theorem Grown.getElem? (h : Grown q r entry) (n : Nat) :
    r.entries[n]? = if n = q.entries.length then some entry else q.entries[n]? := by
  rw [h.entries]
  split
  · rename_i hn
    rw [hn, getElem?_concat_length]
  rename_i hn
  rcases Nat.lt_or_gt_of_ne hn with hlt | hgt
  · exact getElem?_append_left hlt
  · rw [getElem?_eq_none (by simp; omega), getElem?_eq_none (by omega)]

theorem Grown.isActive (h : Grown q r entry) (n : Nat) :
    r.isActive n = (decide (n = q.entries.length) || q.isActive n) := by
  unfold AdmissionQueue.isActive
  rw [h.getElem? n]
  by_cases hn : n = q.entries.length
  · simp [hn, h.fresh]
  · simp [hn]

theorem Grown.active (h : Grown q r entry) :
    r.active = q.active ++ [q.entries.length] := by
  have hlast : r.isActive q.entries.length = true := by rw [h.isActive]; simp
  have hkept : (range q.entries.length).filter r.isActive = q.active := by
    refine filter_congr fun n hn => ?_
    have hne := Nat.ne_of_lt (mem_range.1 hn)
    rw [h.isActive n, decide_eq_false hne, Bool.false_or]
  rw [AdmissionQueue.active, h.entries, length_append, length_singleton,
    range_succ, filter_append, hkept, filter_singleton, hlast]
  rfl

theorem Grown.keyOf (h : Grown q r entry) (n : Nat) :
    r.keyOf n = if n = q.entries.length then entry.fairnessKey else q.keyOf n := by
  unfold AdmissionQueue.keyOf
  rw [h.getElem? n]
  split <;> rfl

theorem Grown.bytesOf (h : Grown q r entry) (n : Nat) :
    r.bytesOf n = if n = q.entries.length then entry.bytes else q.bytesOf n := by
  unfold AdmissionQueue.bytesOf
  rw [h.getElem? n]
  split <;> rfl

theorem not_mem_active_length : q.entries.length ∉ q.active :=
  fun h => Nat.lt_irrefl _ (lt_of_isActive (mem_active.1 h))

theorem Grown.activeOf (h : Grown q r entry) (key : String) :
    r.activeOf key =
      q.activeOf key ++ if entry.fairnessKey = some key then [q.entries.length] else [] := by
  have hkept : q.active.filter (fun n => r.keyOf n = some key) = q.activeOf key := by
    refine filter_congr fun n hn => ?_
    have hne : n ≠ q.entries.length := fun heq => not_mem_active_length (heq ▸ hn)
    rw [h.keyOf n, if_neg hne]
  have hlast : r.keyOf q.entries.length = entry.fairnessKey := by rw [h.keyOf, if_pos rfl]
  rw [AdmissionQueue.activeOf, h.active, filter_append, hkept, filter_singleton, hlast]
  simp

theorem refusal_eq_none [LinearOrder Time] {now : Time} {request : AdmissionRequest α Time}
    (h : q.refusal options now request = none) :
    q.isClosed = false ∧ q.queuedItems < options.limits.maxItems ∧
      request.bytes ≤ options.limits.maxBytes - q.queuedBytes := by
  unfold refusal at h
  split at h
  · cases h
  rename_i hopen
  split at h
  · cases h
  split at h
  · cases h
  split at h
  · cases h
  · split at h
    · cases h
    · exact ⟨by simpa using hopen, by omega, by omega⟩

theorem misuse_eq_none [LinearOrder Time] {request : AdmissionRequest α Time}
    (h : misuse options request = none) :
    0 ≤ request.bytes ∧ (options.discipline = .roundRobin → request.fairnessKey.isSome) := by
  unfold misuse at h
  split_ifs at h with hbytes hkey
  refine ⟨by omega, fun hdiscipline => ?_⟩
  cases hfairness : request.fairnessKey with
  | some => rfl
  | none => exact absurd ⟨hdiscipline, by rw [hfairness]; rfl⟩ hkey

theorem Linked.append_listed (h : Linked options q) (hfresh : entry.active = true)
    (hkey : options.discipline = .roundRobin → entry.fairnessKey.isSome)
    (hdiscipline : options.discipline = .roundRobin) :
    Listed (q.append options entry).groups (q.append options entry).activeOf := by
  have hgrown : Grown q (q.append options entry) entry := ⟨rfl, hfresh⟩
  obtain ⟨key, hfairness⟩ := Option.isSome_iff_exists.1 (hkey hdiscipline)
  have hgroups : (q.append options entry).groups =
      InsertionMap.set q.groups key
        (((q.groups.lookup key).getD .empty).pushBack q.entries.length) := by
    unfold AdmissionQueue.append
    rw [hdiscipline, hfairness]
  have hcells : (q.append options entry).activeOf =
      update q.activeOf key (q.activeOf key ++ [q.entries.length]) := by
    funext other
    rw [hgrown.activeOf, hfairness]
    by_cases hother : other = key
    · subst hother
      rw [update_self, if_pos rfl]
    · rw [update_of_ne hother, if_neg (by simpa using Ne.symm hother), append_nil]
  rw [hgroups, hcells]
  apply (h.listed hdiscipline).push
  exact fun hmem => not_mem_active_length (mem_filter.1 hmem).1

theorem Linked.append (h : Linked options q) (hfresh : entry.active = true)
    (hkey : options.discipline = .roundRobin → entry.fairnessKey.isSome)
    (hitems : q.queuedItems < options.limits.maxItems)
    (hbytes : (entry.bytes : Int) ≤ options.limits.maxBytes - q.queuedBytes) :
    Linked options (q.append options entry) := by
  have hgrown : Grown q (q.append options entry) entry := ⟨rfl, hfresh⟩
  have hweights : ((q.append options entry).active.map (q.append options entry).bytesOf).sum =
      (q.active.map q.bytesOf).sum + entry.bytes := by
    have hkept : q.active.map (q.append options entry).bytesOf = q.active.map q.bytesOf := by
      refine map_congr_left fun n hn => ?_
      have hne : n ≠ q.entries.length := fun heq => not_mem_active_length (heq ▸ hn)
      rw [hgrown.bytesOf n, if_neg hne]
    rw [hgrown.active, map_append, sum_append, hkept, map_singleton,
      hgrown.bytesOf, if_pos rfl, sum_singleton]
  refine ⟨?_, h.append_listed hfresh hkey, ?_, ?_, ?_, ?_, ?_, ?_⟩
  · rw [hgrown.active]
    exact h.links.pushBack not_mem_active_length
  · intro hdiscipline n hn
    rw [hgrown.isActive, Bool.or_eq_true, decide_eq_true_iff] at hn
    rw [hgrown.keyOf]
    split
    · exact hkey hdiscipline
    · rename_i hne
      exact h.keyed hdiscipline n (hn.resolve_left hne)
  · intro hdiscipline
    unfold AdmissionQueue.append
    rw [hdiscipline]
    exact h.ungrouped hdiscipline
  · rw [hgrown.active, length_append]
    show q.queuedItems + 1 = _
    rw [h.items]
    rfl
  · rw [hweights]
    show q.queuedBytes + entry.bytes = _
    rw [h.bytes]
    rfl
  · show q.queuedItems + 1 ≤ _
    omega
  · show q.queuedBytes + entry.bytes ≤ _
    omega

variable [LinearOrder Time] [Add Time] {now : Time} {request : AdmissionRequest α Time}

theorem grown_accept : Grown q (q.accept options now request) (newEntry options now request) :=
  ⟨rfl, rfl⟩

theorem Scheduled.accept (h : Scheduled q) : Scheduled (q.accept options now request) := by
  have hgrown : Grown q (q.accept options now request) _ := grown_accept
  have hperm : (q.accept options now request).expiryHeap.toList.Perm
      (toLex ((newEntry options now request).expiresAtMs, q.entries.length) ::
        q.expiryHeap.toList) := BinaryHeap.push_perm id _ _
  have hfresh : ∀ item ∈ q.expiryHeap.toList, (ofLex item).2 ≠ q.entries.length := by
    intro item hitem heq
    obtain ⟨entry, hentry, -⟩ := h.known item hitem
    exact Nat.ne_of_lt (List.getElem?_eq_some_iff.1 hentry).1 heq
  refine ⟨BinaryHeap.push_ordered h.ordered _, ?_, ?_, ?_⟩
  · rw [hperm.nodup_iff, List.nodup_cons]
    exact ⟨fun hmem => hfresh _ hmem rfl, h.distinct⟩
  · intro item hitem
    rw [hperm.mem_iff, List.mem_cons] at hitem
    rcases hitem with rfl | hitem
    · exact ⟨_, (hgrown.getElem? _).trans (if_pos rfl), rfl⟩
    · obtain ⟨entry, hentry, htime⟩ := h.known item hitem
      exact ⟨entry, (hgrown.getElem? _).trans ((if_neg (hfresh item hitem)).trans hentry), htime⟩
  intro n entry hentry hactive
  rw [hperm.mem_iff, List.mem_cons]
  rw [hgrown.getElem?] at hentry
  split at hentry
  · rename_i hn
    cases hentry
    rw [hn]
    exact .inl rfl
  · exact .inr (h.waiting n entry hentry hactive)

theorem Settled.accept (h : Settled q) : Settled (q.accept options now request) := by
  have hgrown : Grown q (q.accept options now request) _ := grown_accept
  refine ⟨h.distinct, fun n => ?_, fun n settlement hmem => ?_⟩
  · show n ∈ q.settlements.map Prod.fst ↔ _
    rw [h.settled n, hgrown.isActive, hgrown.entries, List.length_append, List.length_singleton,
      Bool.or_eq_false_iff, decide_eq_false_iff_not]
    constructor
    · rintro ⟨hlt, hinactive⟩
      exact ⟨by omega, by omega, hinactive⟩
    · rintro ⟨hlt, hne, hinactive⟩
      exact ⟨by omega, hinactive⟩
  obtain ⟨entry, hentry, hown⟩ := h.own n settlement hmem
  refine ⟨entry, ?_, by cases settlement <;> exact hown⟩
  rw [hgrown.getElem?, if_neg (Nat.ne_of_lt (List.getElem?_eq_some_iff.1 hentry).1)]
  exact hentry

/-- **An entry is accepted.** -/
theorem Conserved.accept (h : Conserved options q) (hmisuse : misuse options request = none)
    (hrefusal : q.refusal options now request = none) :
    Conserved options (q.accept options now request) := by
  obtain ⟨-, hitems, hbytes⟩ := refusal_eq_none hrefusal
  obtain ⟨hnonneg, hkey⟩ := misuse_eq_none hmisuse
  have happend : Linked options (q.append options (newEntry options now request)) := by
    apply h.linked.append rfl hkey hitems
    show ((request.bytes.toNat : Nat) : Int) ≤ _
    omega
  exact ⟨happend.of_same rfl rfl rfl rfl rfl, h.scheduled.accept, h.settled.accept⟩

end Accept

/-! ## An entry leaves -/

section Leave

variable {options : AdmissionOptions Time} {q : AdmissionQueue α Time} {n : Nat}

variable {r : AdmissionQueue α Time}

/-- One entry is no longer active; the rest of the table is as it was. -/
structure Left (q r : AdmissionQueue α Time) (n : Nat) : Prop where
  entries : r.entries = q.entries.modify n fun entry => { entry with active := false }

section

variable (h : Left q r n)
include h

theorem Left.getElem? (m : Nat) :
    r.entries[m]? =
      q.entries[m]?.map fun entry => if m = n then { entry with active := false } else entry := by
  rw [h.entries]
  by_cases hm : m = n
  · subst hm
    simp
  · simp [hm, Ne.symm hm]

theorem Left.isActive (m : Nat) :
    r.isActive m = (decide (m ≠ n) && q.isActive m) := by
  unfold AdmissionQueue.isActive
  rw [h.getElem? m]
  by_cases hm : m = n <;> cases q.entries[m]? <;> simp [hm]

theorem Left.keyOf : r.keyOf = q.keyOf := by
  funext m
  unfold AdmissionQueue.keyOf
  rw [h.getElem? m]
  by_cases hm : m = n <;> cases q.entries[m]? <;> simp [hm]

theorem Left.bytesOf : r.bytesOf = q.bytesOf := by
  funext m
  unfold AdmissionQueue.bytesOf
  rw [h.getElem? m]
  by_cases hm : m = n <;> cases q.entries[m]? <;> simp [hm]

theorem Left.length :
    r.entries.length = q.entries.length := by
  rw [h.entries, length_modify]

theorem Left.active :
    r.active = q.active.filter fun m => m ≠ n := by
  rw [AdmissionQueue.active, AdmissionQueue.active, filter_filter, h.length]
  exact filter_congr fun m _ => h.isActive m

theorem Left.activeOf (key : String) :
    r.activeOf key = (q.activeOf key).filter fun m => m ≠ n := by
  rw [AdmissionQueue.activeOf, AdmissionQueue.activeOf, h.active, h.keyOf, filter_filter,
    filter_filter]
  exact filter_congr fun m _ => Bool.and_comm _ _

end

theorem left_detach (hactive : q.isActive n = true) : Left q (q.detach options n) n := by
  obtain ⟨entry, hentry, hflag⟩ := isActive_iff.1 hactive
  unfold detach
  rw [hentry]
  dsimp only
  rw [if_pos hflag]
  exact ⟨rfl⟩

theorem Linked.detach_listed (h : Linked options q) (hactive : q.isActive n = true)
    (hdiscipline : options.discipline = .roundRobin) :
    Listed (q.detach options n).groups (q.detach options n).activeOf := by
  have hleft : Left q (q.detach options n) n := left_detach hactive
  obtain ⟨entry, hentry, hflag⟩ := isActive_iff.1 hactive
  obtain ⟨key, hkey⟩ := Option.isSome_iff_exists.1 (h.keyed hdiscipline n hactive)
  have hfairness : entry.fairnessKey = some key := by
    rw [keyOf, hentry] at hkey
    exact hkey
  have hgroups : (q.detach options n).groups = leaveGroup q.groups key n := by
    unfold detach
    rw [hentry]
    dsimp only
    rw [if_pos hflag, hdiscipline, hfairness]
  have hcells : (q.detach options n).activeOf =
      update q.activeOf key ((q.activeOf key).filter fun m => m ≠ n) := by
    funext other
    rw [hleft.activeOf]
    by_cases hother : other = key
    · subst hother
      rw [update_self]
    rw [update_of_ne hother, filter_eq_self]
    intro m hm
    have hne : m ≠ n := by
      rintro rfl
      have hsame := (mem_activeOf.1 hm).2
      rw [hkey] at hsame
      exact hother (Option.some.inj hsame).symm
    exact decide_eq_true hne
  rw [hgroups, hcells]
  exact (h.listed hdiscipline).leave (mem_activeOf.2 ⟨hactive, hkey⟩)

theorem Linked.detach (h : Linked options q) (hactive : q.isActive n = true) :
    Linked options (q.detach options n) := by
  have hleft : Left q (q.detach options n) n := left_detach hactive
  obtain ⟨entry, hentry, hflag⟩ := isActive_iff.1 hactive
  have hmem := mem_active.2 hactive
  have herase : (q.detach options n).active = q.active.erase n := by
    rw [hleft.active, (nodup_active q).erase_eq_filter]
    exact filter_congr fun m _ => by by_cases hm : m = n <;> simp [hm]
  have hweight : q.bytesOf n = entry.bytes := by rw [bytesOf, hentry]; rfl
  have hsum := sum_map_erase q.bytesOf hmem
  have hlength := length_erase_of_mem hmem
  have hpos := length_pos_of_mem hmem
  have hfields : (q.detach options n).links = q.links.unlink n ∧
      (q.detach options n).queuedItems = q.queuedItems - 1 ∧
      (q.detach options n).queuedBytes = q.queuedBytes - entry.bytes := by
    unfold AdmissionQueue.detach
    rw [hentry]
    dsimp only
    rw [if_pos hflag]
    exact ⟨rfl, rfl, rfl⟩
  obtain ⟨hlinks, hitems, hbytes⟩ := hfields
  have hitemsEq := h.items
  have hbytesEq := h.bytes
  refine ⟨?_, h.detach_listed hactive, ?_, ?_, ?_, ?_, ?_, ?_⟩
  · rw [hlinks, hleft.active]
    exact h.links.unlink_filter hmem
  · intro hdiscipline m hm
    rw [hleft.isActive, Bool.and_eq_true] at hm
    rw [hleft.keyOf]
    exact h.keyed hdiscipline m hm.2
  · intro hdiscipline
    unfold AdmissionQueue.detach
    rw [hentry]
    dsimp only
    rw [if_pos hflag, hdiscipline]
    exact h.ungrouped hdiscipline
  · rw [herase]
    omega
  · rw [herase, hleft.bytesOf]
    omega
  · have hle := h.items_le
    omega
  · have hle := h.bytes_le
    omega

theorem Settled.leave {r : AdmissionQueue α Time} {settlement : AdmissionSettlement α Time}
    (h : Settled q) (hleft : Left q r n) (hactive : q.isActive n = true)
    (hsettlements : r.settlements = q.settlements ++ [(n, settlement)])
    (hclosed : r.isClosed = q.isClosed)
    (hown : ∀ entry, q.entries[n]? = some entry → q.Own entry settlement) : Settled r := by
  have hnew : n ∉ q.settlements.map Prod.fst := by
    rw [h.settled, hactive]
    exact fun hboth => Bool.false_ne_true hboth.2.symm
  have hkept : ∀ (entry : PendingAdmission α Time) m (other : AdmissionSettlement α Time),
      q.Own entry other →
      r.Own (if m = n then { entry with active := false } else entry) other := by
    intro entry m other hother
    cases other with
    | admitted => split <;> exact hother
    | rejected =>
      rw [Own, hclosed]
      split <;> exact hother
  refine ⟨?_, fun m => ?_, fun m other hmem => ?_⟩
  · rw [hsettlements, map_append]
    exact Nodup.append h.distinct (nodup_singleton n) (disjoint_singleton.2 hnew)
  · rw [hsettlements, map_append, mem_append, h.settled m, hleft.isActive, hleft.length]
    by_cases hm : m = n
    · subst hm
      simpa using lt_of_isActive hactive
    · simp [hm]
  rw [hsettlements, mem_append, mem_singleton] at hmem
  rcases hmem with hmem | hmem
  · obtain ⟨entry, hentry, hother⟩ := h.own m other hmem
    refine ⟨_, ?_, hkept entry m other hother⟩
    rw [hleft.getElem?, hentry, Option.map_some]
  cases hmem
  obtain ⟨entry, hentry, -⟩ := isActive_iff.1 hactive
  refine ⟨_, ?_, hkept entry n settlement (hown entry hentry)⟩
  rw [hleft.getElem?, hentry, Option.map_some]

theorem detach_rest (options : AdmissionOptions Time) (q : AdmissionQueue α Time) (n : Nat) :
    (q.detach options n).expiryHeap = q.expiryHeap ∧
      (q.detach options n).settlements = q.settlements ∧
      (q.detach options n).isClosed = q.isClosed := by
  unfold detach
  split
  · exact ⟨rfl, rfl, rfl⟩
  · split <;> exact ⟨rfl, rfl, rfl⟩

/-- What a rejection does. -/
structure Rejects (options : AdmissionOptions Time) (q r : AdmissionQueue α Time) (n : Nat)
    (reason : AdmissionRejectionReason) : Prop where
  left : Left q r n
  heap : r.expiryHeap = q.expiryHeap
  settlements : r.settlements = q.settlements ++ [(n, .rejected reason)]
  closed : r.isClosed = q.isClosed

theorem rejects_rejectEntry (hactive : q.isActive n = true) (reason : AdmissionRejectionReason) :
    Rejects options q (q.rejectEntry options n reason) n reason := by
  have hleft : Left q (q.detach options n) n := left_detach hactive
  obtain ⟨hheap, hsettlements, hclosed⟩ := detach_rest options q n
  rw [rejectEntry, if_pos hactive]
  refine ⟨⟨hleft.entries⟩, hheap, ?_, hclosed⟩
  show (q.detach options n).settlements ++ _ = _
  rw [hsettlements]

variable [LinearOrder Time]

theorem Scheduled.leave {r : AdmissionQueue α Time} (h : Scheduled q) (hleft : Left q r n)
    (hheap : r.expiryHeap = q.expiryHeap) : Scheduled r := by
  refine ⟨hheap ▸ h.ordered, hheap ▸ h.distinct, fun item hitem => ?_,
    fun m entry hentry hflag => ?_⟩
  · obtain ⟨entry, hentry, htime⟩ := h.known item (hheap ▸ hitem)
    rw [hleft.getElem?, hentry]
    refine ⟨_, rfl, ?_⟩
    split <;> exact htime
  rw [hheap]
  rw [hleft.getElem?, Option.map_eq_some_iff] at hentry
  obtain ⟨before, hbefore, rfl⟩ := hentry
  split_ifs at hflag
  · rename_i hm
    rw [if_neg hm]
    exact h.waiting m before hbefore hflag

/-- **An entry is rejected.** -/
theorem Conserved.rejectEntry (h : Conserved options q) {reason : AdmissionRejectionReason}
    (hown : ∀ entry, q.entries[n]? = some entry → q.Own entry (.rejected reason)) :
    Conserved options (q.rejectEntry options n reason) := by
  by_cases hactive : q.isActive n = true
  · have hrejects : Rejects options q (q.rejectEntry options n reason) n reason :=
      rejects_rejectEntry hactive reason
    refine ⟨?_, h.scheduled.leave hrejects.left hrejects.heap,
      h.settled.leave hrejects.left hactive hrejects.settlements hrejects.closed hown⟩
    rw [AdmissionQueue.rejectEntry, if_pos hactive]
    exact (h.linked.detach hactive).of_same rfl rfl rfl rfl rfl
  · rw [AdmissionQueue.rejectEntry, if_neg hactive]
    exact h

end Leave

end AckerDB.AdmissionQueue
