import AckerDB.Runtime.Conservation

/-!
# Expiry of admissions

What `expire` rejects, and the runs of an `AdmissionQueue`.

* `Expired` — some entries that were due have been rejected, each with its own reason;
* `Conserved.expire` — `expire` rejects all of them;
* `queue_conserved` — the queue of every run conserves its tickets.
-/

namespace AckerDB.AdmissionQueue

open List

variable {α Time : Type} [LinearOrder Time] {options : AdmissionOptions Time}
variable {q r s : AdmissionQueue α Time} {now : Time} {n : Nat}

/-! ## Items leave the heap -/

theorem Left.isDue (h : Left q r n) (now : Time) : r.isDue now = q.isDue now := by
  funext m
  unfold AdmissionQueue.isDue
  rw [h.getElem? m]
  by_cases hm : m = n <;> cases q.entries[m]? <;> simp [hm]

omit [LinearOrder Time] in
theorem Left.expiresBy (h : Left q r n) : r.expiresBy = q.expiresBy := by
  funext m
  unfold AdmissionQueue.expiresBy
  rw [h.getElem? m]
  by_cases hm : m = n <;> cases q.entries[m]? <;> simp [hm]

variable {item : Time ×ₗ Nat}

/-- An item whose entry has left may leave the heap. -/
theorem Scheduled.popExpiry (h : Scheduled q) (hitem : q.expiryHeap[0]? = some item)
    (hgone : q.isActive (ofLex item).2 = false) :
    Scheduled q.popExpiry := by
  obtain ⟨-, hperm⟩ := BinaryHeap.pop_perm id hitem h.distinct
  have hdistinct := (hperm.nodup_iff.1 h.distinct)
  refine ⟨BinaryHeap.pop_ordered h.ordered hitem h.distinct,
    (nodup_cons.1 hdistinct).2, ?_, ?_⟩
  · exact fun other hother => h.known other (hperm.mem_iff.2 (mem_cons_of_mem item hother))
  intro m entry hentry hflag
  rcases mem_cons.1 (hperm.mem_iff.1 (h.waiting m entry hentry hflag)) with hsame | hother
  · have hactive := isActive_iff.2 ⟨entry, hentry, hflag⟩
    rw [← hsame] at hgone
    exact absurd (hgone.symm.trans hactive) Bool.false_ne_true
  · exact hother

theorem size_popExpiry (h : Scheduled q) (hitem : q.expiryHeap[0]? = some item) :
    q.popExpiry.expiryHeap.size + 1 = q.expiryHeap.size := by
  obtain ⟨-, hperm⟩ := BinaryHeap.pop_perm id hitem h.distinct
  have hlength := hperm.length_eq
  simpa [AdmissionQueue.popExpiry] using hlength.symm

omit [LinearOrder Time] in
theorem heap_rejectEntry (options : AdmissionOptions Time) (q : AdmissionQueue α Time) (n : Nat)
    (reason : AdmissionRejectionReason) :
    (q.rejectEntry options n reason).expiryHeap = q.expiryHeap := by
  unfold rejectEntry
  split
  · exact (detach_rest options q n).1
  · rfl

/-- Taking an item off the heap and rejecting an entry do not meet. -/
theorem rejectEntry_popExpiry (options : AdmissionOptions Time) (q : AdmissionQueue α Time)
    (n : Nat) (reason : AdmissionRejectionReason) :
    q.popExpiry.rejectEntry options n reason = (q.rejectEntry options n reason).popExpiry := by
  have hsame : q.popExpiry.isActive n = q.isActive n := rfl
  unfold rejectEntry
  rw [hsame]
  by_cases hactive : q.isActive n = true
  · obtain ⟨entry, hentry, hflag⟩ := isActive_iff.1 hactive
    have hpopped : q.popExpiry.entries[n]? = some entry := hentry
    rw [if_pos hactive, if_pos hactive, detach, detach, hentry, hpopped]
    dsimp only
    rw [if_pos hflag, if_pos hflag]
    rfl
  · rw [if_neg hactive, if_neg hactive]

/-! ## Entries expire -/

/-- **Some entries that were due have been rejected**, in this order. -/
structure Expired (options : AdmissionOptions Time) (now : Time) (q r : AdmissionQueue α Time)
    (gone : List Nat) : Prop where
  conserved : Conserved options r
  distinct : gone.Nodup
  due : ∀ n ∈ gone, q.isActive n = true ∧ q.isDue now n = true
  active : ∀ n, r.isActive n = (q.isActive n && decide (n ∉ gone))
  length : r.entries.length = q.entries.length
  sameDue : r.isDue now = q.isDue now
  sameReason : r.expiresBy = q.expiresBy
  settlements : r.settlements =
    q.settlements ++ gone.map fun n => (n, .rejected (q.expiresBy n))
  closed : r.isClosed = q.isClosed

theorem Expired.refl (h : Conserved options q) : Expired options now q q [] := by
  refine ⟨h, nodup_nil, by simp, by simp, rfl, rfl, rfl, by simp, rfl⟩

theorem Expired.trans {first second : List Nat} (h : Expired options now q r first)
    (hnext : Expired options now r s second) : Expired options now q s (first ++ second) := by
  have hkept : ∀ n ∈ second, q.isActive n = true ∧ n ∉ first := by
    intro n hn
    have hactive := (hnext.due n hn).1
    rw [h.active n, Bool.and_eq_true, decide_eq_true_iff] at hactive
    exact hactive
  refine ⟨hnext.conserved, ?_, fun n hn => ?_, fun n => ?_, hnext.length.trans h.length,
    hnext.sameDue.trans h.sameDue, hnext.sameReason.trans h.sameReason, ?_,
    hnext.closed.trans h.closed⟩
  · exact Nodup.append h.distinct hnext.distinct fun n hfirst hsecond =>
      (hkept n hsecond).2 hfirst
  · rcases mem_append.1 hn with hn | hn
    · exact h.due n hn
    · exact ⟨(hkept n hn).1, h.sameDue ▸ (hnext.due n hn).2⟩
  · rw [hnext.active, h.active]
    simp [Bool.and_assoc]
  · rw [hnext.settlements, h.settlements, h.sameReason, map_append, append_assoc]

theorem expired_rejectEntry (h : Conserved options q) (hactive : q.isActive n = true)
    (hdue : q.isDue now n = true) :
    Expired options now q (q.rejectEntry options n (q.expiresBy n)) [n] := by
  have hrejects : Rejects options q (q.rejectEntry options n (q.expiresBy n)) n (q.expiresBy n) :=
    rejects_rejectEntry hactive _
  have hown : ∀ entry, q.entries[n]? = some entry → q.Own entry (.rejected (q.expiresBy n)) := by
    intro entry hentry
    left
    rw [AdmissionQueue.expiresBy, hentry]
  refine ⟨h.rejectEntry hown, nodup_singleton n, ?_, fun m => ?_, hrejects.left.length,
    hrejects.left.isDue now, hrejects.left.expiresBy, hrejects.settlements, hrejects.closed⟩
  · intro m hm
    rw [mem_singleton.1 hm]
    exact ⟨hactive, hdue⟩
  · rw [hrejects.left.isActive, Bool.and_comm]
    simp

theorem expired_popExpiry (h : Conserved options q) (hitem : q.expiryHeap[0]? = some item)
    (hgone : q.isActive (ofLex item).2 = false) :
    Expired options now q q.popExpiry [] := by
  have hpopped : Conserved options q.popExpiry :=
    ⟨h.linked.of_same rfl rfl rfl rfl rfl, h.scheduled.popExpiry hitem hgone,
      { h.settled with }⟩
  refine ⟨hpopped, nodup_nil, by simp, fun m => ?_, rfl, rfl, rfl, by simp [popExpiry], rfl⟩
  rw [decide_eq_true not_mem_nil, Bool.and_true]
  rfl

theorem expired_discard (fuel : Nat) (h : Conserved options q) :
    Expired options now q (discardInactiveExpiryHeads fuel q) [] ∧
      (discardInactiveExpiryHeads fuel q).expiryHeap.size ≤ q.expiryHeap.size := by
  induction fuel generalizing q with
  | zero => exact ⟨.refl h, le_refl _⟩
  | succ fuel ih =>
    rw [discardInactiveExpiryHeads]
    split
    · rename_i item hitem
      split
      · exact ⟨.refl h, le_refl _⟩
      rename_i hgone
      have hpopped : Expired options now q q.popExpiry [] :=
        expired_popExpiry h hitem (by simpa using hgone)
      have hsize := size_popExpiry h.scheduled hitem
      obtain ⟨hrest, hle⟩ := ih hpopped.conserved
      exact ⟨hpopped.trans hrest, by omega⟩
    · exact ⟨.refl h, le_refl _⟩

theorem Expired.discard {gone : List Nat} (h : Expired options now q r gone) :
    Expired options now q (discardInactiveExpiryHeads r.expiryHeap.size r) gone ∧
      (discardInactiveExpiryHeads r.expiryHeap.size r).expiryHeap.size ≤ r.expiryHeap.size := by
  obtain ⟨hdiscard, hle⟩ := expired_discard r.expiryHeap.size h.conserved
  exact ⟨append_nil gone ▸ h.trans hdiscard, hle⟩

/-- The item on top of the heap is taken off, and its entry rejected if it is still there. -/
theorem expired_head (h : Conserved options q) (hitem : q.expiryHeap[0]? = some item)
    (hdue : (ofLex item).1 ≤ now) (hactive : q.isActive (ofLex item).2 = true) :
    Expired options now q
      (q.popExpiry.rejectEntry options (ofLex item).2 (q.popExpiry.expiresBy (ofLex item).2))
      [(ofLex item).2] := by
  have hmem : item ∈ q.expiryHeap.toList := by
    rw [Array.mem_toList_iff]
    exact Array.mem_of_getElem? hitem
  obtain ⟨entry, hentry, htime⟩ := h.scheduled.known item hmem
  have hisDue : q.isDue now (ofLex item).2 = true := by
    unfold isDue
    rw [hentry]
    simpa [htime] using hdue
  have hrejected := expired_rejectEntry h hactive hisDue
  have hrejects : Rejects options q (q.rejectEntry options (ofLex item).2
      (q.expiresBy (ofLex item).2)) (ofLex item).2 (q.expiresBy (ofLex item).2) :=
    rejects_rejectEntry hactive _
  rw [rejectEntry_popExpiry]
  have hhead : (q.rejectEntry options (ofLex item).2 (q.expiresBy (ofLex item).2)).expiryHeap[0]? =
      some item := (congrArg (fun heap => heap[0]?) hrejects.heap).trans hitem
  refine hrejected.trans (expired_popExpiry hrejected.conserved hhead ?_)
  rw [hrejected.active]
  simp

/-- Nothing is due when the first item is not. -/
theorem not_isDue_of_head (h : Conserved options q)
    (hhead : ∀ item, q.expiryHeap[0]? = some item → now < (ofLex item).1)
    (hactive : q.isActive n = true) : q.isDue now n = false := by
  obtain ⟨entry, hentry, hflag⟩ := isActive_iff.1 hactive
  have hmem := h.scheduled.waiting n entry hentry hflag
  obtain ⟨i, hi⟩ := mem_iff_getElem?.1 hmem
  rw [Array.getElem?_toList] at hi
  have hsize : 0 < q.expiryHeap.size := by
    have := (Array.getElem?_eq_some_iff.1 hi).1
    omega
  obtain ⟨first, hfirst⟩ : ∃ first, q.expiryHeap[0]? = some first :=
    ⟨_, Array.getElem?_eq_getElem hsize⟩
  have hle : first ≤ toLex (entry.expiresAtMs, n) :=
    h.scheduled.ordered.first_le i first hfirst _ hi
  have hlater : now < entry.expiresAtMs :=
    lt_of_lt_of_le (hhead first hfirst) (Prod.Lex.monotone_fst _ _ hle)
  unfold isDue
  rw [hentry]
  simpa using hlater

theorem expired_expireDue (now : Time) (fuel expired : Nat) (h : Conserved options q)
    (hfuel : q.expiryHeap.size ≤ fuel) :
    ∃ gone, Expired options now q (expireDue options now fuel q expired).1 gone ∧
      (expireDue options now fuel q expired).2 = expired + gone.length ∧
      ∀ item, (expireDue options now fuel q expired).1.expiryHeap[0]? = some item →
        now < (ofLex item).1 := by
  induction fuel generalizing q expired with
  | zero =>
    refine ⟨[], .refl h, rfl, fun item hitem => ?_⟩
    have hsize := (Array.getElem?_eq_some_iff.1 hitem).1
    exact absurd hsize (by show ¬ 0 < q.expiryHeap.size; omega)
  | succ fuel ih =>
    rw [expireDue]
    cases hitem : q.expiryHeap[0]? with
    | none =>
      refine ⟨[], .refl h, rfl, fun item hhead => ?_⟩
      exact absurd (hitem.symm.trans hhead) (by simp)
    | some item =>
      have hsize := size_popExpiry h.scheduled hitem
      dsimp only
      split
      · rename_i hdue
        split
        · rename_i hactive
          have hhead := expired_head h hitem hdue hactive
          obtain ⟨hdiscard, hle⟩ := hhead.discard
          have hheap := congrArg Array.size (heap_rejectEntry options q.popExpiry
            (ofLex item).2 (q.popExpiry.expiresBy (ofLex item).2))
          obtain ⟨gone, hgone, hcount, hfinal⟩ :=
            ih (expired + 1) hdiscard.conserved (by omega)
          refine ⟨(ofLex item).2 :: gone, ?_, ?_, hfinal⟩
          · exact hdiscard.trans hgone
          · rw [length_cons]
            omega
        rename_i hgoneEntry
        have hinactive := eq_false_of_ne_true hgoneEntry
        have hpopped : Expired options now q q.popExpiry [] :=
          expired_popExpiry h hitem hinactive
        obtain ⟨hdiscard, hle⟩ := hpopped.discard
        obtain ⟨gone, hgone, hcount, hfinal⟩ :=
          ih expired hdiscard.conserved (by omega)
        exact ⟨gone, hdiscard.trans hgone, hcount, hfinal⟩
      rename_i hlater
      refine ⟨[], .refl h, rfl, fun first hfirst => ?_⟩
      have hsame := Option.some.inj (hfirst.symm.trans hitem)
      rw [hsame]
      exact not_le.1 hlater

/-- **`expire` rejects exactly the entries that are due.** -/
theorem Conserved.expire (h : Conserved options q) (now : Time) :
    ∃ gone, Expired options now q (q.expire options now).1 gone ∧
      (q.expire options now).2 = gone.length ∧
      gone.Perm (q.active.filter (q.isDue now)) := by
  have hdiscard := ((Expired.refl h : Expired options now q q []).discard).1
  obtain ⟨gone, hgone, hcount, hhead⟩ :=
    expired_expireDue now _ 0 hdiscard.conserved (le_refl _)
  have hall : Expired options now q (q.expire options now).1 gone := hdiscard.trans hgone
  refine ⟨gone, hall, hcount.trans (Nat.zero_add _), ?_⟩
  rw [perm_ext_iff_of_nodup hall.distinct ((nodup_active q).filter _)]
  intro n
  rw [mem_filter, mem_active]
  refine ⟨hall.due n, fun ⟨hactive, hdue⟩ => ?_⟩
  by_contra hn
  have hstill : (q.expire options now).1.isActive n = true := by
    rw [hall.active, hactive, decide_eq_true hn]
    rfl
  have hnot := not_isDue_of_head hall.conserved hhead hstill
  rw [hall.sameDue, hdue] at hnot
  cases hnot

/-! ## The other operations -/

/-- No entry comes in, and the queue is as open as it was. -/
structure Shrinks (q r : AdmissionQueue α Time) : Prop where
  active : ∀ n, r.isActive n = true → q.isActive n = true
  closed : r.isClosed = q.isClosed

theorem Expired.shrinks {gone : List Nat} (h : Expired options now q r gone) : Shrinks q r := by
  refine ⟨fun n hn => ?_, h.closed⟩
  rw [h.active, Bool.and_eq_true] at hn
  exact hn.1

omit [LinearOrder Time] in
theorem shrinks_rejectEntry (options : AdmissionOptions Time) (q : AdmissionQueue α Time) (n : Nat)
    (reason : AdmissionRejectionReason) : Shrinks q (q.rejectEntry options n reason) := by
  by_cases hactive : q.isActive n = true
  · have hrejects : Rejects options q (q.rejectEntry options n reason) n reason :=
      rejects_rejectEntry hactive reason
    refine ⟨fun m hm => ?_, hrejects.closed⟩
    rw [hrejects.left.isActive, Bool.and_eq_true] at hm
    exact hm.2
  · rw [rejectEntry, if_neg hactive]
    exact ⟨fun _ hm => hm, rfl⟩

omit [LinearOrder Time] in
theorem Linked.rotate (h : Linked options q) (served : Option String) :
    Linked options { q with groups := rotate options q.groups served } := by
  refine { h with listed := fun hdiscipline => ?_, ungrouped := fun hdiscipline => ?_ }
  · exact (h.listed hdiscipline).rotate options served
  show AdmissionQueue.rotate options q.groups served = []
  unfold AdmissionQueue.rotate
  rw [hdiscipline]
  exact h.ungrouped hdiscipline

omit [LinearOrder Time] in
/-- The entry that is served is queued. -/
theorem Linked.first (h : Linked options q) (hfirst : q.first options = some n) :
    q.isActive n = true := by
  unfold AdmissionQueue.first at hfirst
  cases hdiscipline : options.discipline with
  | fifo =>
    rw [hdiscipline] at hfirst
    exact mem_active.1 (mem_of_mem_head? (h.links.head.symm.trans hfirst))
  | roundRobin =>
    rw [hdiscipline, Option.bind_eq_some_iff] at hfirst
    obtain ⟨found, hfound, hhead⟩ := hfirst
    have hholds := (h.listed hdiscipline).holds found (mem_of_mem_head? hfound)
    exact (mem_activeOf.1 (mem_of_mem_head? (hholds.head.symm.trans hhead))).1

section Take

variable [Sub Time] [Zero Time]

theorem take_conserved (h : Conserved options q) (now : Time) :
    Conserved options (q.take options now).1 ∧ Shrinks q (q.take options now).1 := by
  obtain ⟨gone, hexpired, -⟩ := h.expire now
  have hshrinks := hexpired.shrinks
  have hconserved := hexpired.conserved
  unfold take
  generalize (q.expire options now).1 = r at hconserved hshrinks
  dsimp only
  cases hfirst : r.first options with
  | none => exact ⟨hconserved, hshrinks⟩
  | some n =>
    have hactive := hconserved.linked.first hfirst
    obtain ⟨entry, hentry, hflag⟩ := isActive_iff.1 hactive
    have hleft : Left r (r.detach options n) n := left_detach hactive
    obtain ⟨hheap, hsettlements, hclosed⟩ := detach_rest options r n
    have hlinked := (hconserved.linked.detach hactive).rotate entry.fairnessKey
    dsimp only
    rw [hentry]
    refine ⟨⟨hlinked.of_same rfl rfl rfl rfl rfl, ?_, ?_⟩, ⟨fun m hm => ?_, ?_⟩⟩
    · exact hconserved.scheduled.leave ⟨hleft.entries⟩ hheap
    · refine hconserved.settled.leave ⟨hleft.entries⟩ hactive
        (congrArg (fun settlements => settlements ++ [_]) hsettlements) hclosed ?_
      intro other hother
      rw [hentry] at hother
      cases hother
      exact ⟨rfl, rfl, rfl, rfl⟩
    · have hm' : (r.detach options n).isActive m = true := hm
      rw [hleft.isActive, Bool.and_eq_true] at hm'
      exact hshrinks.active m hm'.2
    · exact hclosed.trans hshrinks.closed

end Take

theorem closeAll_conserved (fuel : Nat) (h : Conserved options q) (hclosed : q.isClosed = true)
    (hfuel : q.active.length ≤ fuel) :
    Conserved options (closeAll options fuel q) ∧ (closeAll options fuel q).active = [] := by
  induction fuel generalizing q with
  | zero => exact ⟨h, length_eq_zero_iff.1 (Nat.le_zero.1 hfuel)⟩
  | succ fuel ih =>
    rw [closeAll]
    cases hhead : q.links.head with
    | none =>
      refine ⟨h, ?_⟩
      rw [h.linked.links.head, head?_eq_none_iff] at hhead
      exact hhead
    | some n =>
      have hmem : n ∈ q.active :=
        mem_of_mem_head? (h.linked.links.head.symm.trans hhead)
      have hactive := mem_active.1 hmem
      have hrejects : Rejects options q (q.rejectEntry options n .closed) n .closed :=
        rejects_rejectEntry hactive _
      have hshorter : (q.rejectEntry options n .closed).active.length < q.active.length := by
        rw [hrejects.left.active]
        exact length_filter_lt_length_iff_exists.2 ⟨n, hmem, by simp⟩
      refine ih (h.rejectEntry fun entry _ => ?_) (hrejects.closed.trans hclosed) (by omega)
      exact .inr (.inr ⟨rfl, hclosed⟩)

theorem close_conserved (h : Conserved options q) (hshut : q.isClosed = true → q.active = []) :
    Conserved options (q.close options) ∧ (q.close options).active = [] := by
  unfold close
  split
  · rename_i hclosed
    exact ⟨h, hshut hclosed⟩
  have hlength : q.active.length ≤ q.entries.length := by
    have hle := length_filter_le q.isActive (range q.entries.length)
    rwa [length_range] at hle
  have hsettled : Settled { q with isClosed := true } := by
    refine ⟨h.settled.distinct, h.settled.settled, fun n settlement hmem => ?_⟩
    obtain ⟨entry, hentry, hown⟩ := h.settled.own n settlement hmem
    refine ⟨entry, hentry, ?_⟩
    cases settlement with
    | admitted => exact hown
    | rejected =>
      rcases hown with hown | hown | ⟨hreason, -⟩
      · exact .inl hown
      · exact .inr (.inl hown)
      · exact .inr (.inr ⟨hreason, rfl⟩)
  have hclosing : Conserved options { q with isClosed := true } :=
    ⟨h.linked.of_same rfl rfl rfl rfl rfl,
      { h.scheduled with },
      hsettled⟩
  exact closeAll_conserved _ hclosing rfl hlength

/-! ## Runs -/

/-- **What every run keeps**: the bookkeeping, and that a closed queue is empty. -/
structure Kept (options : AdmissionOptions Time) (q : AdmissionQueue α Time) : Prop where
  conserved : Conserved options q
  closed : q.isClosed = true → q.active = []

theorem Kept.shrinks (h : Kept options q) (hconserved : Conserved options r)
    (hshrinks : Shrinks q r) : Kept options r := by
  refine ⟨hconserved, fun hclosed => eq_nil_iff_forall_not_mem.2 fun n hn => ?_⟩
  have hstill := mem_active.2 (hshrinks.active n (mem_active.1 hn))
  rw [h.closed (hshrinks.closed.symm.trans hclosed)] at hstill
  exact not_mem_nil hstill

theorem Kept.rejectEntry (h : Kept options q) {reason : AdmissionRejectionReason}
    (hown : ∀ entry, q.entries[n]? = some entry → q.Own entry (.rejected reason)) :
    Kept options (q.rejectEntry options n reason) :=
  h.shrinks (h.conserved.rejectEntry hown) (shrinks_rejectEntry options q n reason)

theorem Kept.countRejection (h : Kept options q) (reason : AdmissionRejectionReason) :
    Kept options (q.countRejection reason) := by
  have hconserved : Conserved options (q.countRejection reason) :=
    ⟨h.conserved.linked.of_same rfl rfl rfl rfl rfl,
      { h.conserved.scheduled with },
      { h.conserved.settled with }⟩
  exact h.shrinks hconserved ⟨fun _ hn => hn, rfl⟩

section Steps

variable [Add Time]

theorem Kept.enqueue (h : Kept options q) (clock : Option Time)
    (request : AdmissionRequest α Time) : Kept options (q.enqueue options clock request).1 := by
  unfold AdmissionQueue.enqueue
  split
  · exact h
  · exact h
  rename_i now hmisuse _
  split
  · exact h.countRejection _
  rename_i hrefusal
  have haccepted : Kept options (q.accept options now request) := by
    refine ⟨h.conserved.accept hmisuse hrefusal, fun hclosed => ?_⟩
    have hopen := (refusal_eq_none hrefusal).1
    exact absurd (hopen.symm.trans hclosed) Bool.false_ne_true
  split
  · rename_i haborted
    refine haccepted.rejectEntry fun entry hentry => .inr (.inl ⟨rfl, ?_⟩)
    have hgrown : Grown q (q.accept options now request) (newEntry options now request) :=
      grown_accept
    rw [hgrown.getElem?, if_pos rfl] at hentry
    cases hentry
    obtain ⟨hsignal, -⟩ := (Option.any_eq_true_iff_get _ _).1 haborted
    exact hsignal
  · exact haccepted

variable [Sub Time] [Zero Time]

theorem Kept.step (h : Kept options q) {event : AdmissionEvent α Time}
    (hstep : AdmissionQueue.step options q event = some r) : Kept options r := by
  cases event with
  | enqueue clock request =>
    cases hstep
    exact h.enqueue clock request
  | take clock =>
    cases hstep
    cases clock with
    | none => exact h
    | some now =>
      obtain ⟨hconserved, hshrinks⟩ := take_conserved h.conserved now
      exact h.shrinks hconserved hshrinks
  | abort =>
    unfold AdmissionQueue.step at hstep
    dsimp only at hstep
    split at hstep
    · rename_i entry hentry
      split at hstep
      · rename_i hsignal
        cases hstep
        refine h.rejectEntry fun other hother => ?_
        rw [hentry] at hother
        cases hother
        exact .inr (.inl ⟨rfl, hsignal⟩)
      · cases hstep
    · cases hstep
  | expire now =>
    cases hstep
    cases now with
    | none => exact h
    | some now =>
      obtain ⟨gone, hexpired, -⟩ := h.conserved.expire now
      exact h.shrinks hexpired.conserved hexpired.shrinks
  | snapshot clock =>
    cases hstep
    cases clock with
    | none => exact h
    | some now =>
      obtain ⟨gone, hexpired, -⟩ := h.conserved.expire now
      have hdiscard := hexpired.discard.1
      exact h.shrinks hdiscard.conserved hdiscard.shrinks
  | close =>
    cases hstep
    obtain ⟨hconserved, hempty⟩ := close_conserved h.conserved h.closed
    exact ⟨hconserved, fun _ => hempty⟩

theorem kept_of_reachable
    (hreach : Run.Reachable (AdmissionQueue.step options) (fun _ _ => True) {} q) :
    Kept options q := by
  refine hreach.induct ⟨conserved_empty options, fun _ => rfl⟩ ?_
  intro before event after _ hbefore _ hstep
  exact hbefore.step hstep

/-- **Conservation and expiry.**  In every run, under any readings of the clock, the three
structures hold the queued entries and the counters are theirs, within the limits; a ticket has
settled once when its entry is no longer queued, and not at all before; closing the queue settles
every ticket; and `expire` rejects exactly the entries that are due, each with its own reason. -/
theorem queue_conserved
    (hreach : Run.Reachable (AdmissionQueue.step options) (fun _ _ => True) {} q) :
    Conserved options q ∧
      (∀ n < q.entries.length,
        (q.settlements.map Prod.fst).count n = if q.isActive n then 0 else 1) ∧
      (q.close options).active = [] ∧
      ∀ now, ∃ gone : List Nat,
        gone.Perm (q.active.filter fun n => q.isDue now n) ∧
        (q.expire options now).2 = gone.length ∧
        (q.expire options now).1.settlements =
          q.settlements ++ gone.map (fun n => (n, .rejected (q.expiresBy n))) ∧
        (q.expire options now).1.active = q.active.filter fun n => !q.isDue now n := by
  have hkept := kept_of_reachable hreach
  have hsettled := hkept.conserved.settled
  refine ⟨hkept.conserved, fun n hn => ?_, (close_conserved hkept.conserved hkept.closed).2,
    fun now => ?_⟩
  · split
    · rename_i hactive
      refine count_eq_zero_of_not_mem fun hmem => ?_
      rw [hsettled.settled, hactive] at hmem
      exact Bool.false_ne_true hmem.2.symm
    · rename_i hactive
      refine count_eq_one_of_mem hsettled.distinct ?_
      exact (hsettled.settled n).2 ⟨hn, by simpa using hactive⟩
  obtain ⟨gone, hexpired, hcount, hperm⟩ := hkept.conserved.expire now
  refine ⟨gone, hperm, hcount, hexpired.settlements, ?_⟩
  rw [active, active, hexpired.length, filter_filter]
  refine filter_congr fun n _ => ?_
  rw [hexpired.active]
  by_cases hactive : q.isActive n = true
  · have hiff : n ∈ gone ↔ _ := hperm.mem_iff
    rw [mem_filter, mem_active] at hiff
    simp [hactive, hiff]
  · simp [hactive]

end Steps

/-- Two keys, three places. -/
def fairOptions : AdmissionOptions Int where
  discipline := .roundRobin
  limits := { maxItems := 3, maxBytes := 10, maxAgeMs := 8 }
  resource := .reader

/-- Four requests, of which one is refused and one canceled; one is served, one expires. -/
def fairEvents : List (AdmissionEvent String Int) :=
  [.enqueue (some 0) { value := "first", bytes := 3, fairnessKey := some "a" },
    .enqueue (some 1)
      { value := "second", bytes := 3, fairnessKey := some "a", deadlineMs := some (some 4) },
    .enqueue (some 1)
      { value := "third", bytes := 1, fairnessKey := some "b", signal := some (false, false) },
    .enqueue (some 2) { value := "fourth", bytes := 1, fairnessKey := some "b" },
    .abort 2, .take (some 2), .take none, .expire (some 4),
    .enqueue (some 5) { value := "fifth", bytes := 10, fairnessKey := some "b" }]

theorem queue_conserved_fair : ∃ q,
    Run.run (step fairOptions) {} fairEvents = some q ∧
      (q.settlements.map Prod.fst = [2, 0, 1] ∧ q.active = [3]) ∧ Conserved fairOptions q ∧
      ∃ gone : List Nat, gone.Perm (q.active.filter fun n => q.isDue 13 n) ∧
        (q.expire fairOptions 13).2 = gone.length := by
  have hrun : (Run.run (step fairOptions) {} fairEvents).map
      (fun q => (q.settlements.map Prod.fst, q.active)) = some ([2, 0, 1], [3]) := by
    decide +kernel
  obtain ⟨q, hq, hfinal⟩ := Option.map_eq_some_iff.1 hrun
  obtain ⟨hconserved, -, -, hexpire⟩ := queue_conserved (Run.reachable_of_run hq)
  obtain ⟨gone, hperm, hcount, -⟩ := hexpire 13
  exact ⟨q, hq, Prod.mk.inj hfinal, hconserved, gone, hperm, hcount⟩

end AckerDB.AdmissionQueue
