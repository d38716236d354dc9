import Mathlib

/-!
# Binary heaps

An array whose cell `i` has the children `2 * i + 1` and `2 * i + 2`; no cell has a greater key
than its children.  An item is added behind the last cell and moves up; the last item replaces
the first one that was taken, and moves down.

* `Ordered.first_le` — the first item is a least one;
* `push_ordered`, `push_perm` — what adding an item keeps;
* `pop_ordered`, `pop_perm` — what taking the first item keeps.
-/

namespace BinaryHeap

variable {α β : Type} [LinearOrder β] (key : α → β)

/-- The parent of a cell. -/
def parent (i : Nat) : Nat := (i - 1) / 2

/-- The item of one cell is strictly less than that of another. -/
def before (heap : Array α) (i j : Nat) : Bool :=
  match heap[i]?, heap[j]? with
  | some a, some b => decide (key a < key b)
  | _, _ => false

/-- Move the item of a cell up, as long as it is less than that of the parent. -/
def siftUp : Nat → Array α → Nat → Array α
  | 0, heap, _ => heap
  | fuel + 1, heap, i =>
    if 0 < i ∧ before key heap i (parent i) then
      siftUp fuel (heap.swapIfInBounds i (parent i)) (parent i)
    else heap

/-- The least of a cell and its children, as the loop of `siftDown` finds it. -/
def earliest (heap : Array α) (i : Nat) : Nat :=
  let left := if before key heap (2 * i + 1) i then 2 * i + 1 else i
  if before key heap (2 * i + 2) left then 2 * i + 2 else left

/-- Move the item of a cell down, as long as a child has a lesser one. -/
def siftDown : Nat → Array α → Nat → Array α
  | 0, heap, _ => heap
  | fuel + 1, heap, i =>
    let child := earliest key heap i
    if child = i then heap else siftDown fuel (heap.swapIfInBounds i child) child

/-- Add an item. -/
def push (heap : Array α) (a : α) : Array α := siftUp key heap.size (heap.push a) heap.size

/-- Take the first item. -/
def pop [DecidableEq α] (heap : Array α) : Option α × Array α :=
  match heap[0]?, heap.back? with
  | some first, some last =>
    if first = last then (some first, heap.pop)
    else (some first, siftDown key heap.size (heap.pop.setIfInBounds 0 last) 0)
  | first, _ => (first, heap.pop)

/-! ## Order -/

/-- The item of a cell is at most that of another, where both exist. -/
def Below (heap : Array α) (i j : Nat) : Prop :=
  ∀ a ∈ heap[i]?, ∀ b ∈ heap[j]?, key a ≤ key b

/-- No item is less than that of the parent cell. -/
def Ordered (heap : Array α) : Prop := ∀ j, 0 < j → Below key heap (parent j) j

theorem parent_lt {j : Nat} (h : 0 < j) : parent j < j := by
  unfold parent
  omega

theorem parent_eq_iff {i j : Nat} (h : 0 < j) : parent j = i ↔ j = 2 * i + 1 ∨ j = 2 * i + 2 := by
  unfold parent
  omega

variable {key} {heap : Array α}

theorem Below.refl (heap : Array α) (i : Nat) : Below key heap i i := by
  intro a ha b hb
  rw [Option.mem_unique ha hb]

/-- Cells between which another one stands are in order. -/
theorem Below.trans {i j k : Nat} (hij : Below key heap i j) (hjk : Below key heap j k)
    (hj : j < heap.size) : Below key heap i k := by
  intro a ha c hc
  have hb : heap[j] ∈ heap[j]? := by simp [hj]
  exact (hij a ha _ hb).trans (hjk _ hb c hc)

theorem below_of_before {i j : Nat} (h : before key heap i j = true) :
    Below key heap i j ∧ i < heap.size ∧ j < heap.size := by
  unfold before at h
  split at h
  · rename_i a b ha hb
    refine ⟨?_, (Array.getElem?_eq_some_iff.1 ha).1, (Array.getElem?_eq_some_iff.1 hb).1⟩
    intro a' ha' b' hb'
    rw [ha] at ha'
    rw [hb] at hb'
    cases ha'
    cases hb'
    exact (of_decide_eq_true h).le
  · cases h

theorem below_of_not_before {i j : Nat} (h : ¬ before key heap i j = true) :
    Below key heap j i := by
  intro b hb a ha
  unfold before at h
  rw [ha, hb] at h
  exact le_of_not_gt (by simpa using h)

theorem below_of_size_le {i j : Nat} (h : heap.size ≤ j) : Below key heap i j := by
  intro a _ b hb
  rw [Array.getElem?_eq_none h] at hb
  cases hb

/-- **The first item is a least one.** -/
theorem Ordered.first_le (h : Ordered key heap) (i : Nat) : Below key heap 0 i := by
  induction i using Nat.strong_induction_on with
  | _ i ih =>
    rcases Nat.eq_zero_or_pos i with rfl | hpos
    · exact .refl heap 0
    rcases Nat.lt_or_ge i heap.size with hlt | hge
    · have hparent := parent_lt hpos
      exact (ih (parent i) hparent).trans (h i hpos) (by omega)
    · exact below_of_size_le hge

/-! ## Swaps -/

theorem swapIfInBounds_eq {i j : Nat} (hi : i < heap.size) (hj : j < heap.size) :
    heap.swapIfInBounds i j = heap.swap i j := by
  simp [Array.swapIfInBounds, hi, hj]

theorem getElem?_swapIfInBounds {i j : Nat} (hi : i < heap.size) (hj : j < heap.size) (k : Nat) :
    (heap.swapIfInBounds i j)[k]? =
      if k = i then heap[j]? else if k = j then heap[i]? else heap[k]? := by
  rw [swapIfInBounds_eq hi hj, Array.getElem?_swap]
  by_cases hki : k = i
  · grind
  by_cases hkj : k = j
  · subst hkj
    simp [hki, hi]
  · grind

theorem swapIfInBounds_perm (heap : Array α) (i j : Nat) :
    (heap.swapIfInBounds i j).toList.Perm heap.toList := by
  unfold Array.swapIfInBounds
  split
  · split
    · exact (Array.swap_perm _ _).toList
    · exact .refl _
  · exact .refl _

/-- The order of cells after a swap. -/
theorem below_swap {i j k l : Nat} (hi : i < heap.size) (hj : j < heap.size)
    (h : Below key heap (if k = i then j else if k = j then i else k)
      (if l = i then j else if l = j then i else l)) :
    Below key (heap.swapIfInBounds i j) k l := by
  have hcell : ∀ m, (heap.swapIfInBounds i j)[m]? =
      heap[if m = i then j else if m = j then i else m]? := by
    intro m
    rw [getElem?_swapIfInBounds hi hj]
    split
    · rfl
    · split <;> rfl
  intro a ha b hb
  rw [hcell] at ha hb
  exact h a ha b hb

/-! ## Moving up -/

/-- Only the item of the cell may be less than that of its parent; its children are in order
with the parent. -/
structure Rising (key : α → β) (heap : Array α) (i : Nat) : Prop where
  others : ∀ j, 0 < j → j ≠ i → Below key heap (parent j) j
  children : ∀ j, 0 < j → parent j = i → 0 < i → Below key heap (parent i) j

theorem Rising.swap {i : Nat} (h : Rising key heap i) (hpos : 0 < i)
    (hbefore : before key heap i (parent i) = true) :
    Rising key (heap.swapIfInBounds i (parent i)) (parent i) := by
  obtain ⟨hless, hi, hp⟩ := below_of_before hbefore
  have hlt := parent_lt hpos
  constructor
  · intro j hj hne
    apply below_swap hi hp
    by_cases hji : j = i
    · -- the item that moved up is above the one it passed
      subst hji
      rw [if_neg (by omega), if_pos rfl, if_pos rfl]
      exact hless
    rw [if_neg hji, if_neg hne]
    by_cases hchild : parent j = i
    · rw [if_pos hchild]
      exact h.children j hj hchild hpos
    rw [if_neg hchild]
    by_cases hsibling : parent j = parent i
    · rw [if_pos hsibling]
      refine hless.trans ?_ hp
      rw [← hsibling]
      exact h.others j hj hji
    · rw [if_neg hsibling]
      exact h.others j hj hji
  intro j hj hchild hposParent
  have hgrand := parent_lt hposParent
  have hjlt := parent_lt hj
  have habove : Below key heap (parent (parent i)) (parent i) :=
    h.others (parent i) hposParent (by omega)
  apply below_swap hi hp
  rw [if_neg (by omega), if_neg (by omega)]
  by_cases hji : j = i
  · rw [if_pos hji]
    exact habove
  rw [if_neg hji, if_neg (by omega)]
  refine habove.trans ?_ hp
  rw [← hchild]
  exact h.others j hj hji

theorem siftUp_ordered {fuel i : Nat} (h : Rising key heap i) (hfuel : i ≤ fuel) :
    Ordered key (siftUp key fuel heap i) := by
  induction fuel generalizing heap i with
  | zero =>
    intro j hj
    exact h.others j hj (by omega)
  | succ fuel ih =>
    rw [siftUp]
    split
    · rename_i hcond
      have hlt := parent_lt hcond.1
      exact ih (h.swap hcond.1 hcond.2) (by omega)
    rename_i hcond
    intro j hj
    by_cases hji : j = i
    · subst hji
      exact below_of_not_before fun hbefore => hcond ⟨hj, hbefore⟩
    · exact h.others j hj hji

theorem siftUp_perm (fuel : Nat) (heap : Array α) (i : Nat) :
    (siftUp key fuel heap i).toList.Perm heap.toList := by
  induction fuel generalizing heap i with
  | zero => exact .refl _
  | succ fuel ih =>
    rw [siftUp]
    split
    · exact (ih _ _).trans (swapIfInBounds_perm heap i (parent i))
    · exact .refl _

/-- **Adding an item** keeps the order. -/
theorem push_ordered (h : Ordered key heap) (a : α) : Ordered key (push key heap a) := by
  refine siftUp_ordered ⟨?_, ?_⟩ le_rfl
  · intro j hj hne x hx y hy
    have hjlt := parent_lt hj
    rw [Array.getElem?_push, if_neg hne] at hy
    have hbound := (Array.getElem?_eq_some_iff.1 hy).1
    rw [Array.getElem?_push, if_neg (by omega)] at hx
    exact h j hj x hx y hy
  · intro j hj hchild _
    have hjlt := parent_lt hj
    exact below_of_size_le (by rw [Array.size_push]; omega)

theorem push_perm (key : α → β) (heap : Array α) (a : α) :
    (push key heap a).toList.Perm (a :: heap.toList) := by
  refine (siftUp_perm _ _ _).trans ?_
  rw [Array.toList_push]
  exact List.perm_append_singleton a heap.toList

/-! ## Moving down -/

/-- Only the children of the cell may have lesser items; they are in order with its parent. -/
structure Sinking (key : α → β) (heap : Array α) (i : Nat) : Prop where
  others : ∀ j, 0 < j → parent j ≠ i → Below key heap (parent j) j
  children : ∀ j, 0 < j → parent j = i → 0 < i → Below key heap (parent i) j

/-- The least of a cell and its children is the cell, or a child that is less than it. -/
theorem earliest_spec (key : α → β) (heap : Array α) (i : Nat) :
    (∀ j, 0 < j → parent j = i → Below key heap (earliest key heap i) j) ∧
      (earliest key heap i = i ∨
        (earliest key heap i = 2 * i + 1 ∨ earliest key heap i = 2 * i + 2) ∧
          Below key heap (earliest key heap i) i ∧ earliest key heap i < heap.size ∧
          i < heap.size) := by
  have hleft : ∀ c, (c = if before key heap (2 * i + 1) i then 2 * i + 1 else i) →
      Below key heap c (2 * i + 1) ∧ (c = i ∨ c = 2 * i + 1 ∧ Below key heap c i ∧
        c < heap.size ∧ i < heap.size) := by
    intro c hc
    split at hc
    · rename_i hbefore
      subst hc
      obtain ⟨hbelow, hchild, hi⟩ := below_of_before hbefore
      exact ⟨.refl _ _, .inr ⟨rfl, hbelow, hchild, hi⟩⟩
    · rename_i hbefore
      subst hc
      exact ⟨below_of_not_before hbefore, .inl rfl⟩
  unfold earliest
  dsimp only
  generalize hc : (if before key heap (2 * i + 1) i then 2 * i + 1 else i) = c
  obtain ⟨hbelowLeft, hcases⟩ := hleft c hc.symm
  split
  · rename_i hbefore
    obtain ⟨hbelow, hright, hcSize⟩ := below_of_before hbefore
    refine ⟨?_, .inr ⟨.inr rfl, ?_, hright, ?_⟩⟩
    · intro j hj hchild
      rcases (parent_eq_iff hj).1 hchild with rfl | rfl
      · exact hbelow.trans hbelowLeft hcSize
      · exact .refl _ _
    · rcases hcases with rfl | ⟨-, hbelowI, -, -⟩
      · exact hbelow
      · exact hbelow.trans hbelowI hcSize
    · rcases hcases with rfl | ⟨-, -, -, hi⟩
      · exact hcSize
      · exact hi
  rename_i hbefore
  refine ⟨?_, ?_⟩
  · intro j hj hchild
    rcases (parent_eq_iff hj).1 hchild with rfl | rfl
    · exact hbelowLeft
    · exact below_of_not_before hbefore
  · rcases hcases with rfl | ⟨rfl, hrest⟩
    · exact .inl rfl
    · exact .inr ⟨.inl rfl, hrest⟩

theorem Sinking.swap {i child : Nat} (h : Sinking key heap i)
    (hchild : child = 2 * i + 1 ∨ child = 2 * i + 2) (hless : Below key heap child i)
    (hsize : child < heap.size) (hi : i < heap.size)
    (hleast : ∀ j, 0 < j → parent j = i → Below key heap child j) :
    Sinking key (heap.swapIfInBounds i child) child := by
  have hpos : 0 < child := by omega
  have hparent := (parent_eq_iff hpos).2 hchild
  constructor
  · intro j hj hne
    have hjlt := parent_lt hj
    apply below_swap hi hsize
    by_cases hji : j = i
    · -- the child that moved up is in order with the parent of the cell
      subst hji
      rw [if_pos rfl, if_neg (by omega), if_neg hne]
      exact h.children child hpos hparent hj
    rw [if_neg hji]
    by_cases hjc : j = child
    · rw [if_pos hjc, hjc, if_pos hparent]
      exact hless
    rw [if_neg hjc]
    by_cases hsibling : parent j = i
    · rw [if_pos hsibling]
      exact hleast j hj hsibling
    · rw [if_neg hsibling, if_neg hne]
      exact h.others j hj hsibling
  intro j hj hgrand _
  have hjlt := parent_lt hj
  apply below_swap hi hsize
  rw [if_pos hparent, if_neg (by omega), if_neg (by omega), ← hgrand]
  exact h.others j hj (by omega)

theorem siftDown_ordered {fuel i : Nat} (h : Sinking key heap i) (hfuel : heap.size ≤ fuel + i) :
    Ordered key (siftDown key fuel heap i) := by
  induction fuel generalizing heap i with
  | zero =>
    rw [siftDown]
    intro j hj
    have hjlt := parent_lt hj
    by_cases hchild : parent j = i
    · exact below_of_size_le (by omega)
    · exact h.others j hj hchild
  | succ fuel ih =>
    obtain ⟨hleast, hcases⟩ := earliest_spec key heap i
    rw [siftDown]
    split
    · rename_i hstop
      rw [hstop] at hleast
      intro j hj
      by_cases hchild : parent j = i
      · rw [hchild]
        exact hleast j hj hchild
      · exact h.others j hj hchild
    rename_i hmove
    obtain ⟨hchild, hless, hsize, hi⟩ := hcases.resolve_left hmove
    refine ih (h.swap hchild hless hsize hi hleast) ?_
    rw [Array.size_swapIfInBounds]
    omega

theorem siftDown_perm (fuel : Nat) (heap : Array α) (i : Nat) :
    (siftDown key fuel heap i).toList.Perm heap.toList := by
  induction fuel generalizing heap i with
  | zero => exact .refl _
  | succ fuel ih =>
    rw [siftDown]
    split
    · exact .refl _
    · exact (ih _ _).trans (swapIfInBounds_perm heap i _)

variable [DecidableEq α]

/-- The cells of a heap that is not empty. -/
theorem pop_cases (key : α → β) {first : α} (hfirst : heap[0]? = some first)
    (hdistinct : heap.toList.Nodup) :
    (heap.toList = [first] ∧ pop key heap = (some first, #[])) ∨
      ∃ middle last, heap.toList = first :: middle ++ [last] ∧
        pop key heap = (some first, siftDown key heap.size (last :: middle).toArray 0) := by
  rcases List.eq_nil_or_concat heap.toList with hnil | ⟨front, last, hsplit⟩
  · simp [← Array.getElem?_toList, hnil] at hfirst
  rw [List.concat_eq_append] at hsplit
  have hheap : heap = (front ++ [last]).toArray := by rw [← hsplit]
  subst hheap
  cases front with
  | nil =>
    obtain rfl : last = first := by simpa using hfirst
    exact .inl ⟨rfl, by simp [pop]⟩
  | cons a middle =>
    obtain rfl : a = first := by simpa using hfirst
    have hne : a ≠ last := by
      rintro rfl
      simp at hdistinct
    have hback : (a :: (middle ++ [last])).getLast? = some last := by
      rw [← List.cons_append, List.getLast?_append]
      rfl
    have hrest : (a :: (middle ++ [last])).dropLast = a :: middle := by
      rw [← List.cons_append, List.dropLast_concat]
    refine .inr ⟨middle, last, rfl, ?_⟩
    simp [pop, hback, hrest, hne]

/-- **Taking the first item** leaves the others. -/
theorem pop_perm (key : α → β) {first : α} (hfirst : heap[0]? = some first)
    (hdistinct : heap.toList.Nodup) :
    (pop key heap).1 = some first ∧ heap.toList.Perm (first :: (pop key heap).2.toList) := by
  rcases pop_cases key hfirst hdistinct with ⟨hsingle, hpop⟩ | ⟨middle, last, hsplit, hpop⟩
  · rw [hpop, hsingle]
    exact ⟨rfl, .refl _⟩
  rw [hpop, hsplit]
  refine ⟨rfl, ?_⟩
  exact ((List.perm_append_singleton last middle).trans (siftDown_perm _ _ _).symm).cons first

theorem pop_ordered {first : α} (h : Ordered key heap) (hfirst : heap[0]? = some first)
    (hdistinct : heap.toList.Nodup) : Ordered key (pop key heap).2 := by
  rcases pop_cases key hfirst hdistinct with ⟨-, hpop⟩ | ⟨middle, last, hsplit, hpop⟩
  · rw [hpop]
    intro j hj
    exact below_of_size_le (by simp)
  rw [hpop]
  have hheap : heap = (first :: middle ++ [last]).toArray := by rw [← hsplit]
  refine siftDown_ordered ⟨?_, fun j _ _ hpos => absurd hpos (lt_irrefl 0)⟩ (by simp [hheap])
  -- the cells but the first are those of the heap
  have hcell : ∀ j, 0 < j → ∀ a ∈ (last :: middle).toArray[j]?, a ∈ heap[j]? := by
    intro j hj a ha
    obtain ⟨k, rfl⟩ := Nat.exists_eq_succ_of_ne_zero (Nat.pos_iff_ne_zero.1 hj)
    rw [hheap]
    simp only [Option.mem_def, List.getElem?_toArray, List.getElem?_cons_succ,
      List.cons_append] at ha ⊢
    rw [List.getElem?_append_left (List.getElem?_eq_some_iff.1 ha).1]
    exact ha
  intro j hj hne a ha b hb
  exact h j hj a (hcell _ (Nat.pos_of_ne_zero hne) a ha) b (hcell j hj b hb)

end BinaryHeap
