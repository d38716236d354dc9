import Mathlib

/-!
# Doubly linked lists

Cells are named by handles; every cell has a predecessor and a successor, and the list knows its
first and its last cell.

* `Holds` — the cells form a list: its order, read along the links, is that of a `List`;
* `Holds.pushBack` — a loose cell is appended;
* `Holds.unlink` — a cell leaves the list, wherever it is.
-/

/-- The links between cells. -/
structure DoublyLinked (α : Type) where
  head : Option α
  tail : Option α
  prev : α → Option α
  next : α → Option α

namespace DoublyLinked

open Function List

variable {α : Type}

/-- No cell is linked. -/
def empty : DoublyLinked α where
  head := none
  tail := none
  prev := fun _ => none
  next := fun _ => none

/-- The links along a segment, between a predecessor and a successor. -/
def Segment (l : DoublyLinked α) (before : Option α) : List α → Option α → Prop
  | [], _ => True
  | a :: rest, after =>
    l.prev a = before ∧ l.next a = rest.head?.or after ∧ Segment l (some a) rest after

/-- **The list that the links spell out.** -/
structure Holds (l : DoublyLinked α) (cells : List α) : Prop where
  distinct : cells.Nodup
  head : l.head = cells.head?
  tail : l.tail = cells.getLast?
  segment : l.Segment none cells none
  /-- Every other cell is loose. -/
  loose : ∀ a, a ∉ cells → l.prev a = none ∧ l.next a = none

theorem holds_empty : Holds (empty : DoublyLinked α) [] :=
  ⟨nodup_nil, rfl, rfl, trivial, fun _ _ => ⟨rfl, rfl⟩⟩

theorem segment_append {l : DoublyLinked α} {before after : Option α} {xs ys : List α} :
    l.Segment before (xs ++ ys) after ↔
      l.Segment before xs (ys.head?.or after) ∧ l.Segment (xs.getLast?.or before) ys after := by
  induction xs generalizing before with
  | nil => simp [Segment]
  | cons a rest ih =>
    have hlast : ((a :: rest).getLast?.or before) = rest.getLast?.or (some a) := by
      cases rest with
      | nil => rfl
      | cons => simp [getLast?_cons]
    have hhead : (rest ++ ys).head?.or after = rest.head?.or (ys.head?.or after) := by
      cases rest <;> simp
    rw [cons_append, Segment, ih, hlast, hhead]
    constructor
    · rintro ⟨hprev, hnext, hrest, hys⟩
      exact ⟨⟨hprev, hnext, hrest⟩, hys⟩
    · rintro ⟨⟨hprev, hnext, hrest⟩, hys⟩
      exact ⟨hprev, hnext, hrest, hys⟩

/-- A segment only depends on the links of its own cells. -/
theorem Segment.congr {l m : DoublyLinked α} {before after : Option α} {cells : List α}
    (h : l.Segment before cells after)
    (hsame : ∀ a ∈ cells, m.prev a = l.prev a ∧ m.next a = l.next a) :
    m.Segment before cells after := by
  induction cells generalizing before with
  | nil => trivial
  | cons a rest ih =>
    obtain ⟨hprev, hnext, hrest⟩ := h
    obtain ⟨hsamePrev, hsameNext⟩ := hsame a mem_cons_self
    exact ⟨hsamePrev.trans hprev, hsameNext.trans hnext,
      ih hrest fun b hb => hsame b (mem_cons_of_mem a hb)⟩

section Operations

variable [DecidableEq α]

/-- Append a loose cell. -/
def pushBack (l : DoublyLinked α) (a : α) : DoublyLinked α :=
  match l.tail with
  | some last =>
    { l with
      next := update l.next last (some a)
      prev := update l.prev a (some last)
      tail := some a }
  | none => { l with head := some a, tail := some a }

/-- Take a cell out of the list. -/
def unlink (l : DoublyLinked α) (a : α) : DoublyLinked α :=
  let forward : DoublyLinked α :=
    match l.prev a with
    | some before => { l with next := update l.next before (l.next a) }
    | none => { l with head := l.next a }
  let backward : DoublyLinked α :=
    match l.next a with
    | some after => { forward with prev := update forward.prev after (l.prev a) }
    | none => { forward with tail := l.prev a }
  { backward with
    prev := update backward.prev a none
    next := update backward.next a none }

variable {l : DoublyLinked α} {cells : List α}

theorem Holds.pushBack (h : l.Holds cells) {a : α} (hloose : a ∉ cells) :
    (l.pushBack a).Holds (cells ++ [a]) := by
  obtain ⟨hprev, hnext⟩ := h.loose a hloose
  have hdistinct : (cells ++ [a]).Nodup := by
    refine Nodup.append h.distinct (nodup_singleton a) ?_
    exact disjoint_singleton.2 hloose
  rcases eq_nil_or_concat cells with rfl | ⟨front, last, rfl⟩
  · have htail := h.tail
    unfold DoublyLinked.pushBack
    rw [htail]
    refine ⟨hdistinct, rfl, rfl, ⟨hprev, hnext, trivial⟩, fun b _ => h.loose b (by simp)⟩
  have htail : l.tail = some last := by simpa using h.tail
  have hne : a ≠ last := by
    rintro rfl
    simp at hloose
  obtain ⟨hfront, hlast⟩ := segment_append.1 (by simpa using h.segment)
  unfold DoublyLinked.pushBack
  rw [htail]
  refine ⟨hdistinct, ?_, by simp, ?_, ?_⟩
  · rw [h.head]
    cases front <;> simp
  · have hsplit : front ++ [last] ++ [a] = front ++ [last, a] := by simp
    have hlastFront : last ∉ front := by
      have hdisjoint := (nodup_append.1 (by simpa using h.distinct)).2.2
      intro hmem
      exact hdisjoint last hmem last (by simp) rfl
    have haFront : a ∉ front := fun hmem => hloose (by simp [hmem])
    rw [concat_eq_append] at *
    rw [hsplit, segment_append]
    refine ⟨hfront.congr fun b hb => ⟨?_, ?_⟩, ?_, ?_, ?_, ?_, trivial⟩
    · exact update_of_ne (by rintro rfl; exact haFront hb) _ _
    · exact update_of_ne (by rintro rfl; exact hlastFront hb) _ _
    · show update l.prev a (some last) last = _
      rw [update_of_ne hne.symm]
      exact hlast.1
    · exact update_self _ _ _
    · exact update_self _ _ _
    · show update l.next last (some a) a = none
      rw [update_of_ne hne]
      exact hnext
  intro b hb
  simp only [concat_eq_append, mem_append, mem_singleton, not_or] at hb
  obtain ⟨⟨hbFront, hbLast⟩, hba⟩ := hb
  obtain ⟨hbPrev, hbNext⟩ := h.loose b (by simp [hbFront, hbLast])
  exact ⟨(update_of_ne hba _ _).trans hbPrev,
    (update_of_ne hbLast _ _).trans hbNext⟩

theorem unlink_next (l : DoublyLinked α) (a b : α) :
    (l.unlink a).next b =
      if b = a then none else if l.prev a = some b then l.next a else l.next b := by
  unfold unlink
  by_cases hb : b = a
  · subst hb
    simp
  cases hprev : l.prev a with
  | none => cases l.next a <;> simp [hb]
  | some before =>
    by_cases hbefore : before = b
    · subst hbefore
      cases l.next a <;> simp [hb]
    · have hne : b ≠ before := fun h => hbefore h.symm
      cases l.next a <;> simp [hb, hbefore, hne]

theorem unlink_prev (l : DoublyLinked α) (a b : α) :
    (l.unlink a).prev b =
      if b = a then none else if l.next a = some b then l.prev a else l.prev b := by
  unfold unlink
  by_cases hb : b = a
  · subst hb
    simp
  cases hnext : l.next a with
  | none => cases l.prev a <;> simp [hb]
  | some after =>
    by_cases hafter : after = b
    · subst hafter
      cases l.prev a <;> simp [hb]
    · have hne : b ≠ after := fun h => hafter h.symm
      cases l.prev a <;> simp [hb, hafter, hne]

theorem unlink_head (l : DoublyLinked α) (a : α) :
    (l.unlink a).head = if (l.prev a).isSome then l.head else l.next a := by
  unfold unlink
  cases l.prev a <;> cases l.next a <;> rfl

theorem unlink_tail (l : DoublyLinked α) (a : α) :
    (l.unlink a).tail = if (l.next a).isSome then l.tail else l.prev a := by
  unfold unlink
  cases l.prev a <;> cases l.next a <;> rfl

/-- The cells in front of the one that leaves. -/
theorem Segment.unlink_front {front : List α} {a : α} (h : l.Segment none front (some a))
    (hprev : l.prev a = front.getLast?) (hdistinct : front.Nodup) (ha : a ∉ front)
    (hback : ∀ b ∈ front, l.next a ≠ some b) :
    (l.unlink a).Segment none front (l.next a) := by
  rcases eq_nil_or_concat front with rfl | ⟨rest, last, rfl⟩
  · trivial
  rw [concat_eq_append] at *
  obtain ⟨hrest, hlast⟩ := segment_append.1 h
  have hlastRest : last ∉ rest := by
    have hdisjoint := (nodup_append.1 hdistinct).2.2
    exact fun hmem => hdisjoint last hmem last (by simp) rfl
  have hsame : ∀ b ∈ rest ++ [last], b ≠ a ∧ (l.unlink a).prev b = l.prev b := by
    intro b hb
    have hba : b ≠ a := fun heq => ha (heq ▸ hb)
    exact ⟨hba, by rw [unlink_prev, if_neg hba, if_neg (hback b hb)]⟩
  have hpred : l.prev a = some last := by simpa using hprev
  rw [segment_append]
  refine ⟨hrest.congr fun b hb => ?_, ?_, ?_, trivial⟩
  · obtain ⟨hba, hbPrev⟩ := hsame b (mem_append_left _ hb)
    refine ⟨hbPrev, ?_⟩
    rw [unlink_next, if_neg hba, if_neg]
    rw [hpred]
    rintro ⟨⟩
    exact hlastRest hb
  · obtain ⟨-, hlastPrev⟩ := hsame last (by simp)
    rw [hlastPrev]
    exact hlast.1
  · obtain ⟨hlastA, -⟩ := hsame last (by simp)
    rw [unlink_next, if_neg hlastA, if_pos hpred]
    rfl

/-- The cells behind the one that leaves. -/
theorem Segment.unlink_back {back : List α} {a : α} (h : l.Segment (some a) back none)
    (hnext : l.next a = back.head?) (hdistinct : back.Nodup) (ha : a ∉ back)
    (hfront : ∀ b ∈ back, l.prev a ≠ some b) :
    (l.unlink a).Segment (l.prev a) back none := by
  cases back with
  | nil => trivial
  | cons first rest =>
    rw [head?_cons] at hnext
    obtain ⟨-, hfirstNext, hrest⟩ := h
    have hsame : ∀ b ∈ first :: rest, b ≠ a ∧ (l.unlink a).next b = l.next b := by
      intro b hb
      have hba : b ≠ a := fun heq => ha (heq ▸ hb)
      exact ⟨hba, by rw [unlink_next, if_neg hba, if_neg (hfront b hb)]⟩
    obtain ⟨hfirstA, hfirstSame⟩ := hsame first mem_cons_self
    refine ⟨?_, hfirstSame.trans hfirstNext, hrest.congr fun b hb => ?_⟩
    · rw [unlink_prev, if_neg hfirstA, if_pos hnext]
    obtain ⟨hba, hbNext⟩ := hsame b (mem_cons_of_mem first hb)
    refine ⟨?_, hbNext⟩
    rw [unlink_prev, if_neg hba, if_neg]
    rw [hnext]
    rintro ⟨⟩
    exact (nodup_cons.1 hdistinct).1 hb

/-- **A cell leaves the list.** -/
theorem Holds.unlink {front back : List α} {a : α} (h : l.Holds (front ++ a :: back)) :
    (l.unlink a).Holds (front ++ back) := by
  obtain ⟨hfront, hprev, hnext, hback⟩ := segment_append.1 h.segment
  simp only [head?_cons, Option.or_none] at hfront hprev hnext
  obtain ⟨hfrontNodup, hbackNodup, hdisjoint⟩ := nodup_append.1 h.distinct
  obtain ⟨haBack, hbackNodup⟩ := nodup_cons.1 hbackNodup
  have haFront : a ∉ front := fun hmem => hdisjoint a hmem a mem_cons_self rfl
  have hnextFront : ∀ b ∈ front, l.next a ≠ some b := by
    intro b hb heq
    rw [hnext] at heq
    exact hdisjoint b hb b (mem_cons_of_mem a (mem_of_mem_head? heq)) rfl
  have hprevBack : ∀ b ∈ back, l.prev a ≠ some b := by
    intro b hb heq
    rw [hprev] at heq
    exact hdisjoint b (mem_of_mem_getLast? heq) b (mem_cons_of_mem a hb) rfl
  refine ⟨?_, ?_, ?_, ?_, ?_⟩
  · refine Nodup.append hfrontNodup hbackNodup fun b hb hb' => ?_
    exact hdisjoint b hb b (mem_cons_of_mem a hb') rfl
  · rw [unlink_head, hprev, hnext, h.head]
    cases front <;> simp [getLast?_cons]
  · rw [unlink_tail, hprev, hnext, h.tail]
    cases back <;> simp [getLast?_cons, getLast?_append]
  · rw [segment_append, Option.or_none, Option.or_none, ← hnext, ← hprev]
    exact ⟨hfront.unlink_front hprev hfrontNodup haFront hnextFront,
      hback.unlink_back hnext hbackNodup haBack hprevBack⟩
  · intro b hb
    rw [mem_append, not_or] at hb
    by_cases hba : b = a
    · rw [unlink_prev, unlink_next, if_pos hba, if_pos hba]
      exact ⟨rfl, rfl⟩
    obtain ⟨hbPrev, hbNext⟩ := h.loose b (by simp [hb.1, hb.2, hba])
    rw [unlink_prev, unlink_next, if_neg hba, if_neg hba, if_neg, if_neg]
    · exact ⟨hbPrev, hbNext⟩
    · rw [hprev]
      exact fun heq => hb.1 (mem_of_mem_getLast? heq)
    · rw [hnext]
      exact fun heq => hb.2 (mem_of_mem_head? heq)

theorem Holds.unlink_filter {a : α} (h : l.Holds cells) (ha : a ∈ cells) :
    (l.unlink a).Holds (cells.filter fun b => b ≠ a) := by
  obtain ⟨front, back, rfl⟩ := append_of_mem ha
  obtain ⟨-, hback, hdisjoint⟩ := nodup_append.1 h.distinct
  have hfront : ∀ b ∈ front, b ≠ a := fun b hb => hdisjoint b hb a mem_cons_self
  have hbehind : ∀ b ∈ back, b ≠ a := fun b hb heq => (nodup_cons.1 hback).1 (heq ▸ hb)
  have hsame : (front ++ a :: back).filter (fun b => b ≠ a) = front ++ back := by
    rw [filter_append, filter_cons_of_neg (by simp),
      filter_eq_self.2 (by simpa using hfront), filter_eq_self.2 (by simpa using hbehind)]
  rw [hsame]
  exact h.unlink

omit [DecidableEq α] in
/-- No cell is left when the list has no head. -/
theorem Holds.head_isNone (h : l.Holds cells) : l.head.isNone = true ↔ cells = [] := by
  rw [h.head, Option.isNone_iff_eq_none, head?_eq_none_iff]

end Operations

end DoublyLinked
