import Mathlib

/-!
# Tables with numbered rows

A table gives every row the next number, and never gives a number twice.

* `insert`, `patch`, `delete` — with the rows they leave;
* `RowTable.Valid` — distinct numbers, all below the next one, kept by the three of them.
-/

/-- Rows, and the next number. -/
structure RowTable (Row : Type) where
  rows : List Row := []
  next : Nat := 1

namespace RowTable

variable {Row : Type} (idOf : Row → Nat)

section

variable (t : RowTable Row)

/-- The row of a number. -/
def byId (id : Nat) : Option Row := t.rows.find? fun row => idOf row = id

/-- Add the row that is made of the next number. -/
def insert (make : Nat → Row) : RowTable Row where
  rows := t.rows ++ [make t.next]
  next := t.next + 1

/-- Change the row of a number. -/
def patch (id : Nat) (change : Row → Row) : RowTable Row :=
  { t with rows := t.rows.map fun row => if idOf row = id then change row else row }

/-- Drop the rows that satisfy a condition. -/
def deleteWhere (p : Row → Bool) : RowTable Row :=
  { t with rows := t.rows.filter fun row => !p row }

/-- Drop the row of a number. -/
def delete (id : Nat) : RowTable Row := t.deleteWhere fun row => idOf row = id

/-- **The numbers of the rows are distinct, and the next one is new.** -/
structure Valid : Prop where
  distinct : ∀ row ∈ t.rows, ∀ other ∈ t.rows, idOf row = idOf other → row = other
  below : ∀ row ∈ t.rows, idOf row < t.next

end

variable {idOf} {t : RowTable Row} {id : Nat} {row : Row}

theorem mem_of_byId (h : t.byId idOf id = some row) : row ∈ t.rows ∧ idOf row = id :=
  ⟨List.mem_of_find?_eq_some h, by simpa using List.find?_some h⟩

theorem byId_eq_none (h : t.byId idOf id = none) : ∀ row ∈ t.rows, idOf row ≠ id := by
  intro row hrow hid
  have hnone := List.find?_eq_none.1 h row hrow
  exact hnone (decide_eq_true hid)

theorem Valid.byId_eq (h : t.Valid idOf) (hrow : row ∈ t.rows) : t.byId idOf (idOf row) = some row := by
  cases hfound : t.byId idOf (idOf row) with
  | none => exact absurd rfl (byId_eq_none hfound row hrow)
  | some other =>
    obtain ⟨hother, hid⟩ := mem_of_byId hfound
    rw [h.distinct other hother row hrow hid]

variable {make : Nat → Row}

theorem mem_insert :
    row ∈ (t.insert make).rows ↔ row ∈ t.rows ∨ row = make t.next := by
  simp [insert]

variable {change : Row → Row}

theorem mem_patch : row ∈ (t.patch idOf id change).rows ↔
    ∃ old ∈ t.rows, row = if idOf old = id then change old else old := by
  simp [patch, eq_comm]

variable {p : Row → Bool}

theorem mem_deleteWhere :
    row ∈ (t.deleteWhere p).rows ↔ row ∈ t.rows ∧ p row = false := by
  simp [deleteWhere]

theorem mem_delete : row ∈ (t.delete idOf id).rows ↔ row ∈ t.rows ∧ idOf row ≠ id := by
  simp [delete, mem_deleteWhere]

theorem Valid.insert (h : t.Valid idOf) (hmake : ∀ n, idOf (make n) = n) :
    (t.insert make).Valid idOf := by
  refine ⟨fun row hrow other hother hid => ?_, fun row hrow => ?_⟩
  · rcases mem_insert.1 hrow with hrow | rfl
    · rcases mem_insert.1 hother with hother | rfl
      · exact h.distinct row hrow other hother hid
      · rw [hmake] at hid
        exact absurd hid (Nat.ne_of_lt (h.below row hrow))
    rcases mem_insert.1 hother with hother | rfl
    · rw [hmake] at hid
      exact absurd hid.symm (Nat.ne_of_lt (h.below other hother))
    · rfl
  rcases mem_insert.1 hrow with hrow | rfl
  · exact Nat.lt_succ_of_lt (h.below row hrow)
  · rw [hmake]
    exact Nat.lt_succ_self _

theorem Valid.patch (h : t.Valid idOf) (hkeep : ∀ old, idOf (change old) = idOf old) :
    (t.patch idOf id change).Valid idOf := by
  have hsame : ∀ old, idOf (if idOf old = id then change old else old) = idOf old := by
    intro old
    split
    · exact hkeep old
    · rfl
  refine ⟨fun row hrow other hother hid => ?_, fun row hrow => ?_⟩
  · obtain ⟨old, hold, rfl⟩ := mem_patch.1 hrow
    obtain ⟨before, hbefore, rfl⟩ := mem_patch.1 hother
    rw [hsame, hsame] at hid
    rw [h.distinct old hold before hbefore hid]
  · obtain ⟨old, hold, rfl⟩ := mem_patch.1 hrow
    rw [hsame]
    exact h.below old hold

theorem Valid.deleteWhere (h : t.Valid idOf) : (t.deleteWhere p).Valid idOf :=
  ⟨fun row hrow other hother => h.distinct row (mem_deleteWhere.1 hrow).1 other
      (mem_deleteWhere.1 hother).1,
    fun row hrow => h.below row (mem_deleteWhere.1 hrow).1⟩

/-! ## The numbers as a list -/

theorem map_patch (hkeep : ∀ old, idOf (change old) = idOf old) :
    (t.patch idOf id change).rows.map idOf = t.rows.map idOf := by
  simp only [patch, List.map_map]
  apply List.map_congr_left
  intro old _
  simp only [Function.comp_apply]
  split
  · exact hkeep old
  · rfl

theorem Valid.nodup_insert (h : t.Valid idOf) (hmake : ∀ n, idOf (make n) = n)
    (hnodup : (t.rows.map idOf).Nodup) : ((t.insert make).rows.map idOf).Nodup := by
  simp only [RowTable.insert, List.map_append, List.map_cons, List.map_nil, hmake]
  refine List.Nodup.append hnodup (List.nodup_singleton _) ?_
  intro number hmem hnext
  obtain ⟨old, hold, rfl⟩ := List.mem_map.1 hmem
  exact absurd (List.mem_singleton.1 hnext) (Nat.ne_of_lt (h.below old hold))

theorem nodup_deleteWhere (hnodup : (t.rows.map idOf).Nodup) :
    ((t.deleteWhere p).rows.map idOf).Nodup :=
  hnodup.sublist (List.filter_sublist.map idOf)

end RowTable
