import Mathlib

/-!
# Maps in insertion order

A map is the list of its bindings, in the order in which their keys came in.  Setting a key
that is there keeps its place; a new one goes to the end.

* `set`, `delete` — with the bindings they leave;
* `mem_iff_lookup` — with distinct keys, a binding is what its key looks up.
-/

namespace InsertionMap

open List

variable {κ ν : Type} [DecidableEq κ] {m : List (κ × ν)} {key : κ} {value : ν}

/-- Bind a key. -/
def set (m : List (κ × ν)) (key : κ) (value : ν) : List (κ × ν) :=
  if key ∈ m.map Prod.fst then m.map fun found => if found.1 = key then (key, value) else found
  else m ++ [(key, value)]

/-- Drop a key. -/
def delete (m : List (κ × ν)) (key : κ) : List (κ × ν) := m.filter fun found => found.1 ≠ key

theorem mem_set {p : κ × ν} : p ∈ set m key value ↔ p = (key, value) ∨ p ∈ m ∧ p.1 ≠ key := by
  unfold set
  split
  case isTrue hfound =>
    rw [mem_map]
    constructor
    · rintro ⟨found, hmem, rfl⟩
      split
      · exact .inl rfl
      · rename_i hne
        exact .inr ⟨hmem, hne⟩
    rintro (rfl | ⟨hmem, hne⟩)
    · obtain ⟨found, hmem, hkey⟩ := mem_map.1 hfound
      exact ⟨found, hmem, if_pos hkey⟩
    · exact ⟨p, hmem, if_neg hne⟩
  case isFalse hfound =>
    rw [mem_append, mem_singleton, or_comm]
    refine or_congr_right ⟨fun hmem => ⟨hmem, ?_⟩, And.left⟩
    rintro rfl
    exact hfound (mem_map_of_mem hmem)

theorem mem_delete {p : κ × ν} : p ∈ delete m key ↔ p ∈ m ∧ p.1 ≠ key := by
  rw [delete, mem_filter, decide_eq_true_iff]

theorem keys_set : (set m key value).map Prod.fst =
    if key ∈ m.map Prod.fst then m.map Prod.fst else m.map Prod.fst ++ [key] := by
  unfold set
  split
  · have hsame : ∀ found : κ × ν, (if found.1 = key then (key, value) else found).1 = found.1 := by
      intro found
      split
      · rename_i hkey
        exact hkey.symm
      · rfl
    simp only [map_map, Function.comp_def, hsame]
  · rw [map_append, map_singleton]

theorem keys_delete (m : List (κ × ν)) (key : κ) :
    (delete m key).map Prod.fst = (m.map Prod.fst).filter (· ≠ key) := by
  rw [filter_map]
  rfl

section

variable (h : (m.map Prod.fst).Nodup)
include h

theorem nodup_set : ((set m key value).map Prod.fst).Nodup := by
  rw [keys_set]
  split
  · exact h
  · rename_i hfound
    exact Nodup.append h (nodup_singleton key) (disjoint_singleton.2 hfound)

theorem nodup_delete : ((delete m key).map Prod.fst).Nodup :=
  h.sublist (filter_sublist.map Prod.fst)

/-- A key that is dropped and bound again is the last one. -/
theorem nodup_delete_append :
    ((delete m key ++ [(key, value)]).map Prod.fst).Nodup := by
  rw [map_append]
  refine Nodup.append (nodup_delete h) (nodup_singleton key) ?_
  refine disjoint_singleton.2 fun hmem => ?_
  obtain ⟨found, hfound, hkey⟩ := mem_map.1 hmem
  exact (mem_delete.1 hfound).2 hkey

/-- **With distinct keys, a binding is what its key looks up.** -/
theorem mem_iff_lookup :
    (key, value) ∈ m ↔ m.lookup key = some value := by
  induction m with
  | nil => simp
  | cons found rest ih =>
    obtain ⟨hhead, hrest⟩ := nodup_cons.1 h
    rw [mem_cons, ih hrest, lookup_cons]
    by_cases hkey : key = found.1
    · subst hkey
      have hnone : rest.lookup found.1 = none := by
        rw [lookup_eq_none_iff]
        intro p hp
        have hne : found.1 ≠ p.1 := fun heq => hhead (heq ▸ mem_map_of_mem hp)
        simpa using hne
      simp [hnone, Prod.ext_iff, eq_comm]
    · have hbeq : (key == found.1) = false := by simpa using hkey
      have hne : (key, value) ≠ found := fun heq => hkey (congrArg Prod.fst heq)
      simp [hbeq, hne]

end

theorem lookup_eq_none : m.lookup key = none ↔ key ∉ m.map Prod.fst := by
  rw [lookup_eq_none_iff, mem_map]
  constructor
  · rintro h ⟨p, hp, rfl⟩
    simpa using h p hp
  · intro h p hp
    have hne : key ≠ p.1 := fun heq => h ⟨p, hp, heq.symm⟩
    simpa using hne

end InsertionMap
