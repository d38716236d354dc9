import Mathlib.Algebra.BigOperators.Intervals
import Mathlib.Data.List.Count

/-!
# Registries and totals

Two kinds of bookkeeping.  A *total* adds up a weight over the rows of a table that only
grows at its end.  A *registry* holds handles in two indexes: by key, and by the group they
are members of.

* `total` — with what it becomes when a row changes or is added;
* `Registry.Linked` — the two indexes hold the same handles;
* `Registry.size` — the number of handles the first index holds.
-/

namespace Registry

open Finset Function

/-! ## Totals -/

section Total

variable {α : Type} {weight : α → Int} {table : Nat → α} {count : Nat}

/-- The weight of the first rows of a table. -/
def total (weight : α → Int) (table : Nat → α) (count : Nat) : Int :=
  ∑ i ∈ range count, weight (table i)

theorem total_congr {other : Nat → α} (h : ∀ i < count, weight (table i) = weight (other i)) :
    total weight table count = total weight other count :=
  sum_congr rfl fun i hi => h i (mem_range.1 hi)

theorem total_succ : total weight table (count + 1) = total weight table count + weight (table count) :=
  sum_range_succ _ _

theorem total_update (i : Nat) (a : α) (h : i < count ∨ weight a = weight (table i)) :
    total weight (update table i a) count =
      total weight table count + (weight a - weight (table i)) := by
  induction count with
  | zero =>
    rcases h with h | h
    · omega
    · simp [total, h]
  | succ n ih =>
    rw [total_succ, total_succ]
    by_cases hi : i = n
    · subst hi
      have hbelow : total weight (update table i a) i = total weight table i := by
        refine total_congr fun j hj => ?_
        rw [update_of_ne (Nat.ne_of_lt hj)]
      rw [update_self]
      omega
    · rw [update_of_ne (Ne.symm hi)]
      omega

theorem total_append (a : α) :
    total weight (update table count a) (count + 1) = total weight table count + weight a := by
  rw [total_succ, update_self]
  congr 1
  refine total_congr fun j hj => ?_
  rw [update_of_ne (Nat.ne_of_lt hj)]

/-- A total over the rows that are kept. -/
theorem total_filter (keep : α → Bool) (f : α → Nat) (table : Nat → α) (count : Nat) :
    total (fun a => if keep a then (f a : Int) else 0) table count =
      ((((List.range count).filter fun i => keep (table i)).map fun i => f (table i)).sum : Nat) := by
  induction count with
  | zero => simp [total]
  | succ n ih =>
    rw [total_succ, ih, List.range_succ, List.filter_append, List.map_append]
    cases h : keep (table n) <;> simp [h]

/-- The total of a property is the number of rows that have it. -/
theorem total_countP (keep p : α → Bool) (table : Nat → α) (count : Nat) :
    total (fun a => if keep a && p a then 1 else 0) table count =
      (((List.range count).filter fun i => keep (table i)).countP fun i => p (table i) : Nat) := by
  induction count with
  | zero => simp [total]
  | succ n ih =>
    rw [total_succ, ih, List.range_succ, List.filter_append]
    cases h : keep (table n) <;> cases h' : p (table n) <;> simp [h, h']

end Total

end Registry

/-! ## Registries -/

/-- Handles by key and by group; handles are numbered in the order they were made. -/
structure Registry (K B G : Type) where
  binding : K → Option B
  key : Nat → K
  group : Nat → G
  members : G → List Nat
  count : Nat

namespace Registry

open Function

variable {K B G : Type} [DecidableEq K] [DecidableEq G]
variable {tag : Nat → B} {r : Registry K B G}

/-- Whether the handle is found under its key. -/
def bound [DecidableEq B] (tag : Nat → B) (r : Registry K B G) (l : Nat) : Bool :=
  decide (r.binding (r.key l) = some (tag l))

/-- The number of handles found under their key. -/
def size [DecidableEq B] (tag : Nat → B) (r : Registry K B G) : Int :=
  total (fun b : Bool => if b then 1 else 0) (r.bound tag) r.count

/-- **The two indexes agree.** -/
structure Linked (tag : Nat → B) (r : Registry K B G) : Prop where
  found : ∀ k l, r.binding k = some (tag l) →
    l < r.count ∧ r.key l = k ∧ l ∈ r.members (r.group l)
  listed : ∀ g, ∀ l ∈ r.members g, l < r.count ∧ r.group l = g ∧ r.binding (r.key l) = some (tag l)
  distinct : ∀ g, (r.members g).Nodup

/-- A new handle under a free key. -/
def insert (tag : Nat → B) (r : Registry K B G) (k : K) (g : G) : Registry K B G where
  binding := update r.binding k (some (tag r.count))
  key := update r.key r.count k
  group := update r.group r.count g
  members := update r.members g (r.members g ++ [r.count])
  count := r.count + 1

/-- A handle leaves both indexes. -/
def remove (r : Registry K B G) (l : Nat) : Registry K B G :=
  { r with
    binding := update r.binding (r.key l) none
    members := update r.members (r.group l)
      ((r.members (r.group l)).filter fun other => other ≠ l) }

/-- A key takes a binding of another kind, or loses one. -/
def rebind (r : Registry K B G) (k : K) (b : Option B) : Registry K B G :=
  { r with binding := update r.binding k b }

theorem Linked.insert (h : Linked tag r) (htag : Function.Injective tag) {k : K} (g : G)
    (hfree : r.binding k = none) : Linked tag (r.insert tag k g) where
  found := by
    intro k' l hl
    by_cases hk : k' = k
    · subst hk
      simp only [Registry.insert, update_self, Option.some.injEq] at hl
      obtain rfl := htag hl
      simp [Registry.insert]
    simp only [Registry.insert, update_of_ne hk] at hl
    obtain ⟨hlt, hkey, hmem⟩ := h.found k' l hl
    have hne := Nat.ne_of_lt hlt
    simp only [Registry.insert, update_of_ne hne]
    refine ⟨by omega, hkey, ?_⟩
    by_cases hg : r.group l = g
    · rw [hg, update_self]
      exact List.mem_append_left _ (hg ▸ hmem)
    · rw [update_of_ne hg]
      exact hmem
  listed := by
    intro g' l hl
    have hold : l ∈ r.members g' → l < r.count + 1 ∧ update r.group r.count g l = g' ∧
        update r.binding k (some (tag r.count)) (update r.key r.count k l) =
          some (tag l) := by
      intro hmem
      obtain ⟨hlt, hgroup, hbound⟩ := h.listed g' l hmem
      have hne := Nat.ne_of_lt hlt
      have hk : r.key l ≠ k := by
        intro hk
        rw [hk, hfree] at hbound
        cases hbound
      rw [update_of_ne hne, update_of_ne hne, update_of_ne hk]
      exact ⟨by omega, hgroup, hbound⟩
    by_cases hg : g' = g
    · subst hg
      simp only [Registry.insert, update_self, List.mem_append, List.mem_singleton] at hl
      rcases hl with hl | rfl
      · exact hold hl
      · simp [Registry.insert]
    · simp only [Registry.insert, update_of_ne hg] at hl
      exact hold hl
  distinct := by
    intro g'
    by_cases hg : g' = g
    · subst hg
      simp only [Registry.insert, update_self]
      refine List.nodup_append.2 ⟨h.distinct g', List.nodup_singleton _, ?_⟩
      intro l hl other hother
      rw [List.mem_singleton] at hother
      rw [hother]
      exact Nat.ne_of_lt (h.listed g' l hl).1
    · simp only [Registry.insert, update_of_ne hg]
      exact h.distinct g'

theorem Linked.remove (h : Linked tag r) (htag : Function.Injective tag) {l : Nat}
    (hbound : r.binding (r.key l) = some (tag l)) : Linked tag (r.remove l) where
  found := by
    intro k l' hl'
    by_cases hk : k = r.key l
    · subst hk
      simp [Registry.remove] at hl'
    simp only [Registry.remove, update_of_ne hk] at hl'
    obtain ⟨hlt, hkey, hmem⟩ := h.found k l' hl'
    have hne : l' ≠ l := by
      rintro rfl
      exact hk hkey.symm
    refine ⟨hlt, hkey, ?_⟩
    simp only [Registry.remove]
    by_cases hg : r.group l' = r.group l
    · rw [hg, update_self]
      exact List.mem_filter.2 ⟨hg ▸ hmem, by simpa using hne⟩
    · rw [update_of_ne hg]
      exact hmem
  listed := by
    intro g l' hl'
    have hold : l' ≠ l → l' ∈ r.members g → l' < r.count ∧ r.group l' = g ∧
        update r.binding (r.key l) none (r.key l') = some (tag l') := by
      intro hne hmem
      obtain ⟨hlt, hgroup, hfound⟩ := h.listed g l' hmem
      have hk : r.key l' ≠ r.key l := by
        intro hk
        rw [hk, hbound, Option.some.injEq] at hfound
        exact hne (htag hfound).symm
      rw [update_of_ne hk]
      exact ⟨hlt, hgroup, hfound⟩
    by_cases hg : g = r.group l
    · subst hg
      simp only [Registry.remove, update_self, List.mem_filter, ne_eq,
        decide_not, Bool.not_eq_true', decide_eq_false_iff_not] at hl'
      exact hold hl'.2 hl'.1
    simp only [Registry.remove, update_of_ne hg] at hl'
    refine hold ?_ hl'
    rintro rfl
    exact hg (h.listed g l' hl').2.1.symm
  distinct := by
    intro g
    by_cases hg : g = r.group l
    · subst hg
      simp only [Registry.remove, update_self]
      exact (h.distinct _).filter _
    · simp only [Registry.remove, update_of_ne hg]
      exact h.distinct g

omit [DecidableEq G] in
theorem Linked.rebind (h : Linked tag r) {k : K} {b : Option B}
    (hbefore : ∀ l, r.binding k ≠ some (tag l)) (hafter : ∀ l, b ≠ some (tag l)) :
    Linked tag (r.rebind k b) where
  found := by
    intro k' l hl
    by_cases hk : k' = k
    · subst hk
      simp only [Registry.rebind, update_self] at hl
      exact absurd hl (hafter l)
    · simp only [Registry.rebind, update_of_ne hk] at hl
      exact h.found k' l hl
  listed := by
    intro g l hl
    obtain ⟨hlt, hgroup, hfound⟩ := h.listed g l hl
    refine ⟨hlt, hgroup, ?_⟩
    have hk : r.key l ≠ k := by
      rintro rfl
      exact hbefore l hfound
    simp only [Registry.rebind, update_of_ne hk]
    exact hfound
  distinct := h.distinct

/-! ## The size -/

variable [DecidableEq B]

theorem size_insert (htag : Function.Injective tag) {k : K} (g : G)
    (hfree : r.binding k = none) : size tag (r.insert tag k g) = size tag r + 1 := by
  have hbound : ∀ l < r.count, (r.insert tag k g).bound tag l = r.bound tag l := by
    intro l hl
    have hne := Nat.ne_of_lt hl
    refine decide_eq_decide.2 ?_
    show update r.binding k (some (tag r.count)) (update r.key r.count k l) =
      some (tag l) ↔ _
    rw [update_of_ne hne]
    by_cases hk : r.key l = k
    · have htagne : tag r.count ≠ tag l := fun heq => hne (htag heq).symm
      rw [hk, hfree]
      simp [htagne]
    · rw [update_of_ne hk]
  have hnew : (r.insert tag k g).bound tag r.count = true := by
    simp [bound, Registry.insert]
  show total _ _ (r.count + 1) = _
  rw [total_succ, hnew, total_congr fun l hl => by rw [hbound l hl]]
  rfl

theorem bound_remove (htag : Function.Injective tag) {l : Nat}
    (hbound : r.binding (r.key l) = some (tag l)) :
    (r.remove l).bound tag = update (r.bound tag) l false := by
  funext l'
  by_cases hl : l' = l
  · subst hl
    simp [bound, Registry.remove]
  rw [update_of_ne hl]
  refine decide_eq_decide.2 ?_
  show update r.binding (r.key l) none (r.key l') = some (tag l') ↔ _
  by_cases hk : r.key l' = r.key l
  · have htagne : tag l ≠ tag l' := fun heq => hl (htag heq).symm
    rw [hk, hbound]
    simp [htagne]
  · rw [update_of_ne hk]

theorem size_remove (h : Linked tag r) (htag : Function.Injective tag) {l : Nat}
    (hbound : r.binding (r.key l) = some (tag l)) : size tag (r.remove l) = size tag r - 1 := by
  have hlt := (h.found _ l hbound).1
  unfold size
  rw [bound_remove htag hbound]
  show total _ _ r.count = _
  rw [total_update l false (.inl hlt)]
  simp only [bound, hbound, decide_true, if_true, Bool.false_eq_true, if_false]
  omega

omit [DecidableEq G] in
theorem bound_rebind {k : K} {b : Option B} (hbefore : ∀ l, r.binding k ≠ some (tag l))
    (hafter : ∀ l, b ≠ some (tag l)) : (r.rebind k b).bound tag = r.bound tag := by
  funext l
  refine decide_eq_decide.2 ?_
  show update r.binding k b (r.key l) = some (tag l) ↔ _
  by_cases hk : r.key l = k
  · rw [hk]
    simp [hbefore l, hafter l]
  · rw [update_of_ne hk]

omit [DecidableEq G] in
theorem size_rebind {k : K} {b : Option B} (hbefore : ∀ l, r.binding k ≠ some (tag l))
    (hafter : ∀ l, b ≠ some (tag l)) : size tag (r.rebind k b) = size tag r := by
  unfold size
  rw [bound_rebind hbefore hafter]
  rfl

omit [DecidableEq K] [DecidableEq G] in
/-- The size is the number of handles found under their key. -/
theorem size_eq_countP (tag : Nat → B) (r : Registry K B G) :
    size tag r = ((List.range r.count).countP (r.bound tag) : Nat) := by
  have h := total_countP (fun _ => true) id (r.bound tag) r.count
  simpa [size] using h

end Registry
