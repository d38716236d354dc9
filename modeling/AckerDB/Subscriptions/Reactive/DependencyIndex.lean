import AckerDB.Lib.Run

/-!
# The reverse index from read keys to entries

A commit resolves its write keys to the entries that read one of them.  The index keeps the
only owner of a key inline and several owners as a set, promoting and demoting on the way,
and maintains three counters.

* `Tallied` — the counters are sums over the keys; adding and removing an owner keeps this,
  whichever way the owners are stored;
* `dependency_index_exact` — after any replacements and detachments the owners are those of
  the attached entries' read sets, so every answer of the index is read off these sets.
-/

namespace AckerDB.Reactive

open Finset

/-- One owner is stored inline; a shared read key promotes to a set, kept in insertion order. -/
inductive DependencyOwners (ε : Type)
  | one (entry : ε)
  | many (entries : List ε)
  deriving DecidableEq

/-- A `Set` of keys, listed in insertion order. -/
abbrev KeySet := { keys : List String // keys.Nodup }

structure DependencyIndex (ε : Type) where
  owners : Finmap fun _ : String => DependencyOwners ε
  edgeCount : Int
  multiOwnerKeyCount : Int

namespace DependencyIndex

variable {ε : Type} [DecidableEq ε]

def empty : DependencyIndex ε := ⟨∅, 0, 0⟩

section

variable (index : DependencyIndex ε)

def keys : Nat := index.owners.keys.card

/-- The entries a slot of the map holds. -/
def entriesOf : Option (DependencyOwners ε) → List ε
  | none => []
  | some (.one entry) => [entry]
  | some (.many entries) => entries

def ownersOf (key : String) : List ε :=
  entriesOf (index.owners.lookup key)

def affected (writeKeys : KeySet) : Finset ε :=
  (writeKeys.val.flatMap index.ownersOf).toFinset

def add (key : String) (entry : ε) : DependencyIndex ε :=
  match index.owners.lookup key with
  | none => { index with owners := index.owners.insert key (.one entry)
                         edgeCount := index.edgeCount + 1 }
  | some (.one owner) =>
    if owner = entry then index
    else { owners := index.owners.insert key (.many [owner, entry])
           edgeCount := index.edgeCount + 1
           multiOwnerKeyCount := index.multiOwnerKeyCount + 1 }
  | some (.many entries) =>
    if entry ∈ entries then index
    else { index with owners := index.owners.insert key (.many (entries ++ [entry]))
                      edgeCount := index.edgeCount + 1 }

def remove (key : String) (entry : ε) : DependencyIndex ε :=
  match index.owners.lookup key with
  | none => index
  | some (.one owner) =>
    if owner = entry then { index with owners := index.owners.erase key
                                       edgeCount := index.edgeCount - 1 }
    else index
  | some (.many entries) =>
    if entry ∈ entries then
      match entries.erase entry with
      | [last] => { owners := index.owners.insert key (.one last)
                    edgeCount := index.edgeCount - 1
                    multiOwnerKeyCount := index.multiOwnerKeyCount - 1 }
      | rest => { index with owners := index.owners.insert key (.many rest)
                             edgeCount := index.edgeCount - 1 }
    else index

/-- Move the entry from the read set it holds onto its newly observed one. -/
def replace (entry : ε) (readSet next : KeySet) :
    DependencyIndex ε :=
  let removed := (readSet.val.filter (· ∉ next.val)).foldl (fun i key => i.remove key entry) index
  (next.val.filter (· ∉ readSet.val)).foldl (fun i key => i.add key entry) removed

/-- Drop every edge the entry owns. -/
def detach (entry : ε) (readSet : KeySet) : DependencyIndex ε :=
  readSet.val.foldl (fun i key => i.remove key entry) index

end

/-! ## What adding and removing an owner do -/

/-- What a key contributes to the number of shared keys. -/
def share (entries : List ε) : Int := if 2 ≤ entries.length then 1 else 0

omit [DecidableEq ε]

/-- Sets hold at least two entries, and the counters are sums over the keys. -/
structure Tallied (index : DependencyIndex ε) : Prop where
  many : ∀ key entries, index.owners.lookup key = some (.many entries) → 2 ≤ entries.length
  nodup : ∀ key, (index.ownersOf key).Nodup
  edgeCount : index.edgeCount = ∑ key ∈ index.owners.keys, ((index.ownersOf key).length : Int)
  multiOwnerKeyCount :
    index.multiOwnerKeyCount = ∑ key ∈ index.owners.keys, share (index.ownersOf key)

variable {index next : DependencyIndex ε} {key : String} {entry : ε}
  {slot : Option (DependencyOwners ε)}

/-- The slot of one key is the only one that differs. -/
def Writes (index next : DependencyIndex ε) (key : String)
    (slot : Option (DependencyOwners ε)) : Prop :=
  ∀ k, next.owners.lookup k = if k = key then slot else index.owners.lookup k

theorem tallied_empty : Tallied (empty : DependencyIndex ε) := by
  constructor <;> simp [empty, ownersOf, entriesOf]

theorem Tallied.mem_keys (h : Tallied index) :
    key ∈ index.owners.keys ↔ index.ownersOf key ≠ [] := by
  rw [Finmap.mem_keys, ← Finmap.lookup_isSome, ownersOf]
  rcases hlook : index.owners.lookup key with _ | owner | entries
  · simp [entriesOf]
  · simp [entriesOf]
  · have hlen := h.many key entries hlook
    simp only [entriesOf, Option.isSome_some, true_iff]
    exact List.ne_nil_of_length_pos (by omega)

theorem writes_insert {value : DependencyOwners ε}
    (hnext : next.owners = index.owners.insert key value) : Writes index next key (some value) := by
  intro k
  rw [hnext]
  split
  · next hk => rw [hk, Finmap.lookup_insert]
  · next hk => exact Finmap.lookup_insert_of_ne _ hk

theorem writes_erase (hnext : next.owners = index.owners.erase key) :
    Writes index next key none := by
  intro k
  rw [hnext]
  split
  · next hk => rw [hk, Finmap.lookup_erase]
  · next hk => exact Finmap.lookup_erase_ne hk

theorem Writes.ownersOf (h : Writes index next key slot) (k : String) :
    next.ownersOf k = if k = key then entriesOf slot else index.ownersOf k := by
  rw [DependencyIndex.ownersOf, h]
  split <;> rfl

/-- A sum over the keys changes by what the written key contributes. -/
theorem Writes.sum (h : Writes index next key slot) {f : List ε → Int} (hf : f [] = 0) :
    ∑ k ∈ next.owners.keys, f (next.ownersOf k) + f (index.ownersOf key) =
      ∑ k ∈ index.owners.keys, f (index.ownersOf k) + f (entriesOf slot) := by
  let all := insert key (next.owners.keys ∪ index.owners.keys)
  have hkey : key ∈ all := mem_insert_self _ _
  have hwiden (i : DependencyIndex ε) (hall : i.owners.keys ⊆ all) :
      ∑ k ∈ i.owners.keys, f (i.ownersOf k) = ∑ k ∈ all, f (i.ownersOf k) := by
    refine sum_subset hall fun k _ hk => ?_
    rw [DependencyIndex.ownersOf, Finmap.lookup_eq_none.2 (Finmap.mem_keys.not.1 hk)]
    exact hf
  rw [hwiden next (by grind), hwiden index (by grind), ← add_sum_erase all _ hkey,
    ← add_sum_erase all _ hkey, h.ownersOf, if_pos rfl,
    sum_congr rfl fun k hk => by rw [h.ownersOf, if_neg (ne_of_mem_erase hk)]]
  ring

/-- One written slot: the owners it stands for and the counters it asks for. -/
theorem Tallied.write (h : Tallied index) (hwrites : Writes index next key slot)
    {owned : ε → String → Prop}
    (howned : ∀ e k, owned e k ↔ if k = key then e ∈ entriesOf slot else e ∈ index.ownersOf k)
    (hnodup : (entriesOf slot).Nodup)
    (hslot : ∀ entries, slot = some (.many entries) → 2 ≤ entries.length)
    (hedges : next.edgeCount + (index.ownersOf key).length =
      index.edgeCount + (entriesOf slot).length)
    (hshared : next.multiOwnerKeyCount + share (index.ownersOf key) =
      index.multiOwnerKeyCount + share (entriesOf slot)) :
    Tallied next ∧ ∀ e k, e ∈ next.ownersOf k ↔ owned e k := by
  have hcount := hwrites.sum (f := fun entries => entries.length) rfl
  have hmulti := hwrites.sum (f := share) rfl
  rw [h.edgeCount] at hedges
  rw [h.multiOwnerKeyCount] at hshared
  refine ⟨⟨fun k entries hk => ?_, fun k => ?_, by linarith, by linarith⟩, fun e k => ?_⟩
  · rw [hwrites] at hk
    split at hk
    · exact hslot entries hk
    · exact h.many k entries hk
  · rw [hwrites.ownersOf]
    split
    · exact hnodup
    · exact h.nodup k
  · rw [hwrites.ownersOf, howned]
    split <;> rfl

variable [DecidableEq ε]

theorem Tallied.add (h : Tallied index) (key : String) (entry : ε) :
    Tallied (index.add key entry) ∧ ∀ e k, e ∈ (index.add key entry).ownersOf k ↔
      e ∈ index.ownersOf k ∨ e = entry ∧ k = key := by
  have hnodup := h.nodup key
  rw [DependencyIndex.add]
  rcases hlook : index.owners.lookup key with _ | owner | entries <;>
    have howners := congrArg entriesOf hlook <;> change index.ownersOf key = _ at howners <;>
    simp only [entriesOf] at howners <;> dsimp only <;> rw [howners] at hnodup
  · refine h.write (writes_insert rfl) ?_ ?_ ?_ ?_ ?_ <;>
      simp [howners, entriesOf, share]
    grind
  · split
    · exact ⟨h, by grind⟩
    · refine h.write (writes_insert rfl) ?_ ?_ ?_ ?_ ?_ <;>
        simp [howners, entriesOf, share] <;> grind
  have hlen := h.many key entries hlook
  split
  · exact ⟨h, by grind⟩
  · refine h.write (writes_insert rfl) ?_ ?_ ?_ ?_ ?_ <;>
      simp [howners, entriesOf, share] <;> grind

theorem Tallied.remove (h : Tallied index) (key : String) (entry : ε) :
    Tallied (index.remove key entry) ∧ ∀ e k, e ∈ (index.remove key entry).ownersOf k ↔
      e ∈ index.ownersOf k ∧ ¬(e = entry ∧ k = key) := by
  have hnodup := h.nodup key
  rw [DependencyIndex.remove]
  rcases hlook : index.owners.lookup key with _ | owner | entries <;>
    have howners := congrArg entriesOf hlook <;> change index.ownersOf key = _ at howners <;>
    simp only [entriesOf] at howners <;> dsimp only <;> rw [howners] at hnodup
  · exact ⟨h, by grind⟩
  · split
    · refine h.write (writes_erase rfl) ?_ ?_ ?_ ?_ ?_ <;>
        simp [howners, entriesOf, share]
      grind
    · exact ⟨h, by grind⟩
  have hlen := h.many key entries hlook
  split
  · next hmem =>
    have hrest := List.length_erase_of_mem hmem
    have hmem_erase (e : ε) := hnodup.mem_erase_iff (a := e) (b := entry)
    split
    · next last hlast =>
      rw [hlast] at hrest hmem_erase
      refine h.write (writes_insert rfl) ?_ ?_ ?_ ?_ ?_ <;>
        simp [howners, entriesOf, share] <;> grind
    next hlast =>
    have hne : (entries.erase entry).length ≠ 1 := fun hone =>
      (List.length_eq_one_iff.1 hone).elim hlast
    have hleft := hnodup.erase entry
    refine h.write (writes_insert rfl) ?_ ?_ ?_ ?_ ?_ <;>
      simp [howners, entriesOf, share] <;> grind
  · exact ⟨h, by grind⟩

theorem Tallied.adds (h : Tallied index) (entry : ε) (keys : List String) :
    Tallied (keys.foldl (fun i key => i.add key entry) index) ∧
      ∀ e k, e ∈ (keys.foldl (fun i key => i.add key entry) index).ownersOf k ↔
        e ∈ index.ownersOf k ∨ e = entry ∧ k ∈ keys := by
  induction keys generalizing index with
  | nil => exact ⟨h, by simp⟩
  | cons key rest ih =>
    obtain ⟨htallied, howned⟩ := h.add key entry
    refine ⟨(ih htallied).1, fun e k => ?_⟩
    rw [List.foldl_cons, (ih htallied).2, howned]
    grind

theorem Tallied.removes (h : Tallied index) (entry : ε) (keys : List String) :
    Tallied (keys.foldl (fun i key => i.remove key entry) index) ∧
      ∀ e k, e ∈ (keys.foldl (fun i key => i.remove key entry) index).ownersOf k ↔
        e ∈ index.ownersOf k ∧ ¬(e = entry ∧ k ∈ keys) := by
  induction keys generalizing index with
  | nil => exact ⟨h, by simp⟩
  | cons key rest ih =>
    obtain ⟨htallied, howned⟩ := h.remove key entry
    refine ⟨(ih htallied).1, fun e k => ?_⟩
    rw [List.foldl_cons, (ih htallied).2, howned]
    grind

end DependencyIndex

/-! ## Runs -/

open DependencyIndex

variable {ε : Type} [DecidableEq ε]

/-- The index together with the entries' own read sets; `attached` are the entries that were
given a read set, `detached` those that left the index for good. -/
structure Observers (ε : Type) where
  index : DependencyIndex ε
  readSet : ε → KeySet
  attached : Finset ε
  detached : Finset ε

/-- The calls the subscriptions make. -/
inductive IndexEvent (ε : Type)
  | replace (entry : ε) (next : KeySet)
  | detach (entry : ε)

namespace Observers

/-- Entries are created with an empty read set. -/
def start : Observers ε := ⟨empty, fun _ => ⟨[], List.nodup_nil⟩, ∅, ∅⟩

variable (s : Observers ε)

def step : IndexEvent ε → Option (Observers ε)
  | .replace entry next =>
    some { s with index := s.index.replace entry (s.readSet entry) next
                  readSet := Function.update s.readSet entry next
                  attached := insert entry s.attached }
  | .detach entry =>
    some { s with index := s.index.detach entry (s.readSet entry)
                  attached := s.attached.erase entry
                  detached := insert entry s.detached }

/-- A detached entry is not used again. -/
def final : IndexEvent ε → Bool
  | .replace entry _ => entry ∉ s.detached
  | .detach entry => entry ∉ s.detached

/-- The index holds the read sets of the attached entries. -/
structure Inv : Prop where
  tallied : Tallied s.index
  owned : ∀ entry key, entry ∈ s.index.ownersOf key ↔
    entry ∈ s.attached ∧ key ∈ (s.readSet entry).val
  fresh : ∀ entry, entry ∉ s.attached → entry ∉ s.detached → (s.readSet entry).val = []

omit [DecidableEq ε] in
theorem inv_start : Inv (start : Observers ε) :=
  ⟨tallied_empty, by simp [start, empty, ownersOf, entriesOf], fun _ _ _ => rfl⟩

theorem Inv.step {s t : Observers ε} {event : IndexEvent ε} (h : Inv s)
    (hfinal : s.final event = true) (hnext : s.step event = some t) : Inv t := by
  cases event with
  | replace entry next =>
    cases hnext
    have hfresh := h.fresh entry
    obtain ⟨hremoved, hleft⟩ := h.tallied.removes entry
      ((s.readSet entry).val.filter (· ∉ next.val))
    obtain ⟨htallied, howned⟩ := hremoved.adds entry
      (next.val.filter (· ∉ (s.readSet entry).val))
    refine ⟨htallied, fun e key => ?_, fun e he => ?_⟩
    · refine (howned e key).trans ?_
      rw [hleft, h.owned]
      by_cases he : e = entry
      · subst he
        by_cases hkey : key ∈ (s.readSet e).val <;> by_cases hattached : e ∈ s.attached <;>
          simp_all [final]
      · simp [he]
    · obtain ⟨hne, hnot⟩ := not_or.1 (mem_insert.not.1 he)
      simpa [hne] using h.fresh e hnot
  | detach entry =>
    cases hnext
    obtain ⟨htallied, howned⟩ := h.tallied.removes entry (s.readSet entry).val
    refine ⟨htallied, fun e key => ?_, fun e he hnot => ?_⟩
    · refine (howned e key).trans ?_
      rw [h.owned, mem_erase]
      grind
    · obtain ⟨hne, hnot⟩ := not_or.1 (mem_insert.not.1 hnot)
      exact h.fresh e (fun hmem => he (mem_erase.2 ⟨hne, hmem⟩)) hnot

/-- The keys some attached entry owns. -/
def ownedKeys : Finset String :=
  s.attached.biUnion fun entry => (s.readSet entry).val.toFinset

end Observers

/-- **The index is an exact reverse index.**  After any run in which a detached entry is not
used again, the affected entries are the attached ones whose read set meets the write set, and
the three counters are those of the attached entries' read sets. -/
theorem dependency_index_exact {s : Observers ε}
    (h : Run.Reachable Observers.step (Observers.final · · = true) Observers.start s) :
    (∀ writeKeys entry, entry ∈ s.index.affected writeKeys ↔
      entry ∈ s.attached ∧ ∃ key ∈ (s.readSet entry).val, key ∈ writeKeys.val) ∧
    s.index.keys = s.ownedKeys.card ∧
    s.index.edgeCount = ∑ entry ∈ s.attached, (s.readSet entry).val.length ∧
    s.index.multiOwnerKeyCount = (s.ownedKeys.filter fun key =>
      2 ≤ (s.attached.filter fun entry => key ∈ (s.readSet entry).val).card).card := by
  have hinv : s.Inv := h.induct Observers.inv_start fun _ _ _ _ hinv => hinv.step
  have hkeys : s.index.owners.keys = s.ownedKeys := by
    ext key
    rw [hinv.tallied.mem_keys, Ne, List.eq_nil_iff_forall_not_mem]
    simp [hinv.owned, Observers.ownedKeys]
  have howners (key : String) : ((s.index.ownersOf key).length : Int) =
      (s.attached.filter fun entry => key ∈ (s.readSet entry).val).card := by
    rw [← List.toFinset_card_of_nodup (hinv.tallied.nodup key)]
    congr 2
    ext entry
    rw [List.mem_toFinset, hinv.owned, mem_filter]
  refine ⟨fun writeKeys entry => ?_, congrArg card hkeys, ?_, ?_⟩
  · simp only [affected, List.mem_toFinset, List.mem_flatMap, hinv.owned]
    grind
  · rw [hinv.tallied.edgeCount, hkeys, sum_congr rfl fun key _ => howners key]
    -- the edges counted by key are the edges counted by entry
    have hcount := sum_card_bipartiteAbove_eq_sum_card_bipartiteBelow (s := s.ownedKeys)
      (t := s.attached) fun key entry => key ∈ (s.readSet entry).val
    rw [← Nat.cast_sum]
    refine congrArg Nat.cast (hcount.trans (sum_congr rfl fun entry hentry => ?_))
    rw [← List.toFinset_card_of_nodup (s.readSet entry).property]
    congr 1
    ext key
    simp only [bipartiteBelow, mem_filter, Observers.ownedKeys, mem_biUnion, List.mem_toFinset]
    exact ⟨And.right, fun hkey => ⟨⟨entry, hentry, hkey⟩, hkey⟩⟩
  rw [hinv.tallied.multiOwnerKeyCount, hkeys, card_filter]
  push_cast
  refine sum_congr rfl fun key _ => ?_
  have := howners key
  simp only [share]
  split <;> split <;> omega

/-- Two entries share a key; one of them leaves. -/
def sharedEvents : List (IndexEvent Nat) :=
  [.replace 1 ⟨["a", "b"], by decide⟩, .replace 2 ⟨["b", "c"], by decide⟩, .detach 1]

theorem dependency_index_exact_shared : ∃ s : Observers Nat,
    Run.run Observers.step Observers.start sharedEvents = some s ∧
    ∀ entry, entry ∈ s.index.affected ⟨["a", "b"], by decide⟩ ↔
      entry ∈ s.attached ∧ ∃ key ∈ (s.readSet entry).val, key ∈ ["a", "b"] :=
  ⟨_, rfl, (dependency_index_exact (Run.Reachable.refl.run
    (Run.guarded_of_checks (fun _ _ => id) (by decide +kernel) : Run.Guarded _ _ _ sharedEvents)
    rfl)).1 _⟩

end AckerDB.Reactive
