import AckerDB.Database.Query.Predicate

/-!
# Predicate dependencies

How a query turns its predicate trees into read keys.  A conjunction of trees
is normalised to a bounded list of *branches*, each a list of exact constraints
"this column is one of these values"; every branch picks the index prefix it
pins deepest, and the query reads the keys of the pinned tuples.  Crossing the
bound widens to the constraints common to all branches, and a branch that pins
no index falls back to the table's scan key.

The constraints carry their invariant: a nonempty list of values, distinct up to
the sign of zero.  `Branch.Admits` says what a branch claims of a row, and every
operation on branches keeps each row that was admitted before.
-/

namespace AckerDB

open List

/-- Bounds the Boolean expansion and the index keys of one table read. -/
def maxReactiveDependencyKeys : Nat := 64

/-! ## Exact values -/

/-- `isScalarStorageValue`. -/
def isScalarStorageValue : JsValue → Bool
  | .null => true
  | .string _ => true
  | .bigint _ => true
  | .number n => n.isFinite
  | _ => false

/-- A storage value that can be pinned exactly. -/
abbrev ScalarStorageValue := { value : JsValue // isScalarStorageValue value = true }

/-- The value up to the sign of zero. -/
def ScalarStorageValue.canonical (value : ScalarStorageValue) : JsValue := value.1.zeroed

/-- `sameValueZero`, the comparison `includes` makes. -/
def sameValueZero (left right : ScalarStorageValue) : Bool :=
  JsValue.sameValueZero left.1 right.1

theorem sameValueZero_iff_canonical (left right : ScalarStorageValue) :
    sameValueZero left right = true ↔ left.canonical = right.canonical :=
  JsValue.sameValueZero_iff left.1 right.1

/-- `values.includes(value)`. -/
def includes (values : List ScalarStorageValue) (value : ScalarStorageValue) : Bool :=
  values.any fun candidate => sameValueZero candidate value

theorem includes_iff (values : List ScalarStorageValue) (value : ScalarStorageValue) :
    includes values value = true ↔
      value.canonical ∈ values.map ScalarStorageValue.canonical := by
  simp only [includes, any_eq_true, sameValueZero_iff_canonical, mem_map]

/-- A list of values without repetition up to the sign of zero. -/
structure ExactValues where
  list : List ScalarStorageValue
  distinct : (list.map ScalarStorageValue.canonical).Nodup

namespace ExactValues

/-- No value yet. -/
def empty : ExactValues := ⟨[], nodup_nil⟩

/-- Exactly one value. -/
def singleton (value : ScalarStorageValue) : ExactValues := ⟨[value], nodup_singleton _⟩

/-- `if (!exact.includes(value)) exact.push(value)`. -/
def push (values : ExactValues) (value : ScalarStorageValue) : ExactValues :=
  if h : includes values.list value = true then values
  else ⟨values.list ++ [value], by
    rw [includes_iff] at h
    rw [map_append, map_singleton]
    exact Nodup.append values.distinct (nodup_singleton _)
      (disjoint_singleton.2 h)⟩

/-- Some value is the given one up to the sign of zero. -/
def Admits (values : ExactValues) (value : JsValue) : Prop :=
  value.zeroed ∈ values.list.map ScalarStorageValue.canonical

theorem admits_push (values : ExactValues) (value : ScalarStorageValue) (found : JsValue) :
    (values.push value).Admits found ↔ values.Admits found ∨ found.zeroed = value.canonical := by
  unfold push Admits
  split
  · rename_i h
    rw [includes_iff] at h
    constructor
    · intro hmem
      exact .inl hmem
    · rintro (hmem | heq)
      · exact hmem
      · exact heq ▸ h
  · simp

/-- `sameValues`. -/
def sameValues (left right : ExactValues) : Bool :=
  left.list.length = right.list.length && left.list.all fun value => includes right.list value

variable {value : JsValue}

/-- Two lists of one length, one inside the other, admit the same values. -/
theorem admits_of_sameValues {left right : ExactValues} (h : sameValues left right = true)
    (hright : right.Admits value) : left.Admits value := by
  simp only [sameValues, Bool.and_eq_true, decide_eq_true_eq, all_eq_true] at h
  obtain ⟨hlength, hall⟩ := h
  have hsub : left.list.map ScalarStorageValue.canonical ⊆
      right.list.map ScalarStorageValue.canonical := by
    intro found hfound
    obtain ⟨scalar, hscalar, rfl⟩ := mem_map.1 hfound
    exact (includes_iff _ _).1 (hall scalar hscalar)
  -- the left list has no repetition, so by counting it is all of the right list
  have hperm : (left.list.map ScalarStorageValue.canonical).Perm
      (right.list.map ScalarStorageValue.canonical) :=
    (subperm_of_subset left.distinct hsub).perm_of_length_le (by simp [hlength])
  exact hperm.mem_iff.2 hright

/-- `intersectValues`. -/
def intersectValues (left right : ExactValues) : ExactValues :=
  if left.list.length ≤ right.list.length then
    ⟨left.list.filter fun value => includes right.list value,
      left.distinct.sublist (filter_sublist.map _)⟩
  else
    ⟨right.list.filter fun value => includes left.list value,
      right.distinct.sublist (filter_sublist.map _)⟩

theorem admits_filter {left right : ExactValues} (hleft : left.Admits value)
    (hright : right.Admits value) :
    value.zeroed ∈ (left.list.filter fun v => includes right.list v).map
      ScalarStorageValue.canonical := by
  obtain ⟨scalar, hscalar, hcanonical⟩ := mem_map.1 hleft
  refine mem_map.2 ⟨scalar, mem_filter.2 ⟨hscalar, ?_⟩, hcanonical⟩
  rw [includes_iff, hcanonical]
  exact hright

theorem admits_intersectValues {left right : ExactValues} (hleft : left.Admits value)
    (hright : right.Admits value) :
    (intersectValues left right).Admits value := by
  unfold intersectValues
  split
  · exact admits_filter hleft hright
  · exact admits_filter hright hleft

end ExactValues

/-! ## Branches -/

/-- A column pinned to one of finitely many values. -/
structure ExactConstraint where
  column : String
  values : ExactValues
  nonempty : values.list ≠ []

/-- A conjunction of exact constraints. -/
abbrev Branch := List ExactConstraint

namespace Branch

/-- Every constraint holds of the stored row. -/
def Admits (branch : Branch) (stored : String → JsValue) : Prop :=
  ∀ constraint ∈ branch, constraint.values.Admits (stored constraint.column)

/-- The row is admitted by some branch. -/
def SomeAdmits (branches : List Branch) (stored : String → JsValue) : Prop :=
  ∃ branch ∈ branches, branch.Admits stored

end Branch

/-- `exactValueBranch`. -/
def exactValueBranch (column : String) (value : JsValue) : List Branch :=
  if h : isScalarStorageValue value = true then
    [[⟨column, .singleton ⟨value, h⟩, cons_ne_nil _ _⟩]]
  else [[]]

/-- The loop of `exactBranches` over the remaining values. -/
def exactBranchesLoop (column : String) : List JsValue → ExactValues → List Branch
  | [], exact => if h : exact.list = [] then [] else [[⟨column, exact, h⟩]]
  | value :: rest, exact =>
    if h : isScalarStorageValue value = true then
      let pushed := exact.push ⟨value, h⟩
      if pushed.list.length > maxReactiveDependencyKeys then [[]]
      else exactBranchesLoop column rest pushed
    else [[]]

/-- `exactBranches`. -/
def exactBranches (column : String) (values : List JsValue) : List Branch :=
  exactBranchesLoop column values .empty

/-- `constraint`: the first constraint on a column. -/
def constraint (branch : Branch) (column : String) : Option ExactConstraint :=
  branch.find? fun candidate => candidate.column = column

/-- `commonBranch`: the constraints of the first branch that every branch shares. -/
def commonBranch (branches : List Branch) : Branch :=
  let first := branches.headD []
  if branches.length = 1 then first
  else first.filter fun expected =>
    branches.all fun candidate =>
      match constraint candidate expected.column with
      | none => false
      | some actual => ExactValues.sameValues expected.values actual.values

/-- One round of the loop of `mergeBranches`: add a constraint to the merged ones. -/
def mergeConstraint (right : ExactConstraint) : Branch → Option Branch
  | [] => some [right]
  | left :: rest =>
    if left.column = right.column then
      if ExactValues.sameValues left.values right.values then some (left :: rest)
      else
        let intersection := ExactValues.intersectValues left.values right.values
        if h : intersection.list = [] then none
        else some (⟨right.column, intersection, h⟩ :: rest)
    else (mergeConstraint right rest).map fun merged => left :: merged

/-- `mergeBranches`; `none` is a contradiction. -/
def mergeBranches (left right : Branch) : Option Branch :=
  right.foldlM (fun merged rightConstraint => mergeConstraint rightConstraint merged) left

/-- `andBranches`. -/
def andBranches (left right : List Branch) : List Branch :=
  if left.length = 0 ∨ right.length = 0 then []
  else if left.length = 1 ∧ (left.headD []).length = 0 then right
  else if right.length = 1 ∧ (right.headD []).length = 0 then left
  else if left.length * right.length > maxReactiveDependencyKeys then
    (mergeBranches (commonBranch left) (commonBranch right)).toList
  else left.flatMap fun leftBranch =>
    right.filterMap fun rightBranch => mergeBranches leftBranch rightBranch

/-- `orBranches`. -/
def orBranches (left right : List Branch) : List Branch :=
  if left.length = 0 then right
  else if right.length = 0 then left
  else if (left ++ right).length ≤ maxReactiveDependencyKeys then left ++ right
  else [commonBranch (left ++ right)]

/-- `predicateBranches`: bounded positive exact alternatives.  Negative and range
predicates contribute no constraint. -/
def predicateBranches : PredicateNode → List Branch
  | .comparison column op value => if op = .eq then exactValueBranch column value else [[]]
  | .in column values => exactBranches column values
  | .null column isNull => if isNull then exactValueBranch column .null else [[]]
  | .between _ _ _ => [[]]
  | .not _ => [[]]
  | .and left right => andBranches (predicateBranches left) (predicateBranches right)
  | .or left right => orBranches (predicateBranches left) (predicateBranches right)

/-- `allPredicateBranches`. -/
def allPredicateBranches : List PredicateNode → List Branch
  | [] => [[]]
  | first :: rest =>
    rest.foldl (fun branches node => andBranches branches (predicateBranches node))
      (predicateBranches first)

/-! ## Index prefixes -/

/-- The loop of `bestPrefix` over the columns of one index: how many leading columns
the branch pins, and how many tuples that makes. -/
def pinnedDepth (branch : Branch) : List String → Nat → Nat × Nat
  | [], keyCount => (0, keyCount)
  | column :: rest, keyCount =>
    match constraint branch column with
    | none => (0, keyCount)
    | some exact =>
      if exact.values.list.length > maxReactiveDependencyKeys / keyCount then (0, keyCount)
      else
        let deeper := pinnedDepth branch rest (keyCount * exact.values.list.length)
        (deeper.1 + 1, deeper.2)

/-- The branch has a constraint on each of the columns. -/
def Pins (branch : Branch) (columns : List String) : Prop :=
  ∀ column ∈ columns, (constraint branch column).isSome = true

theorem pins_pinnedDepth (branch : Branch) (columns : List String) (keyCount : Nat) :
    Pins branch (columns.take (pinnedDepth branch columns keyCount).1) := by
  induction columns generalizing keyCount with
  | nil =>
    intro column hmem
    simp at hmem
  | cons column rest ih =>
    unfold pinnedDepth
    split
    · intro column hmem
      simp at hmem
    rename_i exact hexact
    split
    · intro column hmem
      simp at hmem
    intro found hmem
    rw [take_succ_cons, mem_cons] at hmem
    rcases hmem with rfl | hmem
    · rw [hexact]
      rfl
    · exact ih _ found hmem

theorem pinnedDepth_le (branch : Branch) (columns : List String) (keyCount : Nat) :
    (pinnedDepth branch columns keyCount).1 ≤ columns.length := by
  induction columns generalizing keyCount with
  | nil => exact le_refl _
  | cons column rest ih =>
    unfold pinnedDepth
    split
    · exact Nat.zero_le _
    · split
      · exact Nat.zero_le _
      · exact Nat.succ_le_succ (ih _)

/-- The leading columns of an index that a branch pins.  An index is identified by its
position in the plan, as the source identifies it by its object. -/
structure IndexPrefix where
  branch : Branch
  position : Nat
  index : IndexDef
  depth : Nat
  keyCount : Nat
  depth_pos : 0 < depth
  depth_le : depth ≤ index.columns.length
  pins : Pins branch (index.columns.take depth)

/-- One round of the loop of `bestPrefix`: the deeper prefix wins, and among equally
deep ones the one with fewer keys. -/
def betterPrefix (branch : Branch) (best : Option IndexPrefix) (candidate : IndexDef × Nat) :
    Option IndexPrefix :=
  let found := pinnedDepth branch candidate.1.columns 1
  let bestDepth := (best.map IndexPrefix.depth).getD 0
  let bestKeyCount := (best.map IndexPrefix.keyCount).getD 0
  if h : found.1 > 0 ∧ (found.1 > bestDepth ∨ (found.1 = bestDepth ∧ found.2 < bestKeyCount)) then
    some
      { branch
        position := candidate.2
        index := candidate.1
        depth := found.1
        keyCount := found.2
        depth_pos := h.1
        depth_le := pinnedDepth_le _ _ _
        pins := pins_pinnedDepth _ _ _ }
  else best

variable (plan : TablePlan)

/-- `bestPrefix`. -/
def bestPrefix (branch : Branch) : Option IndexPrefix :=
  plan.indexes.zipIdx.foldl (betterPrefix branch) none

/-- The tuples of a Cartesian product of pinned columns, in the order the nested loops
of `recordPrefixValues` and `retainPrefixValues` visit them. -/
def pinnedTuples (branch : Branch) : (columns : List String) → Pins branch columns →
    List (List ScalarStorageValue)
  | [], _ => [[]]
  | column :: rest, h =>
    let exact := (constraint branch column).get (h column mem_cons_self)
    let tails := pinnedTuples branch rest fun c hc => h c (mem_cons_of_mem _ hc)
    exact.values.list.flatMap fun value => tails.map fun tail => value :: tail

/-- The tuples an index prefix pins. -/
def IndexPrefix.tuples (found : IndexPrefix) : List (List ScalarStorageValue) :=
  pinnedTuples found.branch (found.index.columns.take found.depth) found.pins

/-- One retained tuple of an index. -/
structure ConcreteIndexPrefix where
  position : Nat
  index : IndexDef
  values : List ScalarStorageValue

/-- `isSameValueZeroPrefix`. -/
def isSameValueZeroPrefix : List ScalarStorageValue → List ScalarStorageValue → Bool
  | [], _ => true
  | value :: rest, other :: others => sameValueZero value other && isSameValueZeroPrefix rest others
  | _ :: _, [] => false

/-- The leaf of `retainPrefixValues`: a tuple covered by a retained one is dropped, and a
full list refuses a new one. -/
def retainTuple (found : IndexPrefix) (retained : List ConcreteIndexPrefix)
    (values : List ScalarStorageValue) : Option (List ConcreteIndexPrefix) :=
  if retained.any fun candidate =>
      candidate.position = found.position && isSameValueZeroPrefix candidate.values values then
    some retained
  else if retained.length = maxReactiveDependencyKeys then none
  else some (retained ++ [⟨found.position, found.index, values⟩])

/-- `retainPrefixValues`. -/
def retainPrefixValues (retained : List ConcreteIndexPrefix) (found : IndexPrefix) :
    Option (List ConcreteIndexPrefix) :=
  found.tuples.foldlM (retainTuple found) retained

/-- `preciseMultiBranchPrefixes`: shallow prefixes first, so that a retained tuple is
never covered by a later one. -/
def preciseMultiBranchPrefixes (branches : List Branch) :
    Option (List ConcreteIndexPrefix) := do
  let prefixes ← branches.mapM (bestPrefix plan)
  (prefixes.insertionSort fun left right => left.depth ≤ right.depth).foldlM retainPrefixValues []

/-! ## Recording -/

/-- The storage values of a tuple. -/
def sqlValues (values : List ScalarStorageValue) : List JsValue := values.map Subtype.val

/-- `recordPrefix`: the keys of the tuples a prefix pins. -/
def recordPrefix (table : String) (found : IndexPrefix) : Except JsError (List Key) :=
  found.tuples.mapM fun values => ixKey table found.index.name (sqlValues values)

/-- The keys of one branch: its best index prefix, or the whole table. -/
def recordBranch (branch : Branch) : Except JsError (List Key) :=
  match bestPrefix plan branch with
  | none => .ok [scanKey plan.name]
  | some found => recordPrefix plan.name found

/-- The keys `recordPredicateDependencies` adds. -/
def predicateDependencies (predicates : List PredicateNode) :
    Except JsError (List Key) :=
  match allPredicateBranches predicates with
  | [] => .ok []
  | [branch] => recordBranch plan branch
  | branches =>
    match preciseMultiBranchPrefixes plan branches with
    | some precise =>
      precise.mapM fun found => ixKey plan.name found.index.name (sqlValues found.values)
    | none => recordBranch plan (commonBranch branches)

/-- `recordPredicateDependencies`. -/
def recordPredicateDependencies (predicates : List PredicateNode)
    (reads : List Key) : Except JsError (List Key) := do
  let keys ← predicateDependencies plan predicates
  return reads ++ keys

end AckerDB
