import AckerDB.Database.Access
import AckerDB.Database.Query.Dependencies

/-!
# Read keys meet write keys

A row that satisfies a query's predicates is never written without touching a
key the query recorded.

* `someAdmits_predicateBranches` — normalisation keeps every row that satisfies the
  tree, through intersections, contradictions and widening;
* `meets_recordBranch`, `meets_precise` — the keys of a branch, and of the retained
  tuples of several branches, include one that each admitted row emits;
* `length_predicateDependencies` — widening, the floor division and the cap on
  retained tuples keep the expansion small.
-/

namespace AckerDB

open Branch List

variable {sql : Sql} {stored : String → JsValue}

variable {branches left right : List Branch} {branch : Branch} {column : String}
  {columns : List String} {values : List ScalarStorageValue} {found : IndexPrefix}
  {retained out : List ConcreteIndexPrefix}

/-! ## Branches keep the rows they admit -/

theorem someAdmits_of_mem (hmem : branch ∈ branches) (h : branch.Admits stored) :
    SomeAdmits branches stored :=
  ⟨branch, hmem, h⟩

theorem someAdmits_unconstrained (stored : String → JsValue) : SomeAdmits [[]] stored := by
  refine ⟨[], mem_singleton_self _, ?_⟩
  intro found hfound
  simp at hfound

theorem someAdmits_exactValueBranch {value : JsValue} (h : (stored column).zeroed = value.zeroed) :
    SomeAdmits (exactValueBranch column value) stored := by
  unfold exactValueBranch
  split
  · refine ⟨_, mem_singleton_self _, ?_⟩
    intro found hfound
    rw [mem_singleton] at hfound
    subst hfound
    show (stored column).zeroed ∈ _
    rw [h]
    exact mem_singleton_self _
  · exact someAdmits_unconstrained stored

theorem someAdmits_exactBranchesLoop {values : List JsValue} {exact : ExactValues}
    (h : exact.Admits (stored column) ∨
      ∃ value ∈ values, (stored column).zeroed = value.zeroed) :
    SomeAdmits (exactBranchesLoop column values exact) stored := by
  induction values generalizing exact with
  | nil =>
    have hadmits : exact.Admits (stored column) := by
      rcases h with h | ⟨value, hvalue, -⟩
      · exact h
      · simp at hvalue
    unfold exactBranchesLoop
    split
    · rename_i hempty
      rw [ExactValues.Admits, hempty] at hadmits
      simp at hadmits
    refine ⟨_, mem_singleton_self _, ?_⟩
    intro found hfound
    rw [mem_singleton] at hfound
    subst hfound
    exact hadmits
  | cons _ _ ih =>
    unfold exactBranchesLoop
    split
    · dsimp only
      split
      · exact someAdmits_unconstrained stored
      apply ih
      rw [ExactValues.admits_push]
      rcases h with h | ⟨found, hfound, heq⟩
      · exact .inl (.inl h)
      · rcases mem_cons.1 hfound with rfl | hrest
        · exact .inl (.inr heq)
        · exact .inr ⟨found, hrest, heq⟩
    · exact someAdmits_unconstrained stored

theorem admits_constraint {found : ExactConstraint} (h : branch.Admits stored)
    (hfound : constraint branch column = some found) :
    found.values.Admits (stored column) := by
  have hcolumn : found.column = column := by simpa using find?_some hfound
  have hadmits := h found (mem_of_find?_eq_some hfound)
  rwa [hcolumn] at hadmits

/-- **Widening is safe.**  The constraints common to all branches hold of every row that
one of them admits. -/
theorem admits_commonBranch (h : SomeAdmits branches stored) :
    (commonBranch branches).Admits stored := by
  obtain ⟨branch, hmem, hadmits⟩ := h
  unfold commonBranch
  split
  · rename_i hone
    obtain ⟨only, rfl⟩ := length_eq_one_iff.1 hone
    rw [mem_singleton] at hmem
    subst hmem
    exact hadmits
  intro expected hexpected
  rw [mem_filter, all_eq_true] at hexpected
  have hshared := hexpected.2 branch hmem
  split at hshared
  · cases hshared
  · rename_i actual hactual
    exact ExactValues.admits_of_sameValues hshared (admits_constraint hadmits hactual)

theorem admits_mergeConstraint {right : ExactConstraint} {left : Branch}
    (hright : right.values.Admits (stored right.column)) (hleft : left.Admits stored) :
    ∃ merged, mergeConstraint right left = some merged ∧ Admits merged stored := by
  induction left with
  | nil =>
    refine ⟨[right], rfl, ?_⟩
    intro found hfound
    rw [mem_singleton] at hfound
    subst hfound
    exact hright
  | cons first rest ih =>
    have hfirst := hleft first mem_cons_self
    have hrest : Admits rest stored := fun c hc => hleft c (mem_cons_of_mem _ hc)
    unfold mergeConstraint
    split
    · rename_i hcolumn
      split
      · exact ⟨_, rfl, hleft⟩
      rw [hcolumn] at hfirst
      have hboth := ExactValues.admits_intersectValues hfirst hright
      dsimp only
      split
      · rename_i hempty
        rw [ExactValues.Admits, hempty] at hboth
        simp at hboth
      refine ⟨_, rfl, ?_⟩
      exact forall_mem_cons.2 ⟨hboth, hrest⟩
    obtain ⟨merged, hmerged, hadmits⟩ := ih hrest
    refine ⟨first :: merged, by rw [hmerged]; rfl, ?_⟩
    exact forall_mem_cons.2 ⟨hfirst, hadmits⟩

/-- A row admitted by both branches is admitted by their merge, so a contradiction
admits nothing. -/
theorem admits_mergeBranches {left right : Branch} (hleft : left.Admits stored)
    (hright : right.Admits stored) :
    ∃ merged, mergeBranches left right = some merged ∧ Admits merged stored := by
  unfold mergeBranches
  induction right generalizing left with
  | nil => exact ⟨left, rfl, hleft⟩
  | cons first _ ih =>
    obtain ⟨merged, hmerged, hadmits⟩ :=
      admits_mergeConstraint (hright first mem_cons_self) hleft
    rw [foldlM_cons, hmerged]
    exact ih hadmits fun c hc => hright c (mem_cons_of_mem _ hc)

theorem someAdmits_andBranches (hleft : SomeAdmits left stored) (hright : SomeAdmits right stored) :
    SomeAdmits (andBranches left right) stored := by
  unfold andBranches
  split
  · rename_i hempty
    rcases hempty with hempty | hempty
    · obtain ⟨branch, hmem, -⟩ := hleft
      rw [length_eq_zero_iff.1 hempty] at hmem
      cases hmem
    · obtain ⟨branch, hmem, -⟩ := hright
      rw [length_eq_zero_iff.1 hempty] at hmem
      cases hmem
  split
  · exact hright
  split
  · exact hleft
  split
  · obtain ⟨merged, hmerged, hadmits⟩ :=
      admits_mergeBranches (admits_commonBranch hleft) (admits_commonBranch hright)
    exact ⟨merged, by rw [hmerged]; exact mem_singleton_self _, hadmits⟩
  obtain ⟨leftBranch, hleftMem, hleftAdmits⟩ := hleft
  obtain ⟨rightBranch, hrightMem, hrightAdmits⟩ := hright
  obtain ⟨merged, hmerged, hadmits⟩ := admits_mergeBranches hleftAdmits hrightAdmits
  refine ⟨merged, mem_flatMap.2 ⟨leftBranch, hleftMem, ?_⟩, hadmits⟩
  exact mem_filterMap.2 ⟨rightBranch, hrightMem, hmerged⟩

theorem someAdmits_append (h : SomeAdmits left stored ∨ SomeAdmits right stored) :
    SomeAdmits (left ++ right) stored := by
  rcases h with ⟨branch, hmem, hadmits⟩ | ⟨branch, hmem, hadmits⟩
  · exact ⟨branch, mem_append_left _ hmem, hadmits⟩
  · exact ⟨branch, mem_append_right _ hmem, hadmits⟩

theorem not_someAdmits_of_length (h : branches.length = 0) :
    ¬ SomeAdmits branches stored := by
  rintro ⟨branch, hmem, -⟩
  rw [length_eq_zero_iff.1 h] at hmem
  cases hmem

theorem someAdmits_orBranches (h : SomeAdmits left stored ∨ SomeAdmits right stored) :
    SomeAdmits (orBranches left right) stored := by
  unfold orBranches
  split
  · rename_i hempty
    exact h.resolve_left (not_someAdmits_of_length hempty)
  split
  · rename_i hempty
    exact h.resolve_right (not_someAdmits_of_length hempty)
  split
  · exact someAdmits_append h
  · exact someAdmits_of_mem (mem_singleton_self _)
      (admits_commonBranch (someAdmits_append h))

/-- **Normalisation is sound.**  A row on which the tree is true is admitted by one of
its branches. -/
theorem someAdmits_predicateBranches (hstores : ∀ column, sql.Stores column (stored column))
    {node : PredicateNode} (hform : node.StorageForm sql)
    (h : Kleene.Holds (node.eval sql stored)) : SomeAdmits (predicateBranches node) stored := by
  induction node with
  | comparison column =>
    unfold predicateBranches
    split
    · rename_i hop
      subst hop
      exact someAdmits_exactValueBranch (Sql.zeroed_eq_of_holds (hstores column) hform h)
    · exact someAdmits_unconstrained stored
  | «in» column values =>
    rw [PredicateNode.eval, Kleene.holds_any] at h
    obtain ⟨truth, htruth, hholds⟩ := h
    obtain ⟨value, hvalue, rfl⟩ := mem_map.1 htruth
    refine someAdmits_exactBranchesLoop (.inr ⟨value, hvalue, ?_⟩)
    exact Sql.zeroed_eq_of_holds (hstores column) (hform value hvalue) hholds
  | between | not => exact someAdmits_unconstrained stored
  | null column =>
    unfold predicateBranches
    split
    · rename_i hnull
      have hstored : stored column = .null := by simpa [PredicateNode.eval, hnull] using h
      exact someAdmits_exactValueBranch (by rw [hstored])
    · exact someAdmits_unconstrained stored
  | and _ _ ihLeft ihRight =>
    rw [PredicateNode.eval, Kleene.holds_and] at h
    exact someAdmits_andBranches (ihLeft hform.1 h.1) (ihRight hform.2 h.2)
  | or _ _ ihLeft ihRight =>
    rw [PredicateNode.eval, Kleene.holds_or] at h
    exact someAdmits_orBranches (h.imp (ihLeft hform.1) (ihRight hform.2))

variable {predicates : List PredicateNode}

theorem someAdmits_allPredicateBranches (hstores : ∀ column, sql.Stores column (stored column))
    (hform : ∀ node ∈ predicates, node.StorageForm sql) (h : sql.Matches predicates stored) :
    SomeAdmits (allPredicateBranches predicates) stored := by
  rw [Sql.matches_iff] at h
  have hall : ∀ node ∈ predicates, SomeAdmits (predicateBranches node) stored :=
    fun node hnode => someAdmits_predicateBranches hstores (hform node hnode) (h node hnode)
  cases predicates with
  | nil => exact someAdmits_unconstrained stored
  | cons first rest =>
    -- the conjunction is folded in from the left, starting from the first tree
    refine foldlRecOn (motive := (SomeAdmits · stored)) rest _ (hall first mem_cons_self) ?_
    intro branches hbranches node hnode
    exact someAdmits_andBranches hbranches (hall node (mem_cons_of_mem _ hnode))

/-! ## The keys of a pinned tuple -/

/-- The tuple holds the stored values of the columns, up to the sign of zero. -/
def Spells (stored : String → JsValue) (columns : List String)
    (values : List ScalarStorageValue) : Prop :=
  values.map ScalarStorageValue.canonical = columns.map fun column => (stored column).zeroed

theorem encodable_scalar (value : ScalarStorageValue) : Wire.Encodable value.1 := by
  obtain ⟨value, hvalue⟩ := value
  cases value <;> trivial

theorem encodable_sqlValues (values : List ScalarStorageValue) :
    Wire.EncodableItems (sqlValues values) := by
  induction values with
  | nil => trivial
  | cons value _ ih => exact ⟨encodable_scalar value, ih⟩

/-- Recording a tuple never fails: its values have an encoding. -/
theorem exists_ixKey (table index : String) (values : List ScalarStorageValue) :
    ∃ key, ixKey table index (sqlValues values) = .ok key := by
  obtain ⟨out, hout, -⟩ := Wire.fromWireItems_toWireItems _ (encodable_sqlValues values)
  exact ⟨_, by simp only [ixKey, Wire.stableEncode, Wire.toWire, hout, Except.ok_bind]; rfl⟩

variable {plan : TablePlan}

theorem mapM_storedValue {row : Row} (hrow : sql.StoredAs plan row stored) {values : List JsValue}
    (h : columns.mapM (plan.storedValue row) = .ok values) :
    values = columns.map stored := by
  induction columns generalizing values with
  | nil =>
    cases h
    rfl
  | cons column _ ih =>
    simp only [mapM_cons, Except.bind_eq_ok] at h
    obtain ⟨value, hvalue, others, hothers, h⟩ := h
    cases h
    have hstored : value = stored column := by
      cases hplan : plan.columns.lookup column with
      | none =>
        rw [TablePlan.storedValue, hplan] at hvalue
        cases hvalue
      | some columnPlan =>
        rw [hrow.value column columnPlan hplan] at hvalue
        cases hvalue
        rfl
    rw [map_cons, hstored, ih hothers]

/-- The key of a tuple that spells a prefix of the written row is among the written
keys. -/
theorem mem_written_of_spells {row : Row} {written : List Key} (hrow : sql.StoredAs plan row stored)
    (hwritten : emitWriteKeys plan row [] = .ok written) {index : IndexDef}
    (hindex : index ∈ plan.indexes) {depth : Nat} (hpos : 0 < depth)
    (hle : depth ≤ index.columns.length) (hvalues : Spells stored (index.columns.take depth) values)
    {key : Key} (hkey : ixKey plan.name index.name (sqlValues values) = .ok key) :
    key ∈ written := by
  obtain ⟨emitted, hemitted, other, hother, hix⟩ := mem_emitWriteKeys_ix hwritten hindex hpos hle
  have hsame : (sqlValues values).map JsValue.zeroed = emitted.map JsValue.zeroed := by
    rw [mapM_storedValue hrow hemitted, sqlValues, map_map, map_map]
    exact hvalues
  rw [ixKey_congr hsame, hix] at hkey
  cases hkey
  exact hother

/-- An admitted row is spelled by one of the tuples of the columns a branch pins. -/
theorem exists_pinnedTuple (hadmits : branch.Admits stored) (hpins : Pins branch columns) :
    ∃ values ∈ pinnedTuples branch columns hpins, Spells stored columns values := by
  induction columns with
  | nil => exact ⟨[], mem_singleton_self _, rfl⟩
  | cons column _ ih =>
    obtain ⟨tail, htail, hspells⟩ := ih fun c hc => hpins c (mem_cons_of_mem _ hc)
    obtain ⟨exact, hexact⟩ := Option.isSome_iff_exists.1 (hpins column mem_cons_self)
    obtain ⟨value, hvalue, hcanonical⟩ := mem_map.1 (admits_constraint hadmits hexact)
    refine ⟨value :: tail, ?_, ?_⟩
    · refine mem_flatMap.2 ⟨value, ?_, mem_map.2 ⟨tail, htail, rfl⟩⟩
      simpa only [hexact, Option.get_some] using hvalue
    · rw [Spells, map_cons, map_cons, hcanonical, hspells]

theorem length_of_mem_pinnedTuples {hpins : Pins branch columns}
    (h : values ∈ pinnedTuples branch columns hpins) : values.length = columns.length := by
  induction columns generalizing values with
  | nil =>
    rw [pinnedTuples, mem_singleton] at h
    subst h
    rfl
  | cons _ _ ih =>
    obtain ⟨value, -, h⟩ := mem_flatMap.1 h
    obtain ⟨tail, htail, rfl⟩ := mem_map.1 h
    rw [length_cons, length_cons, ih htail]

/-! ## The best prefix of a branch -/

/-- The prefix is over an index of the plan. -/
def Planned (plan : TablePlan) (position : Nat) (index : IndexDef) : Prop :=
  plan.indexes[position]? = some index

theorem mem_of_planned {position : Nat} {index : IndexDef} (h : Planned plan position index) :
    index ∈ plan.indexes :=
  mem_of_getElem? h

/-- What `bestPrefix` chooses for a branch. -/
structure Chosen (plan : TablePlan) (branch : Branch) (found : IndexPrefix) : Prop where
  same : found.branch = branch
  planned : Planned plan found.position found.index
  depth : found.depth = (pinnedDepth branch found.index.columns 1).1

theorem bestPrefix_spec (h : bestPrefix plan branch = some found) :
    Chosen plan branch found := by
  -- the loop keeps the best prefix inside the plan
  revert h found
  refine foldlRecOn (motive := fun best => ∀ {found}, best = some found → Chosen plan branch found)
    _ _ (by simp) fun best hbest candidate hcandidate found hfound => ?_
  unfold betterPrefix at hfound
  dsimp only at hfound
  split at hfound
  · cases hfound
    exact ⟨rfl, mem_zipIdx_iff_getElem?.1 hcandidate, rfl⟩
  · exact hbest hfound

/-- Some recorded key is among the written ones. -/
def Meets (reads written : List Key) : Prop := ∃ key ∈ reads, key ∈ written

variable {plan : TablePlan} {row : Row} {written : List Key}

/-- The keys of a prefix: recording succeeds, and an admitted row writes one of them. -/
theorem meets_recordPrefix (sql : Sql) (hplanned : Planned plan found.position found.index) :
    ∃ reads, recordPrefix plan.name found = .ok reads ∧
      ∀ {stored : String → JsValue} {row : Row} {written : List Key},
        sql.StoredAs plan row stored → emitWriteKeys plan row [] = .ok written →
        found.branch.Admits stored → Meets reads written := by
  have hkeys : ∀ values ∈ found.tuples,
      ∃ key, ixKey plan.name found.index.name (sqlValues values) = .ok key :=
    fun values _ => exists_ixKey plan.name found.index.name values
  obtain ⟨reads, hreads, hmem⟩ := Except.exists_mapM_eq_ok hkeys
  refine ⟨reads, hreads, ?_⟩
  intro stored row written hrow hwritten hadmits
  obtain ⟨values, hvalues, hspells⟩ := exists_pinnedTuple hadmits found.pins
  obtain ⟨key, hkey, hix⟩ := hmem values hvalues
  exact ⟨key, hkey, mem_written_of_spells hrow hwritten (mem_of_planned hplanned)
    found.depth_pos found.depth_le hspells hix⟩

theorem meets_recordBranch (sql : Sql) (plan : TablePlan) (branch : Branch) :
    ∃ reads, recordBranch plan branch = .ok reads ∧
      ∀ {stored : String → JsValue} {row : Row} {written : List Key},
        sql.StoredAs plan row stored → emitWriteKeys plan row [] = .ok written →
        branch.Admits stored → Meets reads written := by
  unfold recordBranch
  cases hbest : bestPrefix plan branch with
  | none =>
    refine ⟨_, rfl, ?_⟩
    intro stored row written _ hwritten _
    exact ⟨_, mem_singleton_self _, mem_emitWriteKeys_scan hwritten⟩
  | some =>
    obtain ⟨rfl, hplanned, -⟩ := bestPrefix_spec hbest
    exact meets_recordPrefix sql hplanned

/-! ## The retained tuples of several branches -/

/-- A retained tuple pins a nonempty prefix of a planned index. -/
def Retained (plan : TablePlan) (concrete : ConcreteIndexPrefix) : Prop :=
  Planned plan concrete.position concrete.index ∧ concrete.values ≠ []

/-- The tuple of the index is extended from a retained one. -/
def Covered (retained : List ConcreteIndexPrefix) (position : Nat)
    (values : List ScalarStorageValue) : Prop :=
  ∃ concrete ∈ retained, concrete.position = position ∧
    isSameValueZeroPrefix concrete.values values = true

theorem isSameValueZeroPrefix_iff {left right : List ScalarStorageValue} :
    isSameValueZeroPrefix left right = true ↔
      left.map ScalarStorageValue.canonical <+: right.map ScalarStorageValue.canonical := by
  induction left generalizing right with
  | nil => simp [isSameValueZeroPrefix]
  | cons _ _ ih =>
    cases right with
    | nil => simp [isSameValueZeroPrefix]
    | cons =>
      simp only [isSameValueZeroPrefix, Bool.and_eq_true, sameValueZero_iff_canonical, ih,
        map_cons, cons_prefix_cons]

theorem retainTuple_spec (h : retainTuple found retained values = some out)
    (hplanned : Planned plan found.position found.index) (hvalues : values ≠ []) :
    (∀ c ∈ retained, c ∈ out) ∧ Covered out found.position values ∧
      ((∀ c ∈ retained, Retained plan c) → ∀ c ∈ out, Retained plan c) := by
  unfold retainTuple at h
  split at h
  · rename_i hcovered
    cases h
    simp only [any_eq_true, Bool.and_eq_true, decide_eq_true_eq] at hcovered
    exact ⟨fun c hc => hc, hcovered, fun hall => hall⟩
  split_ifs at h
  cases h
  refine ⟨fun c hc => mem_append_left _ hc, ?_, ?_⟩
  · refine ⟨_, mem_append_right _ (mem_singleton_self _), rfl, ?_⟩
    rw [isSameValueZeroPrefix_iff]
  intro hall c hc
  rcases mem_append.1 hc with hc | hc
  · exact hall c hc
  · rw [mem_singleton] at hc
    subst hc
    exact ⟨hplanned, hvalues⟩

theorem Covered.mono {position : Nat} (h : Covered retained position values)
    (hsub : ∀ c ∈ retained, c ∈ out) : Covered out position values := by
  obtain ⟨concrete, hmem, hrest⟩ := h
  exact ⟨concrete, hsub concrete hmem, hrest⟩

/-- Retaining the tuples of one prefix: every tuple is covered afterwards, and nothing
that was covered is lost. -/
theorem retainTuples_spec (hplanned : Planned plan found.position found.index)
    {tuples : List (List ScalarStorageValue)} (hne : ∀ values ∈ tuples, values ≠ [])
    (h : tuples.foldlM (retainTuple found) retained = some out) :
    (∀ c ∈ retained, c ∈ out) ∧ (∀ values ∈ tuples, Covered out found.position values) ∧
      ((∀ c ∈ retained, Retained plan c) → ∀ c ∈ out, Retained plan c) := by
  induction tuples generalizing retained with
  | nil =>
    cases h
    exact ⟨fun c hc => hc, by simp, fun hall => hall⟩
  | cons values _ ih =>
    rw [foldlM_cons, Option.bind_eq_bind, Option.bind_eq_some_iff] at h
    obtain ⟨middle, hmiddle, hrest⟩ := h
    obtain ⟨hsub, hcovered, hok⟩ :=
      retainTuple_spec hmiddle hplanned (hne values mem_cons_self)
    obtain ⟨hsubRest, hcoveredRest, hokRest⟩ :=
      ih (fun v hv => hne v (mem_cons_of_mem _ hv)) hrest
    refine ⟨fun c hc => hsubRest c (hsub c hc), ?_, fun hall => hokRest (hok hall)⟩
    exact forall_mem_cons.2 ⟨hcovered.mono hsubRest, hcoveredRest⟩

variable {prefixes : List IndexPrefix}

theorem retainPrefixes_spec (hplanned : ∀ found ∈ prefixes, Planned plan found.position found.index)
    (h : prefixes.foldlM retainPrefixValues retained = some out) :
    (∀ c ∈ retained, c ∈ out) ∧
      (∀ found ∈ prefixes, ∀ values ∈ found.tuples, Covered out found.position values) ∧
      ((∀ c ∈ retained, Retained plan c) → ∀ c ∈ out, Retained plan c) := by
  induction prefixes generalizing retained with
  | nil =>
    cases h
    exact ⟨fun c hc => hc, by simp, fun hall => hall⟩
  | cons found _ ih =>
    rw [foldlM_cons, Option.bind_eq_bind, Option.bind_eq_some_iff] at h
    obtain ⟨middle, hmiddle, hrest⟩ := h
    have hne : ∀ values ∈ found.tuples, values ≠ [] := by
      intro values hvalues hempty
      have hlength := length_of_mem_pinnedTuples hvalues
      have hpos := found.depth_pos
      have hle := found.depth_le
      rw [hempty] at hlength
      simp at hlength
      omega
    obtain ⟨hsub, hcovered, hok⟩ :=
      retainTuples_spec (hplanned found mem_cons_self) hne hmiddle
    obtain ⟨hsubRest, hcoveredRest, hokRest⟩ :=
      ih (fun f hf => hplanned f (mem_cons_of_mem _ hf)) hrest
    refine ⟨fun c hc => hsubRest c (hsub c hc), ?_, fun hall => hokRest (hok hall)⟩
    intro other hother values hvalues
    rcases mem_cons.1 hother with rfl | hother
    · exact (hcovered values hvalues).mono hsubRest
    · exact hcoveredRest other hother values hvalues

theorem mapM_bestPrefix (h : branches.mapM (bestPrefix plan) = some prefixes) :
    (∀ branch ∈ branches, ∃ found ∈ prefixes, bestPrefix plan branch = some found) ∧
      ∀ found ∈ prefixes, ∃ branch, bestPrefix plan branch = some found := by
  induction branches generalizing prefixes with
  | nil =>
    cases h
    simp
  | cons branch _ ih =>
    simp only [mapM_cons, Option.bind_eq_bind, Option.bind_eq_some_iff] at h
    obtain ⟨first, hfirst, others, hothers, h⟩ := h
    cases h
    obtain ⟨hleft, hright⟩ := ih hothers
    constructor
    · intro candidate hcandidate
      rcases mem_cons.1 hcandidate with rfl | hrest
      · exact ⟨first, mem_cons_self, hfirst⟩
      · obtain ⟨found, hfound, hbest⟩ := hleft candidate hrest
        exact ⟨found, mem_cons_of_mem _ hfound, hbest⟩
    exact forall_mem_cons.2 ⟨⟨branch, hfirst⟩, hright⟩

/-- A retained tuple whose extension spells a prefix of the row spells a shorter one. -/
theorem spells_of_covered {concrete : ConcreteIndexPrefix}
    (hcovers : isSameValueZeroPrefix concrete.values values = true)
    (hspells : Spells stored columns values) :
    Spells stored (columns.take concrete.values.length) concrete.values ∧
      concrete.values.length ≤ columns.length := by
  rw [isSameValueZeroPrefix_iff, hspells] at hcovers
  have hlength := hcovers.length_le
  rw [length_map, length_map] at hlength
  refine ⟨?_, hlength⟩
  rw [Spells, map_take]
  have heq := prefix_iff_eq_take.1 hcovers
  rwa [length_map] at heq

/-- **Coverage loses no row.**  The keys of the retained tuples include one that every
row admitted by some branch writes. -/
theorem meets_precise (sql : Sql) {precise : List ConcreteIndexPrefix}
    (h : preciseMultiBranchPrefixes plan branches = some precise) :
    ∃ reads, (precise.mapM fun found =>
        ixKey plan.name found.index.name (sqlValues found.values)) = .ok reads ∧
      ∀ {stored : String → JsValue} {row : Row} {written : List Key},
        sql.StoredAs plan row stored → emitWriteKeys plan row [] = .ok written →
        SomeAdmits branches stored → Meets reads written := by
  simp only [preciseMultiBranchPrefixes, Option.bind_eq_bind, Option.bind_eq_some_iff] at h
  obtain ⟨prefixes, hprefixes, hfold⟩ := h
  obtain ⟨hbest, horigin⟩ := mapM_bestPrefix hprefixes
  set sorted := prefixes.insertionSort fun left right => left.depth ≤ right.depth with hsorted
  have hmemSorted : ∀ found, found ∈ sorted ↔ found ∈ prefixes :=
    fun found => (perm_insertionSort _ prefixes).mem_iff
  have hplanned : ∀ found ∈ sorted, Planned plan found.position found.index := by
    intro found hfound
    obtain ⟨branch, hbranch⟩ := horigin found ((hmemSorted found).1 hfound)
    exact (bestPrefix_spec hbranch).planned
  obtain ⟨-, hcovered, hretained⟩ := retainPrefixes_spec hplanned hfold
  have hkeys : ∀ found ∈ precise,
      ∃ key, ixKey plan.name found.index.name (sqlValues found.values) = .ok key :=
    fun found _ => exists_ixKey plan.name found.index.name found.values
  obtain ⟨reads, hreads, hmem⟩ := Except.exists_mapM_eq_ok hkeys
  refine ⟨reads, hreads, ?_⟩
  rintro stored row written hrow hwritten ⟨branch, hbranch, hadmits⟩
  obtain ⟨found, hfound, hbestFound⟩ := hbest branch hbranch
  obtain ⟨hsame, hfoundPlanned, -⟩ := bestPrefix_spec hbestFound
  subst hsame
  obtain ⟨values, hvalues, hspells⟩ := exists_pinnedTuple hadmits found.pins
  obtain ⟨concrete, hconcrete, hposition, hcovers⟩ :=
    hcovered found ((hmemSorted found).2 hfound) values hvalues
  obtain ⟨hconcretePlanned, hne⟩ := hretained (by simp) concrete hconcrete
  -- both tuples are of the index at one position
  have hindex : concrete.index = found.index := by
    rw [Planned, hposition, hfoundPlanned] at hconcretePlanned
    exact (Option.some.inj hconcretePlanned).symm
  obtain ⟨hshort, hle⟩ := spells_of_covered hcovers hspells
  rw [take_take] at hshort
  rw [length_take] at hle
  obtain ⟨key, hkey, hix⟩ := hmem concrete hconcrete
  have hdepth : min concrete.values.length found.depth = concrete.values.length := by omega
  rw [hdepth] at hshort
  refine ⟨key, hkey, ?_⟩
  refine mem_written_of_spells hrow hwritten (mem_of_planned hconcretePlanned)
    (length_pos_iff.2 hne) ?_ ?_ hix
  · rw [hindex]
    omega
  · rw [hindex]
    exact hshort

/-- The keys a query records are met by every write of a row that satisfies it. -/
theorem meets_predicateDependencies (plan : TablePlan)
    (hform : ∀ node ∈ predicates, node.StorageForm sql) :
    ∃ reads, predicateDependencies plan predicates = .ok reads ∧
      ∀ {stored : String → JsValue} {row : Row} {written : List Key},
        sql.StoredAs plan row stored → emitWriteKeys plan row [] = .ok written →
        sql.Matches predicates stored → Meets reads written := by
  have hadmits : ∀ {stored : String → JsValue} {row : Row}, sql.StoredAs plan row stored →
      sql.Matches predicates stored → SomeAdmits (allPredicateBranches predicates) stored :=
    fun hrow hmatches => someAdmits_allPredicateBranches hrow.stores hform hmatches
  unfold predicateDependencies
  split
  · rename_i hnone
    refine ⟨[], rfl, ?_⟩
    intro stored row written hrow _ hmatches
    have hsome := hadmits hrow hmatches
    rw [hnone] at hsome
    exact absurd hsome (not_someAdmits_of_length rfl)
  · rename_i branch hone
    obtain ⟨reads, hreads, hmeets⟩ := meets_recordBranch sql plan branch
    refine ⟨reads, hreads, ?_⟩
    intro stored row written hrow hwritten hmatches
    have hsome := hadmits hrow hmatches
    rw [hone] at hsome
    obtain ⟨only, hmem, hadmitted⟩ := hsome
    rw [mem_singleton] at hmem
    subst hmem
    exact hmeets hrow hwritten hadmitted
  split
  · rename_i precise hprecise
    obtain ⟨reads, hreads, hmeets⟩ := meets_precise sql hprecise
    exact ⟨reads, hreads, fun hrow hwritten hmatches =>
      hmeets hrow hwritten (hadmits hrow hmatches)⟩
  obtain ⟨reads, hreads, hmeets⟩ :=
    meets_recordBranch sql plan (commonBranch (allPredicateBranches predicates))
  exact ⟨reads, hreads, fun hrow hwritten hmatches =>
    hmeets hrow hwritten (admits_commonBranch (hadmits hrow hmatches))⟩

/-! ## No change goes unseen -/

/-- The rows of a table that a query selects. -/
def matchingRows (sql : Sql) (plan : TablePlan) (predicates : List PredicateNode)
    (table : Table) : Set (Int × Row) :=
  { entry | table entry.1 = some entry.2 ∧
    ∃ stored, sql.StoredAs plan entry.2 stored ∧ sql.Matches predicates stored }

/-- **Reactive reads are sound.**  Recording a query's dependencies succeeds; every row
that satisfies its predicates emits one of the recorded keys when it is written; and a
write that changes the rows the query selects has a recorded key in its write set. -/
theorem recordPredicateDependencies_sound (sql : Sql) (plan : TablePlan)
    (predicates : List PredicateNode) (hform : ∀ node ∈ predicates, node.StorageForm sql)
    (reads : List Key) :
    ∃ added, recordPredicateDependencies plan predicates reads = .ok (reads ++ added) ∧
      (∀ row stored written, sql.StoredAs plan row stored → sql.Matches predicates stored →
        emitWriteKeys plan row [] = .ok written → Meets added written) ∧
      ∀ (write : Write) before after, write.run plan before = .ok after →
        matchingRows sql plan predicates after.table ≠
          matchingRows sql plan predicates before.table →
        Meets added after.keys := by
  obtain ⟨added, hadded, hmeets⟩ := meets_predicateDependencies plan hform
  refine ⟨added, by rw [recordPredicateDependencies, hadded]; rfl,
    fun row stored written hrow hmatches hwritten => hmeets hrow hwritten hmatches, ?_⟩
  intro write before after hrun hchanged
  have hspec := Write.run_spec hrun
  -- a selected row version whose keys were emitted is enough
  have hversion : ∀ (version : Option Row) (row : Row), version = some row →
      Emitted plan version after.keys →
      (∃ stored, sql.StoredAs plan row stored ∧ sql.Matches predicates stored) →
      Meets added after.keys := by
    rintro version row hrow hemitted ⟨stored, hstored, hmatches⟩
    obtain ⟨written, hwritten, hsub⟩ := hemitted row hrow
    obtain ⟨key, hkey, hmem⟩ := hmeets hstored hwritten hmatches
    exact ⟨key, hkey, hsub key hmem⟩
  by_contra hnone
  apply hchanged
  ext ⟨id, row⟩
  by_cases hsame : after.table id = before.table id
  · simp only [matchingRows, Set.mem_ofPred_eq, hsame]
  obtain ⟨hold, hnew⟩ := hspec.emitted id hsame
  constructor
  · rintro ⟨hrow, hselected⟩
    exact absurd (hversion _ row hrow hnew hselected) hnone
  · rintro ⟨hrow, hselected⟩
    exact absurd (hversion _ row hrow hold hselected) hnone

/-- Storage by value: every column compares like SameValueZero. -/
def exactSql : Sql where
  Stores := fun _ _ => True
  compare := fun _ op left right =>
    match op with
    | .eq => JsValue.sameValueZero left right
    | .ne => !JsValue.sameValueZero left right
    | _ => false
  eq_iff := fun _ _ _ _ _ => Iff.rfl

/-- A table with one index, whose columns are stored as they are. -/
def accountsPlan : TablePlan where
  name := "accounts"
  displayName := "accounts"
  pk := "id"
  columns := ["id", "owner", "balance"].map fun column => (column, ⟨fun value => .ok [value]⟩)
  indexes := [⟨"byOwner", ["owner", "balance"]⟩]
  fullText := []

/-- The row of one account. -/
def accountRow : Row
  | "id" => .bigint 1
  | "owner" => .string "ada"
  | "balance" => .number .negZero
  | _ => .undefined

theorem accountRow_storedAs : exactSql.StoredAs accountsPlan accountRow accountRow where
  value := by
    intro column columnPlan hlookup
    have hplan : columnPlan = ⟨fun value => .ok [value]⟩ := by
      obtain ⟨before, after, hcolumns, -⟩ := lookup_eq_some_iff.1 hlookup
      have hmem : (column, columnPlan) ∈ accountsPlan.columns := by simp [hcolumns]
      obtain ⟨name, -, heq⟩ := mem_map.1 hmem
      exact (Prod.mk.inj heq).2.symm
    rw [TablePlan.storedValue, hlookup, hplan]
    rfl
  stores := fun _ => trivial

/-- An account of the queried owner with a balance of minus zero: the query that asks for
the balance zero records a key that writing the account emits. -/
theorem recordPredicateDependencies_sound_account :
    ∃ added written,
      recordPredicateDependencies accountsPlan
        [.comparison "owner" .eq (.string "ada"), .in "balance" [.number (.finite 0)]] [] =
          .ok ([] ++ added) ∧
      emitWriteKeys accountsPlan accountRow [] = .ok written ∧ Meets added written := by
  obtain ⟨added, hadded, hmeets, -⟩ := recordPredicateDependencies_sound exactSql accountsPlan
    [.comparison "owner" .eq (.string "ada"), .in "balance" [.number (.finite 0)]]
    (by simp [PredicateNode.StorageForm, exactSql]) []
  have hwritten : ∃ written, emitWriteKeys accountsPlan accountRow [] = .ok written := ⟨_, rfl⟩
  obtain ⟨written, hwritten⟩ := hwritten
  exact ⟨added, written, hadded, hwritten,
    hmeets accountRow accountRow written accountRow_storedAs (by decide) hwritten⟩

/-! ## The expansion is bounded -/

theorem one_le_keys : 1 ≤ maxReactiveDependencyKeys := by decide

theorem length_andBranches (hleft : left.length ≤ maxReactiveDependencyKeys)
    (hright : right.length ≤ maxReactiveDependencyKeys) :
    (andBranches left right).length ≤ maxReactiveDependencyKeys := by
  unfold andBranches
  split_ifs with _ _ _ hproduct
  · exact Nat.zero_le _
  · exact hright
  · exact hleft
  · cases mergeBranches (commonBranch left) (commonBranch right) <;> simp [one_le_keys]
  rw [length_flatMap]
  refine (sum_le_card_nsmul _ right.length ?_).trans (by simpa using hproduct)
  simp [length_filterMap_le]

theorem length_orBranches (hleft : left.length ≤ maxReactiveDependencyKeys)
    (hright : right.length ≤ maxReactiveDependencyKeys) :
    (orBranches left right).length ≤ maxReactiveDependencyKeys := by
  unfold orBranches
  split_ifs with _ _ hjoined
  · exact hright
  · exact hleft
  · exact hjoined
  · exact one_le_keys

theorem length_exactBranchesLoop {values : List JsValue} {exact : ExactValues} :
    (exactBranchesLoop column values exact).length ≤ 1 := by
  induction values generalizing exact with
  | nil =>
    unfold exactBranchesLoop
    split <;> simp
  | cons _ _ ih =>
    unfold exactBranchesLoop
    dsimp only
    split_ifs
    · exact le_rfl
    · exact ih
    · exact le_rfl

theorem length_predicateBranches (node : PredicateNode) :
    (predicateBranches node).length ≤ maxReactiveDependencyKeys := by
  have hvalue (column : String) (value : JsValue) :
      (exactValueBranch column value).length ≤ maxReactiveDependencyKeys := by
    unfold exactValueBranch
    split <;> exact one_le_keys
  induction node with
  | comparison | null =>
    unfold predicateBranches
    split
    · exact hvalue _ _
    · exact one_le_keys
  | «in» => exact length_exactBranchesLoop.trans one_le_keys
  | between | not => exact one_le_keys
  | and _ _ ihLeft ihRight => exact length_andBranches ihLeft ihRight
  | or _ _ ihLeft ihRight => exact length_orBranches ihLeft ihRight

theorem length_allPredicateBranches (predicates : List PredicateNode) :
    (allPredicateBranches predicates).length ≤ maxReactiveDependencyKeys := by
  cases predicates with
  | nil => exact one_le_keys
  | cons first rest =>
    exact foldlRecOn (motive := (length · ≤ maxReactiveDependencyKeys)) rest _
      (length_predicateBranches first)
      fun _ hbranches node _ => length_andBranches hbranches (length_predicateBranches node)

/-- The floor division of `bestPrefix` bounds the Cartesian product. -/
theorem length_pinnedTuples {keyCount depth : Nat} (hcount : keyCount ≤ maxReactiveDependencyKeys)
    (hdepth : depth ≤ (pinnedDepth branch columns keyCount).1)
    (hpins : Pins branch (columns.take depth)) :
    keyCount * (pinnedTuples branch (columns.take depth) hpins).length ≤
      maxReactiveDependencyKeys := by
  induction columns generalizing keyCount depth with
  | nil => simpa [pinnedTuples] using hcount
  | cons column rest ih =>
    cases depth with
    | zero => simpa [pinnedTuples] using hcount
    | succ depth =>
      unfold pinnedDepth at hdepth
      split at hdepth
      · cases hdepth
      rename_i exact hexact
      split_ifs at hdepth with hfits
      · cases hdepth
      have hproduct : keyCount * exact.values.list.length ≤ maxReactiveDependencyKeys :=
        (Nat.mul_le_mul_left _ (not_lt.1 hfits)).trans (Nat.mul_div_le _ _)
      have hdeeper := ih hproduct (Nat.le_of_succ_le_succ hdepth)
        fun c hc => hpins c (mem_cons_of_mem _ hc)
      simpa [pinnedTuples, hexact, length_flatMap, Nat.mul_assoc] using hdeeper

theorem length_mapM_eq {α : Type} {items : List α} {f : α → Except JsError Key} {keys : List Key}
    (h : items.mapM f = .ok keys) : keys.length = items.length := by
  induction items generalizing keys with
  | nil =>
    cases h
    rfl
  | cons _ _ ih =>
    simp only [mapM_cons, Except.bind_eq_ok] at h
    obtain ⟨_, _, _, hothers, h⟩ := h
    cases h
    rw [length_cons, length_cons, ih hothers]

theorem foldlM_invariant {α β : Type} {P : β → Prop} {f : β → α → Option β} {items : List α}
    (hstep : ∀ {kept item result}, P kept → f kept item = some result → P result)
    {kept result : β} (hkept : P kept) (h : items.foldlM f kept = some result) : P result := by
  induction items generalizing kept with
  | nil =>
    cases h
    exact hkept
  | cons _ _ ih =>
    rw [foldlM_cons, Option.bind_eq_bind, Option.bind_eq_some_iff] at h
    obtain ⟨_, hmiddle, hrest⟩ := h
    exact ih (hstep hkept hmiddle) hrest

theorem length_preciseMultiBranchPrefixes
    (h : preciseMultiBranchPrefixes plan branches = some retained) :
    retained.length ≤ maxReactiveDependencyKeys := by
  have htuple {found values} {kept out : List ConcreteIndexPrefix}
      (hkept : kept.length ≤ maxReactiveDependencyKeys)
      (hout : retainTuple found kept values = some out) :
      out.length ≤ maxReactiveDependencyKeys := by
    unfold retainTuple at hout
    split_ifs at hout with _ hfull
    · cases hout
      exact hkept
    · cases hout
      rw [length_append]
      exact lt_of_le_of_ne hkept hfull
  simp only [preciseMultiBranchPrefixes, Option.bind_eq_bind, Option.bind_eq_some_iff] at h
  obtain ⟨_, -, hfold⟩ := h
  exact foldlM_invariant (P := (length · ≤ maxReactiveDependencyKeys))
    (fun hkept => foldlM_invariant htuple hkept) (Nat.zero_le _) hfold

theorem length_predicateDependencies (plan : TablePlan) (predicates : List PredicateNode) :
    ∃ keys, predicateDependencies plan predicates = .ok keys ∧
      keys.length ≤ maxReactiveDependencyKeys := by
  have hbranch (branch : Branch) : ∃ keys, recordBranch plan branch = .ok keys ∧
      keys.length ≤ maxReactiveDependencyKeys := by
    unfold recordBranch
    split
    · exact ⟨_, rfl, one_le_keys⟩
    rename_i found hbest
    obtain ⟨rfl, -, hdepth⟩ := bestPrefix_spec hbest
    obtain ⟨keys, hkeys, -⟩ := Except.exists_mapM_eq_ok fun values (_ : values ∈ found.tuples) =>
      exists_ixKey plan.name found.index.name values
    refine ⟨keys, hkeys, ?_⟩
    rw [length_mapM_eq hkeys, ← Nat.one_mul (length _)]
    exact length_pinnedTuples one_le_keys hdepth.le found.pins
  unfold predicateDependencies
  split
  · exact ⟨_, rfl, Nat.zero_le _⟩
  · exact hbranch _
  split
  · rename_i precise hprecise
    obtain ⟨keys, hkeys, -⟩ := Except.exists_mapM_eq_ok fun found (_ : found ∈ precise) =>
      exists_ixKey plan.name found.index.name found.values
    exact ⟨keys, hkeys, length_mapM_eq hkeys ▸ length_preciseMultiBranchPrefixes hprecise⟩
  · exact hbranch _

/-- **Recording is bounded.**  It ends with at most 64 new keys for every plan and every list of
trees.  Each step returns at most 64 branches; an `or` joins up to twice as many before it
widens them. -/
theorem recordPredicateDependencies_bounded :
    (∀ node, (predicateBranches node).length ≤ maxReactiveDependencyKeys) ∧
      (∀ predicates, (allPredicateBranches predicates).length ≤ maxReactiveDependencyKeys) ∧
      (∀ left right, (predicateBranches left ++ predicateBranches right).length ≤
        2 * maxReactiveDependencyKeys) ∧
      ∀ plan predicates reads, ∃ keys,
        recordPredicateDependencies plan predicates reads = .ok (reads ++ keys) ∧
          keys.length ≤ maxReactiveDependencyKeys := by
  refine ⟨length_predicateBranches, length_allPredicateBranches, ?_, ?_⟩
  · intro left right
    rw [length_append, Nat.two_mul]
    exact Nat.add_le_add (length_predicateBranches left) (length_predicateBranches right)
  intro plan predicates reads
  obtain ⟨keys, hkeys, hlength⟩ := length_predicateDependencies plan predicates
  exact ⟨keys, by rw [recordPredicateDependencies, hkeys]; rfl, hlength⟩

/-- Two alternatives of 33 branches each are joined before the list is widened. -/
theorem orBranches_joins_sixty_six :
    ∃ left right, maxReactiveDependencyKeys <
      (predicateBranches left ++ predicateBranches right).length := by
  let isOpen := PredicateNode.null "closedAt" true
  let many := (replicate 32 isOpen).foldl .or isOpen
  exact ⟨many, many, by decide⟩

end AckerDB
