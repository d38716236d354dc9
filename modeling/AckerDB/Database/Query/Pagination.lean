import AckerDB.Database.Query.Cursor

/-!
# Table queries and their pages

The builder of a table query, the statement it runs, and `paginate`, which cuts a page by a number
of rows and by a byte budget and resumes after the last row it returned.

* `TableQuery` — the predicates and the order, over columns that can be ordered by;
* `page`, `paginate` — one page; `followPages` — page after page, from cursor to cursor;
* `pages_are_exact` — the pages are the rows of `collect`, each once and in order, exactly when the
  parameters of every cursor still fit beside those of the predicates.
-/

namespace AckerDB

open JsValue Except List

/-! ## Parameters -/

/-- The parameters of a tree, in the order of their placeholders. -/
def PredicateNode.params : PredicateNode → List JsValue
  | .comparison _ _ value => [value]
  | .in _ values => values
  | .between _ lower upper => [lower, upper]
  | .null _ _ => []
  | .and left right => left.params ++ right.params
  | .or left right => left.params ++ right.params
  | .not expression => expression.params

/-- `compilePredicateSql`, on the parameters it appends to. -/
def compilePredicateSql (parameterLimit : Nat) (path : String) :
    PredicateNode → List JsValue → Except JsError (List JsValue)
  | .comparison _ _ value, params => .ok (params ++ [value])
  | .in _ [], params => .ok params
  | .in _ values, params =>
    if parameterLimit < params.length + values.length then
      .error (.validationError (path ++ ": statement requires at least " ++
        (params.length + values.length).repr ++ " parameters; SQLite supports at most " ++
        parameterLimit.repr))
    else .ok (params ++ values)
  | .between _ lower upper, params => .ok (params ++ [lower, upper])
  | .null _ _, params => .ok params
  | .not expression, params => compilePredicateSql parameterLimit path expression params
  | .and left right, params => do
      let params ← compilePredicateSql parameterLimit path left params
      compilePredicateSql parameterLimit path right params
  | .or left right, params => do
      let params ← compilePredicateSql parameterLimit path left params
      compilePredicateSql parameterLimit path right params

/-- The error of a statement with too many parameters. -/
def tooManyParameters (path : String) (count parameterLimit : Nat) : JsError :=
  .validationError (path ++ ": statement requires " ++ count.repr ++
    " parameters; SQLite supports at most " ++ parameterLimit.repr)

/-- `compilePredicates`. -/
def compilePredicates (parameterLimit : Nat) (path : String) (nodes : List PredicateNode) :
    Except JsError (List JsValue) := do
  let params ← nodes.foldlM
    (fun params node => compilePredicateSql parameterLimit path node params) []
  if parameterLimit < params.length then
    .error (tooManyParameters path params.length parameterLimit)
  else .ok params

/-- The parameters of a list of trees. -/
def paramsOf (nodes : List PredicateNode) : List JsValue := nodes.flatMap PredicateNode.params

/-! ## Queries -/

/-- `QueryState`; every ordering column can be ordered by. -/
structure TableQuery (plan : QueryPlan) where
  predicates : List PredicateNode
  order : List QueryOrder
  orderable : ∀ o ∈ order, plan.Orderable o.column

/-- The stored rows of a table: they satisfy their validators, and the primary key is unique. -/
structure TableContent (sql : OrderedSql) (plan : QueryPlan) where
  rows : List StoredRow
  accepted : ∀ row ∈ rows, ∀ name column, plan.scalar? name = some column →
    column.Accepts (row name)
  stores : ∀ row ∈ rows, sql.Stores plan.pk (row plan.pk)
  distinct : rows.Pairwise fun a b => a plan.pk ≠ b plan.pk

/-- `PaginationResult`. -/
structure PaginationResult where
  items : List (List (String × JsValue))
  nextCursor : Option Cursor

/-- `PaginationOptions`; an absent cursor is `none`. -/
structure PaginationOptions where
  cursor : Option Cursor
  pageSize : JsValue

/-- `MAX_PAGE_SIZE`. -/
def maxPageSize : Nat := 256

/-- `MAX_PAGE_BYTES`. -/
def maxPageBytes : Nat := 512 * 1024

/-- The bytes a page is charged for a cell. -/
def cellBytes : JsValue → Nat
  | .null => 4
  | .string text => text.utf8ByteSize + 2
  | .bigint _ => 36
  | .bytes value => (value.length + 2) / 3 * 4 + 16
  | _ => 24

/-- `pageRowBytes`. -/
def pageRowBytes (plan : QueryPlan) (raw : String → JsValue) : Nat :=
  (plan.physOrder.map fun name => jsLength name + 3 + cellBytes (raw name)).sum

/-- The rows a page admits: the first always, the others while they fit in the budget.  The flag
says that one did not fit. -/
def admitRows (plan : QueryPlan) (items : List (List (String × JsValue))) (bytes : Nat) :
    List (String → JsValue) → List (List (String × JsValue)) × Bool
  | [] => (items, false)
  | raw :: rest =>
    if items ≠ [] ∧ maxPageBytes < bytes + pageRowBytes plan raw then (items, true)
    else admitRows plan (items ++ [plan.rowFromSql raw]) (bytes + pageRowBytes plan raw) rest

namespace TableQuery

variable {plan : QueryPlan}

section

variable (query : TableQuery plan)

/-- `orderBy`, once its callback is resolved. -/
def orderBy (o : QueryOrder) (ho : plan.Orderable o.column) :
    Except JsError (TableQuery plan) :=
  if query.order ≠ [] then
    .error (.validationError (plan.displayName ++ ".query: .orderBy() may only be called once"))
  else .ok { predicates := query.predicates, order := [o], orderable := by simpa using ho }

/-- `thenBy`, once its callback is resolved. -/
def thenBy (o : QueryOrder) (ho : plan.Orderable o.column) :
    Except JsError (TableQuery plan) :=
  if query.order = [] then
    .error (.validationError (plan.displayName ++ ".query: .thenBy() requires .orderBy()"))
  else if query.order.any fun other => other.column = o.column then
    .error (.validationError (plan.displayName ++ ".query: column \"" ++ o.column ++
      "\" is ordered more than once"))
  else
    .ok {
      predicates := query.predicates
      order := query.order ++ [o]
      orderable := by
        intro other hother
        rcases mem_append.1 hother with h | h
        · exact query.orderable other h
        · cases mem_singleton.1 h
          exact ho }

/-- The terms `orderSql` writes. -/
def orderSql : List QueryOrder :=
  match query.order with
  | [] => [⟨plan.pk, .asc⟩]
  | order =>
    let includesPrimaryKey := order.any fun o => o.column = plan.pk
    order ++ if includesPrimaryKey then [] else [⟨plan.pk, .asc⟩]

/-- `paginationOrder`. -/
def paginationOrder : List QueryOrder :=
  if query.order = [] then [⟨plan.pk, .asc⟩]
  else if query.order.any fun o => o.column = plan.pk then query.order
  else query.order ++ [⟨plan.pk, .asc⟩]

end

section Statement

variable (sql : OrderedSql) (parameterLimit : Nat) (query : TableQuery plan)
  (content : TableContent sql plan)

/-- `statement`, by its parameters. -/
def statement (cursor : Option PredicateNode) : Except JsError (List JsValue) := do
  let path := plan.displayName ++ ".query"
  let params ← compilePredicates parameterLimit path query.predicates
  let params := params ++ paramsOf cursor.toList
  if parameterLimit < params.length then
    .error (tooManyParameters path params.length parameterLimit)
  else .ok params

/-- The rows the `WHERE` selects, in the order of the `ORDER BY`. -/
def selected (cursor : Option PredicateNode) : List StoredRow :=
  Keyset.orderBy (query.orderSql.map sql.term)
    (content.rows.filter fun row => sql.Matches (query.predicates ++ cursor.toList) row)

/-- `rawRows`; without a limit, `none`. -/
def rawRows (limit : Option Nat) (cursor : Option PredicateNode) :
    Except JsError (List (String → JsValue)) := do
  let _ ← query.statement parameterLimit cursor
  let rows := query.selected sql content cursor
  return ((limit.elim rows fun limit => rows.take limit).map plan.rawRow)

/-- `collect`. -/
def collect : Except JsError (List (List (String × JsValue))) := do
  let raws ← query.rawRows sql parameterLimit content none none
  return raws.map plan.rowFromSql

/-- The condition a cursor stands for. -/
def resolveCursor : Option Cursor → Except JsError (Option PredicateNode)
  | none => .ok none
  | some cursor => do
      let values ← Cursor.parseCursor cursor plan query.paginationOrder
      return some (Cursor.cursorPredicate query.paginationOrder values)

/-- The two bounds of a page, on one row more than the page may hold. -/
def cutPage (pageSize : Nat) (raws : List (String → JsValue)) :
    Except JsError PaginationResult :=
  let beyondPage := decide (pageSize < raws.length)
  let raws := if beyondPage then raws.dropLast else raws
  let (items, beyondBudget) := admitRows plan [] 0 raws
  match items.getLast? with
  | some last =>
    if beyondPage || beyondBudget then do
      let values ← Cursor.cursorValues plan query.paginationOrder last
      return { items := items, nextCursor := some (Cursor.opaqueCursor values) }
    else .ok { items := items, nextCursor := none }
  | none => .ok { items := items, nextCursor := none }

/-- `page`. -/
def page (cursor : Option Cursor) (pageSize : Nat) : Except JsError PaginationResult := do
  let predicate ← query.resolveCursor cursor
  let raws ← query.rawRows sql parameterLimit content (some (pageSize + 1)) predicate
  query.cutPage pageSize raws

/-- `paginate`. -/
def paginate (options : PaginationOptions) : Except JsError PaginationResult :=
  let path := plan.displayName ++ ".query.paginate: "
  match options.pageSize.integer? with
  | none => .error (.validationError (path ++ "pageSize must be a positive safe integer"))
  | some size =>
    if !isSafeInteger options.pageSize || size ≤ 0 then
      .error (.validationError (path ++ "pageSize must be a positive safe integer"))
    else if (maxPageSize : Int) < size then
      .error (.validationError (path ++ "pageSize must be at most " ++ maxPageSize.repr))
    else query.page sql parameterLimit content options.cursor size.toNat

end Statement

end TableQuery

variable {path : String} {params : List JsValue}

/-- Follow the cursors from page to page; nothing if a page throws or the fuel runs out. -/
def followPages (next : Nat → Option Cursor → Except JsError PaginationResult) :
    Nat → Nat → Option Cursor → Option (List PaginationResult)
  | 0, _, _ => none
  | fuel + 1, index, cursor =>
    match next index cursor with
    | .error _ => none
    | .ok page =>
      match page.nextCursor with
      | none => some [page]
      | some cursor => (followPages next fuel (index + 1) (some cursor)).map (page :: ·)

/-! ## Compiling parameters -/

variable {parameterLimit : Nat} {node : PredicateNode} {out : List JsValue}

theorem compilePredicateSql_eq (h : compilePredicateSql parameterLimit path node params = .ok out) :
    out = params ++ node.params := by
  induction node generalizing params out with
  | comparison | between | null =>
    cases h
    simp [PredicateNode.params]
  | «in» column values =>
    cases values with
    | nil =>
      cases h
      simp [PredicateNode.params]
    | cons =>
      simp only [compilePredicateSql] at h
      split_ifs at h
      · cases h
        rfl
  | not expression ih => exact ih h
  | and left right ihleft ihright | or left right ihleft ihright =>
    simp only [compilePredicateSql] at h
    obtain ⟨middle, hmiddle, hout⟩ := bind_eq_ok.1 h
    rw [ihright hout, ihleft hmiddle, PredicateNode.params, append_assoc]

theorem compilePredicateSql_ok (h : params.length + node.params.length ≤ parameterLimit) :
    compilePredicateSql parameterLimit path node params = .ok (params ++ node.params) := by
  induction node generalizing params with
  | comparison | between | null => simp [compilePredicateSql, PredicateNode.params]
  | «in» column values =>
    cases values with
    | nil => simp [compilePredicateSql, PredicateNode.params]
    | cons =>
      simp only [PredicateNode.params] at h
      simp only [compilePredicateSql]
      rw [if_neg (Nat.not_lt.2 h)]
      rfl
  | not expression ih => exact ih h
  | and left right ihleft ihright | or left right ihleft ihright =>
    simp only [PredicateNode.params, length_append] at h
    have hleft : compilePredicateSql parameterLimit path left params =
        .ok (params ++ left.params) := ihleft (by omega)
    have hright : compilePredicateSql parameterLimit path right (params ++ left.params) =
        .ok (params ++ left.params ++ right.params) := ihright (by simp; omega)
    simp [compilePredicateSql, hleft, hright, PredicateNode.params]

variable {nodes : List PredicateNode}

theorem compileAll_eq
    (h : nodes.foldlM (fun params node => compilePredicateSql parameterLimit path node params)
      params = .ok out) : out = params ++ paramsOf nodes := by
  induction nodes generalizing params with
  | nil =>
    cases h
    simp [paramsOf]
  | cons node nodes ih =>
    rw [foldlM_cons] at h
    obtain ⟨middle, hmiddle, hout⟩ := bind_eq_ok.1 h
    rw [ih hout, compilePredicateSql_eq hmiddle]
    simp [paramsOf]

theorem compileAll_ok (h : params.length + (paramsOf nodes).length ≤ parameterLimit) :
    nodes.foldlM (fun params node => compilePredicateSql parameterLimit path node params) params
      = .ok (params ++ paramsOf nodes) := by
  induction nodes generalizing params with
  | nil => simp [paramsOf]
  | cons node nodes ih =>
    simp only [paramsOf, flatMap_cons, length_append] at h
    have hnode : compilePredicateSql parameterLimit path node params =
        .ok (params ++ node.params) := compilePredicateSql_ok (by omega)
    have hrest : (params ++ node.params).length + (paramsOf nodes).length ≤ parameterLimit := by
      rw [length_append, paramsOf]
      omega
    rw [foldlM_cons, hnode, ok_bind, ih hrest]
    simp [paramsOf]

/-- **A statement fits exactly when its parameters do.** -/
theorem statement_eq_ok_iff {plan : QueryPlan} {query : TableQuery plan}
    {cursor : Option PredicateNode} :
    (∃ params, query.statement parameterLimit cursor = .ok params) ↔
      (paramsOf query.predicates).length + (paramsOf cursor.toList).length ≤ parameterLimit := by
  unfold TableQuery.statement compilePredicates
  dsimp only
  constructor
  · rintro ⟨params, h⟩
    obtain ⟨compiled, hcompiled, hrest⟩ := bind_eq_ok.1 h
    obtain ⟨params', hparams', hlimit⟩ := bind_eq_ok.1 hcompiled
    rw [compileAll_eq hparams'] at hlimit
    split_ifs at hlimit
    cases hlimit
    split_ifs at hrest
    · rename_i hfits
      rw [length_append, nil_append] at hfits
      exact Nat.not_lt.1 hfits
  intro h
  have hpredicates : ¬ parameterLimit < (paramsOf query.predicates).length := by omega
  have hall : ¬ parameterLimit <
      (paramsOf query.predicates ++ paramsOf cursor.toList).length := by
    rw [length_append]
    omega
  refine ⟨paramsOf query.predicates ++ paramsOf cursor.toList, ?_⟩
  rw [compileAll_ok (by rw [length_nil]; omega), nil_append, ok_bind,
    if_neg hpredicates, ok_bind, if_neg hall]

namespace TableQuery

variable {plan : QueryPlan} {sql : OrderedSql} {parameterLimit : Nat} {query : TableQuery plan}
  {content : TableContent sql plan}

variable {rest returned : List StoredRow} {cursor : Option Cursor}

/-! ## The order of a query -/

section

variable (query : TableQuery plan)

theorem orderSql_eq : query.orderSql = query.paginationOrder := by
  unfold orderSql paginationOrder
  split
  · rename_i hnil
    simp [hnil]
  rename_i hne
  have horder : query.order ≠ [] := fun h => hne h
  rw [if_neg horder]
  split <;> simp_all

theorem orderable_pk (plan : QueryPlan) : plan.Orderable plan.pk := by
  obtain ⟨column, hcolumn, hkind, -⟩ := plan.hasPk
  exact ⟨column, by simp [QueryPlan.scalar?, hcolumn], by rw [hkind]; rfl⟩

theorem mem_paginationOrder_pk :
    ∃ o ∈ query.paginationOrder, o.column = plan.pk := by
  unfold paginationOrder
  split
  · exact ⟨_, mem_singleton_self _, rfl⟩
  split
  · rename_i hany
    simpa using hany
  · exact ⟨⟨plan.pk, .asc⟩, by simp, rfl⟩

theorem paginationOrder_orderable :
    ∀ o ∈ query.paginationOrder, plan.Orderable o.column := by
  intro o ho
  unfold paginationOrder at ho
  split at ho
  · cases mem_singleton.1 ho
    exact orderable_pk plan
  split at ho
  · exact query.orderable o ho
  rcases mem_append.1 ho with h | h
  · exact query.orderable o h
  · cases mem_singleton.1 h
    exact orderable_pk plan

/-- The stored row fits the cursors of the query. -/
theorem fits_of_mem {row : StoredRow} (hrow : row ∈ content.rows) :
    Cursor.Fits plan query.paginationOrder row := by
  intro o ho
  obtain ⟨column, hcolumn, horderable⟩ := query.paginationOrder_orderable o ho
  exact ⟨column, hcolumn, horderable, content.accepted row hrow _ _ hcolumn⟩

/-- Two rows with the same primary key are the same row. -/
theorem pk_eq_of_cellKey {a b : StoredRow} (ha : a ∈ content.rows) (hb : b ∈ content.rows)
    (h : sql.cellKey plan.pk (a plan.pk) = sql.cellKey plan.pk (b plan.pk)) :
    a plan.pk = b plan.pk := by
  obtain ⟨column, hcolumn, hkind, hnullable⟩ := plan.hasPk
  have hscalar : plan.scalar? plan.pk = some column := by simp [QueryPlan.scalar?, hcolumn]
  have hbigint : ∀ row ∈ content.rows, ∃ n, row plan.pk = .bigint n := by
    intro row hrow
    rcases content.accepted row hrow _ _ hscalar with ⟨-, hnull⟩ | ⟨hstores, -⟩
    · rw [hnullable] at hnull
      cases hnull
    rw [hkind] at hstores
    cases hcell : row plan.pk with
    | bigint n => exact ⟨n, rfl⟩
    | _ => rw [hcell] at hstores; cases hstores
  obtain ⟨n, hn⟩ := hbigint a ha
  obtain ⟨m, hm⟩ := hbigint b hb
  have hstoresA := content.stores a ha
  have hstoresB := content.stores b hb
  rw [hn, hm] at h
  rw [hn] at hstoresA
  rw [hm] at hstoresB
  have hkey : sql.key plan.pk (.bigint n) = sql.key plan.pk (.bigint m) := by
    simpa [OrderedSql.cellKey] using h
  have hcompare := (sql.eq_iff plan.pk _ _ hstoresA hstoresB).1 ((sql.compare_eq _ _ _).2 hkey)
  have hzeroed := (sameValueZero_iff _ _).1 hcompare
  rw [hn, hm]
  exact hzeroed

theorem distinguished (content : TableContent sql plan) :
    Keyset.Distinguished (query.paginationOrder.map sql.term) content.rows := by
  obtain ⟨o, ho, hpk⟩ := query.mem_paginationOrder_pk
  refine Pairwise.imp_of_mem ?_ content.distinct
  intro a b ha hb hne htied
  have hkey := htied _ (mem_map_of_mem ho)
  simp only [OrderedSql.term, hpk] at hkey
  exact hne (pk_eq_of_cellKey ha hb hkey)

end

/-- **What a cursor selects**: the rows after its row. -/
theorem selected_after {before : List StoredRow} {pivot : StoredRow}
    (h : query.selected sql content none = before ++ pivot :: rest) :
    query.selected sql content (some (Cursor.cursorPredicate query.paginationOrder
      (query.paginationOrder.map fun o => pivot o.column))) = rest := by
  have hdistinct := query.distinguished content
  have horder : query.paginationOrder ≠ [] := by
    obtain ⟨o, ho, -⟩ := query.mem_paginationOrder_pk
    exact ne_nil_of_mem ho
  have hfilter : content.rows.filter (fun row => sql.Matches (query.predicates ++
        (some (Cursor.cursorPredicate query.paginationOrder
          (query.paginationOrder.map fun o => pivot o.column))).toList) row) =
      (content.rows.filter fun row => sql.Matches query.predicates row).filter
        fun row => decide (Keyset.Before (query.paginationOrder.map sql.term) pivot row) := by
    rw [filter_filter]
    apply filter_congr
    intro row _
    have hcursor := @Cursor.holds_cursorPredicate sql _ horder pivot row
    simp only [Option.toList, Sql.matches_iff, forall_mem_append, forall_mem_singleton,
      hcursor, Bool.decide_and]
    exact Bool.and_comm _ _
  unfold selected at h ⊢
  rw [orderSql_eq] at h ⊢
  simp only [Option.toList_none, append_nil] at h
  have hsorted := Keyset.orderBy_pairwise
    (hdistinct.filter fun row => sql.Matches query.predicates row)
  rw [hfilter, Keyset.filter_orderBy (hdistinct.filter _), h]
  rw [h] at hsorted
  exact Keyset.filter_before hsorted

/-! ## One page -/

theorem admitRows_eq (items : List (List (String × JsValue))) (bytes : Nat)
    (stored : List StoredRow) :
    ∃ taken left, stored = taken ++ left ∧
      admitRows plan items bytes (stored.map plan.rawRow) =
        (items ++ taken.map plan.logicalRow, decide (left ≠ [])) ∧
      (items = [] → stored ≠ [] → taken ≠ []) := by
  induction stored generalizing items bytes with
  | nil => exact ⟨[], [], rfl, by simp [admitRows], fun _ h => h⟩
  | cons row rest ih =>
    rw [map_cons]
    unfold admitRows
    split
    · rename_i hfull
      exact ⟨[], row :: rest, rfl, by simp, fun h => absurd h hfull.1⟩
    obtain ⟨taken, left, hsplit, hrowsCut, -⟩ :=
      ih (items ++ [plan.rowFromSql (plan.rawRow row)])
        (bytes + pageRowBytes plan (plan.rawRow row))
    refine ⟨row :: taken, left, by rw [hsplit, cons_append], ?_, fun _ _ => by simp⟩
    rw [hrowsCut]
    simp [QueryPlan.logicalRow]

/-- The cursor resumes after the rows already returned. -/
def Resumes (query : TableQuery plan) (cursor : Option Cursor) (returned : List StoredRow) : Prop :=
  (cursor = none ∧ returned = []) ∨
    ∃ init pivot text, returned = init ++ [pivot] ∧ cursor = some text ∧
      Cursor.parseCursor text plan query.paginationOrder =
        .ok (query.paginationOrder.map fun o => pivot o.column)

/-- The condition that resumes after the rows already returned. -/
def resumption (query : TableQuery plan) (returned : List StoredRow) : Option PredicateNode :=
  returned.getLast?.map fun pivot => Cursor.cursorPredicate query.paginationOrder
    (query.paginationOrder.map fun o => pivot o.column)

theorem Resumes.resolve (h : query.Resumes cursor returned) :
    query.resolveCursor cursor = .ok (query.resumption returned) := by
  rcases h with ⟨rfl, rfl⟩ | ⟨init, pivot, text, rfl, rfl, hparse⟩
  · rfl
  · simp [resolveCursor, resumption, hparse]

theorem selected_resumption (h : query.selected sql content none = returned ++ rest) :
    query.selected sql content (query.resumption returned) = rest := by
  rcases eq_nil_or_concat returned with rfl | ⟨init, pivot, rfl⟩
  · exact h
  · rw [concat_eq_append, append_assoc] at h
    have hselected := selected_after h
    simpa [resumption] using hselected

theorem mem_of_selected {cursor : Option PredicateNode} {row : StoredRow}
    (h : row ∈ query.selected sql content cursor) : row ∈ content.rows := by
  unfold selected at h
  rw [Keyset.mem_orderBy, mem_filter] at h
  exact h.1

/-- **One page of the rows that are left**: as many as fit, at least one, and a cursor exactly when
there are more. -/
theorem cutPage_eq {pageSize : Nat} (hsize : 1 ≤ pageSize) {rest : List StoredRow}
    (hrest : ∀ row ∈ rest, row ∈ content.rows) :
    ∃ taken left next, rest = taken ++ left ∧ taken.length ≤ pageSize ∧
      (rest ≠ [] → taken ≠ []) ∧
      query.cutPage pageSize ((rest.take (pageSize + 1)).map plan.rawRow) =
        .ok ⟨taken.map plan.logicalRow, next⟩ ∧
      (left = [] ∧ next = none ∨ left ≠ [] ∧ query.Resumes next taken) := by
  have hadmitted : ∃ taken left, rest.take pageSize = taken ++ left ∧
      admitRows plan [] 0 ((rest.take pageSize).map plan.rawRow) =
        ([] ++ taken.map plan.logicalRow, decide (left ≠ [])) ∧
      ([] = [] → rest.take pageSize ≠ [] → taken ≠ []) := admitRows_eq [] 0 (rest.take pageSize)
  obtain ⟨taken, spill, hsplit, hrowsCut, htaken⟩ := hadmitted
  have hbeyond : pageSize < ((rest.take (pageSize + 1)).map plan.rawRow).length ↔
      rest.drop pageSize ≠ [] := by
    rw [length_map, length_take, Ne, drop_eq_nil_iff]
    omega
  have hraws : (if decide (pageSize < ((rest.take (pageSize + 1)).map plan.rawRow).length) then
      ((rest.take (pageSize + 1)).map plan.rawRow).dropLast
      else (rest.take (pageSize + 1)).map plan.rawRow) = (rest.take pageSize).map plan.rawRow := by
    have hcount : ((rest.take (pageSize + 1)).map plan.rawRow).length =
        min (pageSize + 1) rest.length := by simp
    split
    · rename_i hlong
      rw [decide_eq_true_eq, hcount] at hlong
      have hmin : min (min (pageSize + 1) rest.length - 1) (pageSize + 1) = pageSize := by omega
      rw [← map_dropLast, dropLast_eq_take, take_take, length_take, hmin]
    · rename_i hshort
      rw [decide_eq_true_eq, hcount] at hshort
      rw [take_of_length_le (by omega), take_of_length_le (by omega)]
  have hrestSplit : rest = taken ++ (spill ++ rest.drop pageSize) := by
    rw [← append_assoc, ← hsplit, take_append_drop]
  have hlength : taken.length ≤ pageSize := by
    have := congrArg length hsplit
    rw [length_take, length_append] at this
    omega
  have hmore : (decide (pageSize < ((rest.take (pageSize + 1)).map plan.rawRow).length) ||
      decide (spill ≠ [])) = decide (spill ++ rest.drop pageSize ≠ []) := by
    rw [decide_eq_decide.2 hbeyond, ← Bool.decide_or, decide_eq_decide]
    simp only [ne_eq, append_eq_nil_iff]
    tauto
  have hnonempty : rest ≠ [] → taken ≠ [] := by
    intro hne
    apply htaken rfl
    rw [Ne, take_eq_nil_iff]
    rintro (h | h)
    · omega
    · exact hne h
  unfold cutPage
  dsimp only
  rw [hraws, hrowsCut, nil_append]
  dsimp only
  rw [hmore]
  rcases eq_nil_or_concat taken with rfl | ⟨init, pivot, rfl⟩
  · have hnil : rest = [] := by
      by_contra hne
      exact hnonempty hne rfl
    rw [nil_append] at hrestSplit
    exact ⟨[], _, none, hrestSplit, hlength, hnonempty, rfl, .inl ⟨hrestSplit.symm.trans hnil, rfl⟩⟩
  rw [concat_eq_append] at hrestSplit hlength hnonempty ⊢
  rw [map_append, map_singleton, getLast?_concat]
  by_cases hleft : spill ++ rest.drop pageSize = []
  · refine ⟨init ++ [pivot], _, none, hrestSplit, hlength, hnonempty, ?_, .inl ⟨hleft, rfl⟩⟩
    simp [hleft]
  have hpivot : pivot ∈ content.rows := by
    apply hrest
    rw [hrestSplit]
    simp
  obtain ⟨encoded, hencoded, hparse⟩ := Cursor.parseCursor_cursorValues
    (query.fits_of_mem hpivot) fun o _ column hcolumn =>
      QueryPlan.get_logicalRow hcolumn pivot
  refine ⟨init ++ [pivot], _, some (Cursor.opaqueCursor encoded), hrestSplit, hlength,
    hnonempty, ?_, .inr ⟨hleft, .inr ⟨init, pivot, _, rfl, rfl, hparse⟩⟩⟩
  simp [hleft, hencoded]

theorem page_of_fits {pageSize : Nat} (hsize : 1 ≤ pageSize)
    (hselected : query.selected sql content none = returned ++ rest)
    (hresumes : query.Resumes cursor returned) (hfits : (paramsOf query.predicates).length +
      (paramsOf (query.resumption returned).toList).length ≤ parameterLimit) :
    ∃ taken left next, rest = taken ++ left ∧ taken.length ≤ pageSize ∧
      (rest ≠ [] → taken ≠ []) ∧
      query.page sql parameterLimit content cursor pageSize =
        .ok ⟨taken.map plan.logicalRow, next⟩ ∧
      (left = [] ∧ next = none ∨ left ≠ [] ∧ query.Resumes next taken) := by
  obtain ⟨params, hparams⟩ := statement_eq_ok_iff.2 hfits
  have hrest : ∀ row ∈ rest, row ∈ content.rows := by
    intro row hrow
    have hmem : row ∈ query.selected sql content none := by
      rw [hselected]
      exact mem_append_right _ hrow
    exact mem_of_selected hmem
  have hpage : query.page sql parameterLimit content cursor pageSize =
      query.cutPage pageSize ((rest.take (pageSize + 1)).map plan.rawRow) := by
    unfold page rawRows
    rw [hresumes.resolve, ok_bind, hparams, selected_resumption hselected]
    rfl
  rw [hpage]
  exact cutPage_eq hsize hrest

theorem page_of_not_fits {pageSize : Nat} (hresumes : query.Resumes cursor returned)
    (hover : parameterLimit < (paramsOf query.predicates).length +
      (paramsOf (query.resumption returned).toList).length) :
    ∃ error, query.page sql parameterLimit content cursor pageSize = .error error := by
  unfold page rawRows
  rw [hresumes.resolve, ok_bind]
  cases hstatement : query.statement parameterLimit (query.resumption returned) with
  | error error => exact ⟨error, rfl⟩
  | ok params =>
    have hfits := statement_eq_ok_iff.1 ⟨params, hstatement⟩
    omega

/-! ## Page after page -/

/-- The next page, of a size that is asked for. -/
def nextPage (sql : OrderedSql) (parameterLimit : Nat) (query : TableQuery plan)
    (content : TableContent sql plan) (sizes : Nat → Nat) (index : Nat) (cursor : Option Cursor) :
    Except JsError PaginationResult :=
  query.paginate sql parameterLimit content
    { cursor := cursor, pageSize := .number (.finite (sizes index)) }

theorem paginate_eq {size : Nat} (hpos : 1 ≤ size) (hle : size ≤ maxPageSize)
    (cursor : Option Cursor) :
    query.paginate sql parameterLimit content
      { cursor := cursor, pageSize := .number (.finite size) } =
    query.page sql parameterLimit content cursor size := by
  have hinteger : (number (.finite size)).integer? = some (size : Int) := by
    simp [integer?]
  have hsafe : isSafeInteger (.number (.finite size)) = true := by
    unfold isSafeInteger
    rw [hinteger]
    show decide (_ ∧ _) = true
    rw [decide_eq_true_eq]
    unfold JsNumber.maxSafeInteger
    unfold maxPageSize at hle
    omega
  have hnotzero : size ≠ 0 := by omega
  have hnotover : ¬ (maxPageSize : Int) < size := by omega
  unfold paginate
  simp [hinteger, hsafe, hnotzero, hnotover]

/-- The condition of every cursor but the last row's fits beside the predicates. -/
def CursorsFit (sql : OrderedSql) (parameterLimit : Nat) (query : TableQuery plan)
    (content : TableContent sql plan) : Prop :=
  ∀ row ∈ (query.selected sql content none).dropLast,
    (paramsOf query.predicates).length +
      (Cursor.cursorPredicate query.paginationOrder
        (query.paginationOrder.map fun o => row o.column)).params.length ≤ parameterLimit

theorem CursorsFit.resumption (h : query.CursorsFit sql parameterLimit content)
    (hpredicates : (paramsOf query.predicates).length ≤ parameterLimit)
    (hselected : query.selected sql content none = returned ++ rest)
    (hrest : returned ≠ [] → rest ≠ []) :
    (paramsOf query.predicates).length +
      (paramsOf (query.resumption returned).toList).length ≤ parameterLimit := by
  rcases eq_nil_or_concat returned with rfl | ⟨init, pivot, rfl⟩
  · simpa [TableQuery.resumption, paramsOf] using hpredicates
  rw [concat_eq_append] at hselected hrest ⊢
  have hpivot : pivot ∈ (query.selected sql content none).dropLast := by
    rw [hselected, dropLast_append_of_ne_nil (hrest (by simp))]
    simp
  have hfit := h pivot hpivot
  simpa [TableQuery.resumption, paramsOf] using hfit

theorem Resumes.append {next : Option Cursor} {taken : List StoredRow} (returned : List StoredRow)
    (hne : taken ≠ []) (h : query.Resumes next taken) : query.Resumes next (returned ++ taken) := by
  rcases h with ⟨-, rfl⟩ | ⟨init, pivot, text, rfl, rfl, hparse⟩
  · exact absurd rfl hne
  · exact .inr ⟨returned ++ init, pivot, text, by simp, rfl, hparse⟩

/-- **Following the cursors returns the rows that are left.** -/
theorem followPages_exact (hfit : query.CursorsFit sql parameterLimit content)
    (hpredicates : (paramsOf query.predicates).length ≤ parameterLimit) {sizes : Nat → Nat}
    (hsizes : ∀ index, 1 ≤ sizes index ∧ sizes index ≤ maxPageSize) {index : Nat}
    (hselected : query.selected sql content none = returned ++ rest)
    (hresumes : query.Resumes cursor returned) (hrest : returned ≠ [] → rest ≠ []) :
    ∃ fuel pages,
      followPages (query.nextPage sql parameterLimit content sizes) fuel index cursor =
        some pages ∧
      pages.flatMap PaginationResult.items = rest.map plan.logicalRow ∧
      ∀ page ∈ pages.dropLast, page.items ≠ [] := by
  -- every page returns a row as long as one is left
  induction hlength : rest.length using Nat.strong_induction_on
    generalizing returned rest index cursor with
  | _ length ih =>
    have hparams := hfit.resumption hpredicates hselected hrest
    obtain ⟨taken, left, next, rfl, -, htaken, hpage, hnext⟩ :=
      page_of_fits (hsizes index).1 hselected hresumes hparams
    have hnextPage : query.nextPage sql parameterLimit content sizes index cursor =
        .ok ⟨taken.map plan.logicalRow, next⟩ := by
      unfold nextPage
      rw [paginate_eq (hsizes index).1 (hsizes index).2, hpage]
    rcases hnext with ⟨rfl, rfl⟩ | ⟨hleft, hresumes'⟩
    · refine ⟨1, [⟨taken.map plan.logicalRow, none⟩], ?_, by simp, by simp⟩
      simp [followPages, hnextPage]
    have hne : taken ≠ [] := htaken (by simp [hleft])
    have hshorter : left.length < length := by
      rw [← hlength, length_append]
      have := length_pos_iff.2 hne
      omega
    rw [← append_assoc] at hselected
    obtain ⟨fuel, pages, hpages, hitems, hnonempty⟩ : ∃ fuel pages,
        followPages (query.nextPage sql parameterLimit content sizes) fuel (index + 1) next =
          some pages ∧
        pages.flatMap PaginationResult.items = left.map plan.logicalRow ∧
        ∀ page ∈ pages.dropLast, page.items ≠ [] :=
      ih left.length hshorter hselected (hresumes'.append returned hne)
        (fun _ => hleft) rfl
    obtain ⟨text, rfl⟩ : ∃ text, next = some text := by
      rcases hresumes' with ⟨-, hnil⟩ | ⟨-, -, text, -, htext, -⟩
      · exact absurd hnil hne
      · exact ⟨text, htext⟩
    refine ⟨fuel + 1, ⟨taken.map plan.logicalRow, some text⟩ :: pages, ?_, ?_, ?_⟩
    · simp [followPages, hnextPage, hpages]
    · simp [hitems]
    have hpagesne : pages ≠ [] := by
      rintro rfl
      cases fuel with
      | zero => cases hpages
      | succ =>
        simp only [followPages] at hpages
        split at hpages
        · cases hpages
        · split at hpages <;> simp at hpages
    rw [dropLast_cons_of_ne_nil hpagesne]
    intro page hmem
    rcases mem_cons.1 hmem with rfl | hmem
    · simpa using hne
    · exact hnonempty page hmem

/-- **One cursor that does not fit is met** by pages of one row. -/
theorem followPages_fails {before after : List StoredRow} {bad : StoredRow}
    (hselected : query.selected sql content none = before ++ bad :: after) (hafter : after ≠ [])
    (hbad : parameterLimit < (paramsOf query.predicates).length +
      (Cursor.cursorPredicate query.paginationOrder
        (query.paginationOrder.map fun o => bad o.column)).params.length) (fuel index : Nat)
    (hsplit : before ++ bad :: after = returned ++ rest)
    (hlength : returned.length ≤ before.length + 1) (hresumes : query.Resumes cursor returned) :
    followPages (query.nextPage sql parameterLimit content fun _ => 1) fuel index cursor =
      none := by
  induction fuel generalizing index cursor returned rest with
  | zero => rfl
  | succ fuel ih =>
    have hnext : query.nextPage sql parameterLimit content (fun _ => 1) index cursor =
        query.page sql parameterLimit content cursor 1 :=
      paginate_eq (le_refl 1) (by decide) cursor
    by_cases hfits : (paramsOf query.predicates).length +
        (paramsOf (query.resumption returned).toList).length ≤ parameterLimit
    · have hrest : returned.length ≤ before.length := by
        by_contra hlonger
        have hsplit' : (before ++ [bad]) ++ after = returned ++ rest := by simpa using hsplit
        have hsame : (before ++ [bad]).length = returned.length := by
          rw [length_append, length_singleton]
          omega
        rw [← (append_inj hsplit' hsame).1] at hfits
        simp [TableQuery.resumption, paramsOf] at hfits hbad
        omega
      obtain ⟨taken, left, next, rfl, htaken, hne, hpage, hmore⟩ :=
        page_of_fits (le_refl 1) (hselected.trans hsplit) hresumes hfits
      have hcount := congrArg length hsplit
      simp only [length_append, length_cons] at hcount
      have hafterpos := length_pos_iff.2 hafter
      have hleft : left ≠ [] := by
        rintro rfl
        simp only [length_nil] at hcount
        omega
      have htakenne : taken ≠ [] := hne (by simp [hleft])
      rcases hmore with ⟨hnil, -⟩ | ⟨-, hresumes'⟩
      · exact absurd hnil hleft
      obtain ⟨text, rfl⟩ : ∃ text, next = some text := by
        rcases hresumes' with ⟨-, hnil⟩ | ⟨-, -, text, -, htext, -⟩
        · exact absurd hnil htakenne
        · exact ⟨text, htext⟩
      have hrestFails := ih (index + 1) (by rw [hsplit, append_assoc])
        (by rw [length_append]; omega) (hresumes'.append returned htakenne)
      simp [followPages, hnext, hpage, hrestFails]
    obtain ⟨error, herror⟩ : ∃ error,
        query.page sql parameterLimit content cursor 1 = .error error :=
      page_of_not_fits hresumes (Nat.not_le.1 hfits)
    simp [followPages, hnext, herror]

/-! ## The whole -/

/-- Every cursor a page carries is accepted by the same query. -/
theorem minted_accepted {options : PaginationOptions} {result : PaginationResult} {cursor : Cursor}
    (h : query.paginate sql parameterLimit content options = .ok result)
    (hcursor : result.nextCursor = some cursor) :
    ∃ values, Cursor.parseCursor cursor plan query.paginationOrder = .ok values := by
  have hpage : ∃ size, 1 ≤ size ∧
      query.page sql parameterLimit content options.cursor size = .ok result := by
    unfold paginate at h
    dsimp only at h
    split at h
    · cases h
    rename_i size _
    split_ifs at h with hsize
    · refine ⟨size.toNat, ?_, h⟩
      simp at hsize
      omega
  obtain ⟨size, hsize, hpage⟩ := hpage
  unfold page rawRows at hpage
  obtain ⟨predicate, -, hpage⟩ := bind_eq_ok.1 hpage
  obtain ⟨raws, hraws, hcut⟩ := bind_eq_ok.1 hpage
  obtain ⟨params, -, hraws⟩ := bind_eq_ok.1 hraws
  cases hraws
  have hrows : ∀ row ∈ query.selected sql content predicate, row ∈ content.rows :=
    fun row hrow => mem_of_selected hrow
  obtain ⟨taken, left, next, -, -, -, heq, hnext⟩ :=
    @cutPage_eq plan sql query content size hsize _ hrows
  have hresult : result = ⟨taken.map plan.logicalRow, next⟩ := by
    rw [Option.elim, heq] at hcut
    exact (ok.inj hcut).symm
  rw [hresult] at hcursor
  rcases hnext with ⟨-, rfl⟩ | ⟨-, ⟨rfl, -⟩ | ⟨init, pivot, text, -, rfl, hparse⟩⟩
  · cases hcursor
  · cases hcursor
  · cases hcursor
    exact ⟨_, hparse⟩

/-- **Keyset pagination is exact** when its cursors fit. -/
theorem pages_are_exact (sql : OrderedSql) (plan : QueryPlan) (parameterLimit : Nat)
    (query : TableQuery plan) (content : TableContent sql plan)
    (rows : List (List (String × JsValue)))
    (hcollect : query.collect sql parameterLimit content = .ok rows) :
    ((∀ options result cursor,
        query.paginate sql parameterLimit content options = .ok result →
        result.nextCursor = some cursor →
        ∃ values, Cursor.parseCursor cursor plan query.paginationOrder = .ok values) ∧
      ∀ sizes : Nat → Nat, (∀ index, 1 ≤ sizes index ∧ sizes index ≤ maxPageSize) →
        ∃ fuel pages,
          followPages (query.nextPage sql parameterLimit content sizes) fuel 0 none =
            some pages ∧
          pages.flatMap PaginationResult.items = rows ∧
          ∀ page ∈ pages.dropLast, page.items ≠ []) ↔
    query.CursorsFit sql parameterLimit content := by
  have hcollected : (paramsOf query.predicates).length ≤ parameterLimit ∧
      rows = (query.selected sql content none).map plan.logicalRow := by
    unfold collect rawRows at hcollect
    obtain ⟨raws, hraws, hrows⟩ := bind_eq_ok.1 hcollect
    obtain ⟨params, hparams, hraws⟩ := bind_eq_ok.1 hraws
    cases hraws
    cases hrows
    have hfits := statement_eq_ok_iff.1 ⟨params, hparams⟩
    exact ⟨by simpa [paramsOf] using hfits, by simp [QueryPlan.logicalRow]⟩
  obtain ⟨hpredicates, rfl⟩ := hcollected
  constructor
  · rintro ⟨-, hexact⟩ row hrow
    by_contra hover
    obtain ⟨before, after, hsplit⟩ := append_of_mem hrow
    have hne : query.selected sql content none ≠ [] := by
      intro hnil
      rw [hnil] at hrow
      cases hrow
    have hselected : query.selected sql content none = before ++ row ::
        (after ++ [(query.selected sql content none).getLast hne]) := by
      rw [← cons_append, ← append_assoc, ← hsplit, dropLast_append_getLast]
    obtain ⟨fuel, pages, hpages, -⟩ := hexact (fun _ => 1) fun _ => ⟨le_refl 1, by decide⟩
    have hfails := followPages_fails hselected (by simp) (Nat.not_le.1 hover) fuel 0
      (nil_append _).symm (Nat.zero_le _) (.inl ⟨rfl, rfl⟩)
    rw [hfails] at hpages
    cases hpages
  intro hfit
  refine ⟨fun options result cursor h hcursor => minted_accepted h hcursor, ?_⟩
  intro sizes hsizes
  exact followPages_exact hfit hpredicates hsizes rfl (.inl ⟨rfl, rfl⟩) (fun h => absurd rfl h)

end TableQuery

/-! ## Scores -/

/-- The integer of a cell. -/
def integerKey : JsValue → Int
  | .bigint n => n
  | _ => 0

/-- A database whose columns hold integers. -/
def integerSql : OrderedSql where
  Stores := fun _ value => ∃ n, value = .bigint n
  Key := Int
  order := inferInstance
  key := fun _ => integerKey
  compare := fun _ op left right =>
    match op with
    | .eq => integerKey left = integerKey right
    | .ne => integerKey left ≠ integerKey right
    | .lt => integerKey left < integerKey right
    | .lte => integerKey left ≤ integerKey right
    | .gt => integerKey right < integerKey left
    | .gte => integerKey right ≤ integerKey left
  eq_iff := by
    rintro column _ _ ⟨a, rfl⟩ ⟨b, rfl⟩
    rw [sameValueZero_iff]
    simp only [zeroed, integerKey, bigint.injEq]
    exact decide_eq_true_iff
  compare_lt := by simp
  compare_gt := by simp
  compare_eq := by simp

/-- The validator of an integer column. -/
def checkInteger : JsValue → Except JsError JsValue
  | .bigint n => .ok (.bigint n)
  | .null => .ok .null
  | _ => .error (.validationError "expected bigint")

/-- Players with a score, which may be missing. -/
def scoresPlan : QueryPlan where
  displayName := "Score"
  pk := "id"
  columns := [("id", .scalar ⟨.pk, false, checkInteger, []⟩),
    ("points", .scalar ⟨.bigint, true, checkInteger, []⟩)]
  hasPk := ⟨_, rfl, rfl, rfl⟩

/-- One stored score. -/
def score (id : Int) (points : JsValue) : StoredRow
  | "id" => .bigint id
  | "points" => points
  | _ => .undefined

theorem score_accepted {id n : Int} {points : JsValue} (hid : inI64 id = true)
    (hpoints : points = .null ∨ points = .bigint n ∧ inI64 n = true) (name : String)
    (column : ScalarColumn) (h : scoresPlan.scalar? name = some column) :
    column.Accepts (score id points name) := by
  by_cases hname : name = "id"
  · subst hname
    cases h
    exact .inr ⟨hid, _, rfl⟩
  by_cases hother : name = "points"
  · subst hother
    cases h
    rcases hpoints with rfl | ⟨rfl, hn⟩
    · exact .inl ⟨rfl, rfl⟩
    · exact .inr ⟨hn, _, rfl⟩
  · simp [QueryPlan.scalar?, scoresPlan, lookup_cons, beq_false_of_ne hname,
      beq_false_of_ne hother] at h

/-- Three players, one without a score and two with the same. -/
def scores : TableContent integerSql scoresPlan where
  rows := [score 1 .null, score 2 (.bigint 5), score 3 (.bigint 5)]
  accepted := by
    intro row hrow name column h
    simp only [mem_cons, not_mem_nil, or_false] at hrow
    rcases hrow with rfl | rfl | rfl
    · exact score_accepted (n := 0) rfl (.inl rfl) name column h
    · exact score_accepted rfl (.inr ⟨rfl, rfl⟩) name column h
    · exact score_accepted rfl (.inr ⟨rfl, rfl⟩) name column h
  stores := by
    intro row hrow
    simp only [mem_cons, not_mem_nil, or_false] at hrow
    rcases hrow with rfl | rfl | rfl <;> exact ⟨_, rfl⟩
  distinct := by simp [score, scoresPlan]

/-- `orderBy((row) => row.points.desc())`. -/
def byPoints : TableQuery scoresPlan where
  predicates := []
  order := [⟨"points", .desc⟩]
  orderable := by
    intro o ho
    cases mem_singleton.1 ho
    exact ⟨_, rfl, rfl⟩

/-- `DEFAULT_SQLITE_PARAMETER_LIMIT`. -/
def defaultParameterLimit : Nat := 32766

theorem byPoints_selected : byPoints.selected integerSql scores none =
    [score 2 (.bigint 5), score 3 (.bigint 5), score 1 .null] := rfl

theorem pages_are_exact_scores :
    byPoints.collect integerSql defaultParameterLimit scores =
      .ok [scoresPlan.logicalRow (score 2 (.bigint 5)), scoresPlan.logicalRow (score 3 (.bigint 5)),
        scoresPlan.logicalRow (score 1 .null)] ∧
    ∃ fuel pages,
      followPages (byPoints.nextPage integerSql defaultParameterLimit scores fun _ => 1) fuel 0
        none = some pages ∧
      pages.flatMap PaginationResult.items =
        [scoresPlan.logicalRow (score 2 (.bigint 5)), scoresPlan.logicalRow (score 3 (.bigint 5)),
          scoresPlan.logicalRow (score 1 .null)] ∧
      ∀ page ∈ pages.dropLast, page.items ≠ [] :=
  have hcollect : byPoints.collect integerSql defaultParameterLimit scores =
      .ok [scoresPlan.logicalRow (score 2 (.bigint 5)), scoresPlan.logicalRow (score 3 (.bigint 5)),
        scoresPlan.logicalRow (score 1 .null)] := rfl
  have hfit : byPoints.CursorsFit integerSql defaultParameterLimit scores := by
    intro row hrow
    rw [byPoints_selected] at hrow
    simp only [dropLast, mem_cons, not_mem_nil, or_false] at hrow
    rcases hrow with rfl | rfl <;> decide
  ⟨hcollect, ((TableQuery.pages_are_exact integerSql scoresPlan defaultParameterLimit byPoints
    scores _ hcollect).2 hfit).2 (fun _ => 1) fun _ => by decide⟩

/-- As many ids as a statement may have parameters. -/
def manyIds : TableQuery scoresPlan where
  predicates := [.in "id" ((range defaultParameterLimit).map fun n : Nat => .bigint n)]
  order := []
  orderable := by simp

/-- Two players. -/
def twoScores : TableContent integerSql scoresPlan where
  rows := [score 1 .null, score 2 .null]
  accepted := by
    intro row hrow name column h
    simp only [mem_cons, not_mem_nil, or_false] at hrow
    rcases hrow with rfl | rfl <;> exact score_accepted (n := 0) rfl (.inl rfl) name column h
  stores := by
    intro row hrow
    simp only [mem_cons, not_mem_nil, or_false] at hrow
    rcases hrow with rfl | rfl <;> exact ⟨_, rfl⟩
  distinct := by simp [score, scoresPlan]

theorem holds_in_range {id count : Nat} (hid : id < count) :
    Kleene.Holds ((PredicateNode.in "id" ((range count).map fun n : Nat => .bigint n)).eval
      integerSql.toSql (score id .null)) := by
  have hmem : bigint id ∈ (range count).map fun n : Nat => bigint n :=
    mem_map.2 ⟨id, mem_range.2 hid, rfl⟩
  simp only [PredicateNode.eval, Kleene.holds_any]
  refine ⟨_, mem_map_of_mem hmem, ?_⟩
  simp [Sql.comparison, score, integerSql]

theorem manyIds_matches {id : Nat} (hid : id < defaultParameterLimit) :
    integerSql.Matches manyIds.predicates (score id .null) := by
  rw [Sql.matches_iff]
  intro node hnode
  rw [mem_singleton.1 hnode]
  exact holds_in_range hid

theorem manyIds_selected : manyIds.selected integerSql twoScores none =
    [score 1 .null, score 2 .null] := by
  have hfilter : twoScores.rows.filter (fun row => integerSql.Matches
      (manyIds.predicates ++ (none : Option PredicateNode).toList) row) = twoScores.rows := by
    rw [filter_eq_self]
    intro row hrow
    simp only [twoScores, mem_cons, not_mem_nil, or_false] at hrow
    rw [decide_eq_true_eq, Option.toList_none, append_nil]
    rcases hrow with rfl | rfl
    · exact @manyIds_matches 1 (by decide)
    · exact @manyIds_matches 2 (by decide)
  unfold TableQuery.selected
  rw [hfilter]
  rfl

theorem manyIds_params : (paramsOf manyIds.predicates).length = defaultParameterLimit := by
  simp [manyIds, paramsOf, PredicateNode.params]

/-- **The cursor takes one parameter too many**: `collect` and the first page are within the limit,
and the second page throws. -/
theorem second_page_throws :
    (∃ rows, manyIds.collect integerSql defaultParameterLimit twoScores = .ok rows) ∧
    ∀ fuel, followPages (manyIds.nextPage integerSql defaultParameterLimit twoScores fun _ => 1)
      fuel 0 none = none := by
  constructor
  · have hfits : (paramsOf manyIds.predicates).length +
        (paramsOf (none : Option PredicateNode).toList).length ≤ defaultParameterLimit := by
      rw [manyIds_params]
      exact le_refl _
    obtain ⟨params, hparams⟩ := statement_eq_ok_iff.2 hfits
    unfold TableQuery.collect TableQuery.rawRows
    rw [hparams]
    exact ⟨_, rfl⟩
  intro fuel
  have hover : defaultParameterLimit < (paramsOf manyIds.predicates).length +
      (Cursor.cursorPredicate manyIds.paginationOrder
        (manyIds.paginationOrder.map fun o => score 1 .null o.column)).params.length := by
    rw [manyIds_params]
    exact Nat.lt_succ_self _
  have hselected : manyIds.selected integerSql twoScores none =
      [] ++ score 1 .null :: [score 2 .null] := manyIds_selected
  exact TableQuery.followPages_fails hselected (by simp) hover fuel 0 rfl (Nat.zero_le _)
    (.inl ⟨rfl, rfl⟩)

end AckerDB
