import AckerDB.Lib.Kleene
import AckerDB.Database.Keys

/-!
# Query predicates and their SQL meaning

The predicate trees a query is built from, and the truth value SQLite gives a
tree on a row: comparisons with a missing value are unknown, `IN ()` is false,
and the connectives are those of three-valued logic.  SQLite's comparison of
two stored values is a parameter; the one thing assumed of it is that, between
storage values of one column, `=` is the SameValueZero equality.

* `PredicateNode.eval` — the truth value of a tree;
* `Sql.Matches` — the rows a `WHERE` clause selects.
-/

namespace AckerDB

/-- The comparison operators of a predicate. -/
inductive ComparisonOperator where
  | eq | ne | lt | lte | gt | gte
  deriving DecidableEq

/-- A predicate tree. -/
inductive PredicateNode where
  | comparison (column : String) (op : ComparisonOperator) (value : JsValue)
  | in (column : String) (values : List JsValue)
  | between (column : String) (lower upper : JsValue)
  | null (column : String) (isNull : Bool)
  | and (left right : PredicateNode)
  | or (left right : PredicateNode)
  | not (expression : PredicateNode)

/-- SQLite's comparison of storage values, column by column. -/
structure Sql where
  /-- The storage values a column can hold or be compared with. -/
  Stores : String → JsValue → Prop
  /-- The comparison of two values of a column that are not `NULL`. -/
  compare : String → ComparisonOperator → JsValue → JsValue → Bool
  /-- Between storage values of one column, `=` is SameValueZero. -/
  eq_iff : ∀ column left right, Stores column left → Stores column right →
    (compare column .eq left right = true ↔ JsValue.sameValueZero left right = true)

namespace Sql

/-- A comparison of two values; with a `NULL` on either side it is unknown. -/
def comparison (sql : Sql) (column : String) (op : ComparisonOperator) (left right : JsValue) :
    Kleene :=
  if left = .null ∨ right = .null then none else some (sql.compare column op left right)

end Sql

/-- The truth value of a tree on a row given by the storage value of each column. -/
def PredicateNode.eval (sql : Sql) (stored : String → JsValue) : PredicateNode → Kleene
  | .comparison column op value => sql.comparison column op (stored column) value
  | .in column values => Kleene.any (values.map (sql.comparison column .eq (stored column)))
  | .between column lower upper =>
    Kleene.and (sql.comparison column .gte (stored column) lower)
      (sql.comparison column .lte (stored column) upper)
  | .null column isNull => some (decide (stored column = .null) == isNull)
  | .and left right => Kleene.and (left.eval sql stored) (right.eval sql stored)
  | .or left right => Kleene.or (left.eval sql stored) (right.eval sql stored)
  | .not expression => Kleene.not (expression.eval sql stored)

/-- Every value a tree compares a column with is a storage value of that column. -/
def PredicateNode.StorageForm (sql : Sql) : PredicateNode → Prop
  | .comparison column _ value => sql.Stores column value
  | .in column values => ∀ value ∈ values, sql.Stores column value
  | .between column lower upper => sql.Stores column lower ∧ sql.Stores column upper
  | .null _ _ => True
  | .and left right => left.StorageForm sql ∧ right.StorageForm sql
  | .or left right => left.StorageForm sql ∧ right.StorageForm sql
  | .not expression => expression.StorageForm sql

namespace Sql

/-- The table row that stores a full row: a storage value for each column. -/
structure StoredAs (sql : Sql) (plan : TablePlan) (row : Row) (stored : String → JsValue) :
    Prop where
  /-- Each planned column holds what its codec writes. -/
  value : ∀ column columnPlan, plan.columns.lookup column = some columnPlan →
    plan.storedValue row column = .ok (stored column)
  /-- Each column holds one of its storage values. -/
  stores : ∀ column, sql.Stores column (stored column)

/-- The row satisfies the conjunction of the trees. -/
def Matches (sql : Sql) (predicates : List PredicateNode) (stored : String → JsValue) : Prop :=
  Kleene.Holds (Kleene.all (predicates.map (PredicateNode.eval sql stored)))

instance (sql : Sql) (predicates : List PredicateNode) (stored : String → JsValue) :
    Decidable (sql.Matches predicates stored) :=
  inferInstanceAs (Decidable (Kleene.Holds _))

theorem matches_iff (sql : Sql) (predicates : List PredicateNode) (stored : String → JsValue) :
    sql.Matches predicates stored ↔
      ∀ node ∈ predicates, Kleene.Holds (node.eval sql stored) := by
  unfold Matches
  rw [Kleene.holds_all]
  constructor
  · intro h node hnode
    exact h _ (List.mem_map_of_mem hnode)
  · intro h truth htruth
    obtain ⟨node, hnode, rfl⟩ := List.mem_map.1 htruth
    exact h node hnode

theorem holds_comparison {sql : Sql} {column : String} {op : ComparisonOperator}
    {left right : JsValue} (h : Kleene.Holds (sql.comparison column op left right)) :
    sql.compare column op left right = true := by
  unfold comparison at h
  split at h
  · exact absurd h Kleene.holds_none
  · simpa using h

/-- A true equality between storage values is equality up to the sign of zero. -/
theorem zeroed_eq_of_holds {sql : Sql} {column : String} {left right : JsValue}
    (hleft : sql.Stores column left) (hright : sql.Stores column right)
    (h : Kleene.Holds (sql.comparison column .eq left right)) : left.zeroed = right.zeroed := by
  have hcompare := holds_comparison h
  rw [sql.eq_iff column left right hleft hright] at hcompare
  exact (JsValue.sameValueZero_iff left right).1 hcompare

end Sql

end AckerDB
