import AckerDB.Lib.Except
import AckerDB.Lib.Keyset
import AckerDB.Database.Query.Filter

/-!
# Query cursors

A cursor carries the ordering values of the last row of a page.  `page` writes them from the row it
returned, `parseCursor` checks every one against its column before it reaches SQLite, and
`cursorPredicate` spells "strictly after" for mixed directions and nullable columns.

* `ScalarColumn` — a column with its storage codec and its validator;
* `parseCursor_cursorValues` — a cursor written from a stored row is read back as that row's cells;
* `holds_cursorPredicate` — the condition selects what the `ORDER BY` puts after the row.
-/

namespace AckerDB

open List

/-! ## Columns -/

/-- `ORDERABLE_KINDS`. -/
def ColumnKind.orderable : ColumnKind → Bool
  | file | fileGrant | enum => false
  | _ => true

/-- `Number.MAX_SAFE_INTEGER`. -/
def JsNumber.maxSafeInteger : Int := 2 ^ 53 - 1

/-- `Number.isSafeInteger`. -/
def isSafeInteger (value : JsValue) : Bool :=
  match value.integer? with
  | some n => decide (-JsNumber.maxSafeInteger ≤ n ∧ n ≤ JsNumber.maxSafeInteger)
  | none => false

/-- `value >= -(2n ** 63n) && value <= 2n ** 63n - 1n`. -/
def inI64 (n : Int) : Bool := decide (-2 ^ 63 ≤ n ∧ n ≤ 2 ^ 63 - 1)

/-- The storage values of a kind, other than `NULL`. -/
def ColumnKind.stores : ColumnKind → JsValue → Bool
  | pk, .bigint n | bigint, .bigint n | identity, .bigint n | file, .bigint n
  | fileGrant, .bigint n => inI64 n
  | string, .string _ => true
  | boolean, .number (.finite q) => q = 0 ∨ q = 1
  | int, .number (.finite q) => isSafeInteger (.number (.finite q))
  | enum, .number (.finite q) => isSafeInteger (.number (.finite q))
  | float, .number (.finite _) | scheduleAt, .number (.finite _) => true
  | _, _ => false

/-- The plan of a column with a single cell. -/
structure ScalarColumn where
  kind : ColumnKind
  nullable : Bool
  /-- The validator of the column, `nullable` included. -/
  check : JsValue → Except JsError JsValue
  /-- The tags of an enum's variants. -/
  tags : List (String × Int)

namespace ScalarColumn

variable (column : ScalarColumn)

/-- What a statement returns for a stored cell.  Integers are read as bigints; `int` columns are
projected as `REAL`. -/
def read (cell : JsValue) : JsValue :=
  match column.kind, cell with
  | .boolean, .number (.finite q) | .enum, .number (.finite q) => .bigint q.num
  | _, cell => cell

/-- `Number(value)`, for what a numeric column returns. -/
def asNumber : JsValue → JsValue
  | .bigint n => .number (.finite n)
  | value => value

/-- `fromSql`. -/
def fromSql (value : JsValue) : JsValue :=
  if value = .null then .null
  else
    match column.kind with
    | .boolean => .bool (value = .bigint 1 || value = .number (.finite 1))
    | .int | .float | .scheduleAt => asNumber value
    | .enum =>
      match column.tags.find? fun (_, tag) => asNumber value = .number (.finite tag) with
      | some (variant, _) => .string variant
      | none => .undefined
    | _ => value

/-- `toSql`. -/
def toSql (value : JsValue) : Except JsError JsValue :=
  if value = .null then .ok .null
  else
    match column.kind, value with
    | .enum, .string variant =>
      match column.tags.lookup variant with
      | some tag => .ok (.number (.finite tag))
      | none => .error (.error ("unknown variant \"" ++ variant ++ "\""))
    | .enum, _ => .error (.error "unknown variant")
    | kind, value => .ok (kind.encodeScalar value)

/-- A cell that satisfies the column's validator. -/
def Accepts (cell : JsValue) : Prop :=
  (cell = .null ∧ column.nullable = true) ∨
    (column.kind.stores cell = true ∧ ∃ checked, column.check (column.fromSql (column.read cell))
      = .ok checked)

end ScalarColumn

/-- A column of a plan. -/
inductive PlannedColumn where
  | scalar (column : ScalarColumn)
  /-- A column that cannot be ordered by: a union, a list, an object, bytes or a vector. -/
  | composite (phys : List String) (fromSql : List JsValue → JsValue)

/-- The value of a column, from the cells of its row. -/
def PlannedColumn.decode (raw : String → JsValue) (name : String) : PlannedColumn → JsValue
  | scalar column => column.fromSql (raw name)
  | composite phys fromSql => fromSql (phys.map raw)

/-- The part of a table's plan that queries read. -/
structure QueryPlan where
  displayName : String
  pk : String
  columns : List (String × PlannedColumn)
  /-- The primary key is one of the columns, and it is not nullable. -/
  hasPk : ∃ column, columns.lookup pk = some (.scalar column) ∧ column.kind = .pk ∧
    column.nullable = false

/-- A row of the table, by the storage values of its physical columns. -/
abbrev StoredRow := String → JsValue

theorem lookup_map {α β : Type} (f : String → α → β) (items : List (String × α)) (key : String) :
    (items.map fun (name, item) => (name, f name item)).lookup key =
      (items.lookup key).map (f key) := by
  induction items with
  | nil => rfl
  | cons item rest ih =>
    obtain ⟨name, value⟩ := item
    by_cases h : key = name
    · subst h
      simp
    · simp [lookup_cons, beq_false_of_ne h, ih]

namespace QueryPlan

variable (plan : QueryPlan)

/-- `plan.columns.get(name)`, of a column with a single cell. -/
def scalar? (name : String) : Option ScalarColumn :=
  match plan.columns.lookup name with
  | some (.scalar column) => some column
  | _ => none

/-- `plan.physOrder`. -/
def physOrder : List String :=
  plan.columns.flatMap fun (name, column) =>
    match column with
    | .scalar _ => [name]
    | .composite phys _ => phys

/-- The row as the statement returns it. -/
def rawRow (stored : StoredRow) (name : String) : JsValue :=
  match plan.scalar? name with
  | some column => column.read (stored name)
  | none => stored name

/-- `rowFromSql`. -/
def rowFromSql (raw : String → JsValue) : List (String × JsValue) :=
  plan.columns.map fun (name, column) => (name, column.decode raw name)

/-- A stored row as the caller sees it. -/
def logicalRow (stored : StoredRow) : List (String × JsValue) :=
  plan.rowFromSql (plan.rawRow stored)

theorem get_logicalRow {plan : QueryPlan} {name : String} {column : ScalarColumn}
    (h : plan.scalar? name = some column) (stored : StoredRow) :
    JsValue.get (plan.logicalRow stored) name =
      column.fromSql (column.read (stored name)) := by
  have hraw : plan.rawRow stored name = column.read (stored name) := by
    simp [rawRow, h]
  have hlookup : plan.columns.lookup name = some (.scalar column) := by
    unfold scalar? at h
    split at h
    · rename_i hfound
      cases h
      exact hfound
    · cases h
  unfold JsValue.get logicalRow rowFromSql
  rw [lookup_map fun name column => PlannedColumn.decode (plan.rawRow stored) name column, hlookup]
  simp [PlannedColumn.decode, hraw]

/-- The column can be ordered by. -/
def Orderable (name : String) : Prop :=
  ∃ column, plan.scalar? name = some column ∧ column.kind.orderable = true

end QueryPlan

/-- `QueryOrder`. -/
structure QueryOrder where
  column : String
  direction : Direction
  deriving DecidableEq

/-! ## Cursor values -/

namespace Cursor

/-- `encodeCursorValue`. -/
def encodeCursorValue : JsValue → Except JsError Json
  | .null => .ok .null
  | .string text => .ok (.string text)
  | .number (.finite q) => .ok (.number q)
  | .number .negZero => .ok (.number 0)
  | .bigint n => .ok (.object [("bigint", .string n.repr)])
  | value => .error (.error ("cannot encode query cursor value of type " ++ value.typeof))

/-- A digit other than zero. -/
def nonzeroDigit (c : Char) : Bool := c.isDigit && c != '0'

/-- `[1-9]\d{0,18}`. -/
def isDecimal : List Char → Bool
  | first :: rest => nonzeroDigit first && rest.all Char.isDigit && decide (rest.length ≤ 18)
  | [] => false

/-- `/^(?:0|-?[1-9]\d{0,18})$/`. -/
def isBigintText (text : String) : Bool :=
  match text.toList with
  | ['0'] => true
  | '-' :: digits => isDecimal digits
  | digits => isDecimal digits

/-- `decodeCursorValue`. -/
def decodeCursorValue (value : Json) (path : String) : Except JsError JsValue :=
  match value with
  | .null => .ok .null
  | .string text => .ok (.string text)
  | .number q => .ok (.number (.finite q))
  | .object [("bigint", .string encoded)] =>
    if isBigintText encoded then
      match Wire.parseBigInt encoded with
      | some n => .ok (.bigint n)
      | none => .error (.validationError (path ++ ": invalid bigint"))
    else .error (.validationError (path ++ ": invalid bigint"))
  | _ => .error (.validationError (path ++ ": invalid value encoding"))

/-- `storageTypeValid`. -/
def storageTypeValid : ColumnKind → JsValue → Bool
  | .pk, value | .bigint, value | .identity, value => value.typeof = "bigint"
  | .string, value => value.typeof = "string"
  | .boolean, value => value = .number (.finite 0) || value = .number (.finite 1)
  | .enum, value => isSafeInteger value
  | _, .number n => n.isFinite
  | _, _ => false

/-- The primary key is a row id. -/
def pkInRange : ColumnKind → JsValue → Bool
  | .pk, .bigint n => inI64 n
  | .pk, _ => false
  | _, _ => true

/-- One ordering value of a cursor against its column. -/
def parseValue (column : ScalarColumn) (name path : String) (encoded : Json) :
    Except JsError JsValue := do
  let value ← decodeCursorValue encoded path
  let incompatible : JsError :=
    .validationError (path ++ ": value is incompatible with " ++ name)
  if value = .null then
    if column.nullable then return .null
    else throw (.validationError (path ++ ": " ++ name ++ " is not nullable"))
  else if !storageTypeValid column.kind value then throw incompatible
  else if !pkInRange column.kind value then throw incompatible
  else
    match column.check (column.fromSql value) with
    | .ok _ => return value
    | .error (.validationError _) => throw incompatible
    | .error error => throw error

end Cursor

/-- The text of a cursor; `none` is a text that is not base64url of a JSON text. -/
abbrev Cursor := Option Json

namespace Cursor

/-- `opaqueCursor`. -/
def opaqueCursor (values : List Json) : Cursor :=
  some (.object [("version", .number 1), ("values", .array values)])

/-- The ordering values, position by position. -/
def parseValues (plan : QueryPlan) : Nat → List Json → List QueryOrder →
    Except JsError (List JsValue)
  | position, encoded :: rest, order :: orders => do
      let path := plan.displayName ++ ".paginate.cursor[" ++ position.repr ++ "]"
      match plan.scalar? order.column with
      | some column => do
          let value ← parseValue column order.column path encoded
          let values ← parseValues plan (position + 1) rest orders
          return value :: values
      | none => throw (.typeError "undefined is not an object")
  | _, _, _ => .ok []

/-- `parseCursor`. -/
def parseCursor (cursor : Cursor) (plan : QueryPlan) (order : List QueryOrder) :
    Except JsError (List JsValue) :=
  let path := plan.displayName ++ ".paginate.cursor: "
  match cursor with
  | none => .error (.validationError (path ++ "malformed cursor"))
  | some (.object fields) =>
    match fields.lookup "values" with
    | some (.array encodedValues) =>
      if fields.lookup "version" ≠ some (.number 1) ||
          fields.any (fun (key, _) => key ≠ "version" && key ≠ "values") then
        .error (.validationError (path ++ "malformed versioned cursor"))
      else if encodedValues.length ≠ order.length then
        .error (.validationError (path ++ "expected " ++ order.length.repr ++
          " ordering values, got " ++ encodedValues.length.repr))
      else parseValues plan 0 encodedValues order
    | _ => .error (.validationError (path ++ "malformed versioned cursor"))
  | some _ => .error (.validationError (path ++ "malformed versioned cursor"))

/-- The ordering values of the last row of a page. -/
def cursorValues (plan : QueryPlan) (order : List QueryOrder) (last : List (String × JsValue)) :
    Except JsError (List Json) :=
  order.mapM fun o =>
    match plan.scalar? o.column with
    | some column => do encodeCursorValue (← column.toSql (JsValue.get last o.column))
    | none => .error (.typeError "undefined is not an object")

/-! ## Strictly after -/

/-- The row has the cursor's value in this column. -/
def same (o : QueryOrder) (value : JsValue) : PredicateNode :=
  if value = .null then .null o.column true else .comparison o.column .eq value

/-- The row comes after the cursor in this column. -/
def after (o : QueryOrder) (value : JsValue) : PredicateNode :=
  match o.direction with
  | .asc =>
    if value = .null then .null o.column false else .comparison o.column .gt value
  | .desc =>
    if value = .null then .in o.column []
    else .or (.comparison o.column .lt value) (.null o.column true)

/-- One branch for each position, after the values of the positions before it. -/
def branches (prior : List PredicateNode) : List QueryOrder → List JsValue → List PredicateNode
  | o :: order, value :: values =>
    prior.foldr .and (after o value) :: branches (prior ++ [same o value]) order values
  | _, _ => []

/-- `cursorPredicate`.  There is always a position: the primary key ends every order. -/
def cursorPredicate (order : List QueryOrder) (values : List JsValue) : PredicateNode :=
  match branches [] order values with
  | [] => .in "" []
  | first :: rest => rest.foldl .or first

end Cursor

/-! ## SQLite's order -/

/-- SQLite's comparison of the values of a column is that of a linear order. -/
structure OrderedSql extends Sql where
  Key : Type
  order : LinearOrder Key
  key : String → JsValue → Key
  compare_lt : ∀ column left right,
    compare column .lt left right = true ↔ key column left < key column right
  compare_gt : ∀ column left right,
    compare column .gt left right = true ↔ key column right < key column left
  compare_eq : ∀ column left right,
    compare column .eq left right = true ↔ key column left = key column right

attribute [instance] OrderedSql.order

namespace OrderedSql

/-- `NULL` is less than every value. -/
def cellKey (sql : OrderedSql) (column : String) (cell : JsValue) : WithBot sql.Key :=
  if cell = .null then ⊥ else (sql.key column cell : WithBot sql.Key)

/-- A term of an `ORDER BY`: `NULL`s come first in `ASC` and last in `DESC`. -/
def term (sql : OrderedSql) (o : QueryOrder) : Keyset.Term StoredRow (WithBot sql.Key) :=
  ⟨fun stored => sql.cellKey o.column (stored o.column), o.direction⟩

end OrderedSql

/-! ## The condition -/

namespace Cursor

variable {sql : OrderedSql}

theorem holds_same (o : QueryOrder) (pivot row : StoredRow) :
    Kleene.Holds ((same o (pivot o.column)).eval sql.toSql row) ↔
      (sql.term o).key pivot = (sql.term o).key row := by
  unfold same OrderedSql.term OrderedSql.cellKey
  by_cases hpivot : pivot o.column = .null <;> by_cases hrow : row o.column = .null
  · simp [PredicateNode.eval, hpivot, hrow]
  · simp [PredicateNode.eval, hpivot, hrow]
  · simp [PredicateNode.eval, Sql.comparison, hpivot, hrow]
  · simp [PredicateNode.eval, Sql.comparison, hpivot, hrow, sql.compare_eq, eq_comm]

theorem holds_after (o : QueryOrder) (pivot row : StoredRow) :
    Kleene.Holds ((after o (pivot o.column)).eval sql.toSql row) ↔
      (sql.term o).Before pivot row := by
  obtain ⟨column, direction⟩ := o
  cases direction with
  | asc =>
    unfold after OrderedSql.term OrderedSql.cellKey Keyset.Term.Before
    by_cases hpivot : pivot column = .null <;> by_cases hrow : row column = .null <;>
      simp [PredicateNode.eval, Sql.comparison, hpivot, hrow, sql.compare_gt]
  | desc =>
    unfold after OrderedSql.term OrderedSql.cellKey Keyset.Term.Before
    by_cases hpivot : pivot column = .null <;> by_cases hrow : row column = .null <;>
      simp [PredicateNode.eval, Sql.comparison, hpivot, hrow, sql.compare_lt, Kleene.any]

theorem holds_foldr_and (prior : List PredicateNode) (last : PredicateNode) (row : StoredRow) :
    Kleene.Holds ((prior.foldr .and last).eval sql.toSql row) ↔
      (∀ node ∈ prior, Kleene.Holds (node.eval sql.toSql row)) ∧
        Kleene.Holds (last.eval sql.toSql row) := by
  induction prior with
  | nil => simp
  | cons first rest ih => simp [PredicateNode.eval, ih, and_assoc]

theorem holds_foldl_or (first : PredicateNode) (rest : List PredicateNode) (row : StoredRow) :
    Kleene.Holds ((rest.foldl .or first).eval sql.toSql row) ↔
      ∃ node ∈ first :: rest, Kleene.Holds (node.eval sql.toSql row) := by
  induction rest generalizing first with
  | nil => simp
  | cons second rest ih =>
    rw [foldl_cons, ih]
    simp [PredicateNode.eval, or_assoc]

theorem exists_branch (prior : List PredicateNode) (order : List QueryOrder)
    (pivot row : StoredRow) :
    (∃ node ∈ branches prior order (order.map fun o => pivot o.column),
      Kleene.Holds (node.eval sql.toSql row)) ↔
    (∀ node ∈ prior, Kleene.Holds (node.eval sql.toSql row)) ∧
      Keyset.Before (order.map sql.term) pivot row := by
  induction order generalizing prior with
  | nil => simp [branches, Keyset.Before]
  | cons o order ih =>
    simp only [map_cons, branches, exists_mem_cons_iff, holds_foldr_and, holds_after,
      ih, forall_mem_append, forall_mem_singleton, holds_same, Keyset.Before]
    tauto

/-- **Strictly after**: the condition selects what the order puts after the row. -/
theorem holds_cursorPredicate {order : List QueryOrder} (horder : order ≠ [])
    (pivot row : StoredRow) :
    Kleene.Holds ((cursorPredicate order (order.map fun o => pivot o.column)).eval sql.toSql row) ↔
      Keyset.Before (order.map sql.term) pivot row := by
  have hbranch := @exists_branch sql [] order pivot row
  unfold cursorPredicate
  split
  · rename_i hnil
    obtain ⟨o, rest, rfl⟩ := exists_cons_of_ne_nil horder
    cases hnil
  · rename_i first rest hcons
    rw [holds_foldl_or, ← hcons, hbranch]
    simp

end Cursor

/-! ## A cursor is read back -/

namespace Cursor

theorem exists_toDigits {n : Nat} (h : 0 < n) :
    ∃ first rest, Nat.toDigits 10 n = first :: rest ∧ nonzeroDigit first = true := by
  induction n using Nat.strong_induction_on with
  | _ n ih =>
    by_cases hlt : n < 10
    · refine ⟨_, [], Nat.toDigits_of_lt_base hlt, ?_⟩
      interval_cases n <;> rfl
    obtain ⟨first, rest, heq, hfirst⟩ := ih (n / 10) (by omega) (by omega)
    refine ⟨first, rest ++ [(n % 10).digitChar], ?_, hfirst⟩
    rw [Nat.toDigits_of_base_le (by decide) (by omega), heq]
    rfl

theorem isDecimal_toDigits {n : Nat} (hpos : 0 < n) (hlt : n < 10 ^ 19) :
    isDecimal (Nat.toDigits 10 n) = true := by
  obtain ⟨first, rest, heq, hfirst⟩ := exists_toDigits hpos
  have hlength := Nat.toDigits_length 10 n 19 (by decide) hlt
  have hdigits : ∀ c ∈ rest, c.isDigit = true := by
    intro c hc
    apply Nat.isDigit_of_mem_toDigits (n := n) (by decide) (le_refl 10)
    rw [heq]
    exact mem_cons_of_mem _ hc
  rw [heq, length_cons] at hlength
  simp only [heq, isDecimal, hfirst, Bool.true_and, Bool.and_eq_true, all_eq_true,
    decide_eq_true_eq]
  exact ⟨hdigits, by omega⟩

theorem isBigintText_repr {n : Int} (h : inI64 n = true) : isBigintText n.repr = true := by
  simp only [inI64, decide_eq_true_eq] at h
  cases n with
  | ofNat m =>
    have htext : (Int.ofNat m).repr.toList = Nat.toDigits 10 m := by
      simp [Int.repr, Nat.repr]
    rcases Nat.eq_zero_or_pos m with rfl | hpos
    · rfl
    have hlt : m < 10 ^ 19 := by
      have : (m : Int) ≤ 2 ^ 63 - 1 := h.2
      omega
    obtain ⟨first, rest, heq, hfirst⟩ := exists_toDigits hpos
    have hdecimal := isDecimal_toDigits hpos hlt
    rw [isBigintText, htext]
    rw [heq] at hdecimal ⊢
    split
    · rfl
    · rename_i hminus
      cases hminus
      cases hfirst
    · exact hdecimal
  | negSucc m =>
    have htext : (Int.negSucc m).repr.toList = '-' :: Nat.toDigits 10 (m + 1) := by
      simp [Int.repr, Nat.repr]
    rw [isBigintText, htext]
    exact isDecimal_toDigits (by omega) (by omega)

theorem decodeCursorValue_bigint {n : Int} (h : inI64 n = true) (path : String) :
    decodeCursorValue (.object [("bigint", .string n.repr)]) path = .ok (.bigint n) := by
  simp [decodeCursorValue, isBigintText_repr h, Wire.parseBigInt_repr]

/-- The storage values of the kinds that can be ordered by. -/
inductive Ordered : ColumnKind → JsValue → Prop
  | bigint {kind : ColumnKind} {n : Int} :
      kind = .pk ∨ kind = .bigint ∨ kind = .identity → inI64 n = true → Ordered kind (.bigint n)
  | string (text : String) : Ordered .string (.string text)
  | boolean (b : Bool) : Ordered .boolean (.number (.finite (if b then 1 else 0)))
  | number {kind : ColumnKind} (q : ℚ) :
      kind = .int ∨ kind = .float ∨ kind = .scheduleAt → Ordered kind (.number (.finite q))

variable {kind : ColumnKind} {cell : JsValue}

theorem ordered_of_stores (horderable : kind.orderable = true) (hstores : kind.stores cell = true) :
    Ordered kind cell := by
  cases cell with
  | bigint =>
    cases kind with
    | pk | bigint | identity => exact .bigint (by simp) hstores
    | file | fileGrant => cases horderable
    | _ => cases hstores
  | string text =>
    cases kind with
    | string => exact .string text
    | _ => cases hstores
  | number n =>
    cases n with
    | finite q =>
      cases kind with
      | boolean =>
        have hq := of_decide_eq_true hstores
        rcases hq with rfl | rfl
        · exact .boolean false
        · exact .boolean true
      | int | float | scheduleAt => exact .number q (by simp)
      | enum => cases horderable
      | _ => cases hstores
    | _ => cases kind <;> cases hstores
  | _ => cases kind <;> cases hstores

/-- A storage value of a column that can be ordered by survives its encoding. -/
theorem decode_encodeCursorValue (h : Ordered kind cell) :
    ∃ encoded, encodeCursorValue cell = .ok encoded ∧
      ∀ path, decodeCursorValue encoded path = .ok cell := by
  cases h with
  | bigint _ hrange => exact ⟨_, rfl, decodeCursorValue_bigint hrange⟩
  | string | boolean | number => exact ⟨_, rfl, fun _ => rfl⟩

theorem Ordered.admissible (h : Ordered kind cell) :
    cell ≠ .null ∧ storageTypeValid kind cell = true ∧ pkInRange kind cell = true := by
  cases h with
  | bigint hkind hrange =>
    rcases hkind with rfl | rfl | rfl <;>
      simp [storageTypeValid, pkInRange, JsValue.typeof, hrange]
  | string => simp [storageTypeValid, pkInRange, JsValue.typeof]
  | boolean b => cases b <;> simp [storageTypeValid, pkInRange]
  | number q hkind =>
    rcases hkind with rfl | rfl | rfl <;>
      simp [storageTypeValid, pkInRange, JsNumber.isFinite]

end Cursor

namespace ScalarColumn

theorem read_null (column : ScalarColumn) : column.read .null = .null := by
  unfold read
  cases column.kind <;> rfl

/-- **A cell is written back as it was**, and a second reading finds the same. -/
theorem toSql_fromSql {column : ScalarColumn} {cell : JsValue}
    (h : Cursor.Ordered column.kind cell) :
    column.toSql (column.fromSql cell) = .ok cell ∧
      column.fromSql (column.read cell) = column.fromSql cell := by
  obtain ⟨kind, nullable, check, tags⟩ := column
  cases h with
  | bigint hkind => rcases hkind with rfl | rfl | rfl <;> exact ⟨rfl, rfl⟩
  | string => exact ⟨rfl, rfl⟩
  | boolean b => cases b <;> exact ⟨rfl, rfl⟩
  | number q hkind => rcases hkind with rfl | rfl | rfl <;> exact ⟨rfl, rfl⟩

end ScalarColumn

namespace Cursor

/-- **A cell of a stored row, through its cursor.** -/
theorem parseValue_encode {column : ScalarColumn} {cell : JsValue}
    (horderable : column.kind.orderable = true) (haccepts : column.Accepts cell) (name : String) :
    ∃ encoded, (column.toSql (column.fromSql (column.read cell)) >>= encodeCursorValue)
        = .ok encoded ∧ ∀ path, parseValue column name path encoded = .ok cell := by
  rcases haccepts with ⟨rfl, hnullable⟩ | ⟨hstores, checked, hchecked⟩
  · refine ⟨.null, ?_, fun path => ?_⟩
    · rw [column.read_null]
      rfl
    · simp [parseValue, decodeCursorValue, hnullable]
  have hordered := ordered_of_stores horderable hstores
  obtain ⟨encoded, hencoded, hdecoded⟩ := decode_encodeCursorValue hordered
  obtain ⟨hnull, htype, hrange⟩ := hordered.admissible
  obtain ⟨hwritten, hread⟩ := ScalarColumn.toSql_fromSql hordered
  rw [hread] at hchecked ⊢
  refine ⟨encoded, ?_, fun path => ?_⟩
  · rw [hwritten]
    exact hencoded
  · simp [parseValue, hdecoded, hnull, htype, hrange, hchecked]

/-- Each ordering column of the row holds a cell that its validator accepts. -/
def Fits (plan : QueryPlan) (order : List QueryOrder) (stored : StoredRow) : Prop :=
  ∀ o ∈ order, ∃ column, plan.scalar? o.column = some column ∧
    column.kind.orderable = true ∧ column.Accepts (stored o.column)

variable {last : List (String × JsValue)} {order : List QueryOrder} {stored : StoredRow}
  {plan : QueryPlan}

theorem parseValues_cursorValues (hfits : Fits plan order stored)
    (hlast : ∀ o ∈ order, ∀ column, plan.scalar? o.column = some column →
      JsValue.get last o.column = column.fromSql (column.read (stored o.column))) :
    ∃ encoded, cursorValues plan order last = .ok encoded ∧ encoded.length = order.length ∧
      ∀ position, parseValues plan position encoded order =
        .ok (order.map fun o => stored o.column) := by
  induction order with
  | nil => exact ⟨[], rfl, rfl, fun _ => rfl⟩
  | cons o order ih =>
    obtain ⟨column, hcolumn, horderable, haccepts⟩ := hfits o mem_cons_self
    obtain ⟨first, hfirst, hparse⟩ := parseValue_encode horderable haccepts o.column
    obtain ⟨rest, hrest, hlength, hparses⟩ :=
      ih (fun o ho => hfits o (mem_cons_of_mem _ ho))
        (fun o ho => hlast o (mem_cons_of_mem _ ho))
    rw [← hlast o mem_cons_self column hcolumn] at hfirst
    refine ⟨first :: rest, ?_, by simp [hlength], fun position => ?_⟩
    · unfold cursorValues at hrest ⊢
      simp [mapM_cons, hcolumn, hfirst, hrest]
    · simp [parseValues, hcolumn, hparse, hparses]

/-- **A cursor written from a stored row is read back as the row's cells.** -/
theorem parseCursor_cursorValues (hfits : Fits plan order stored)
    (hlast : ∀ o ∈ order, ∀ column, plan.scalar? o.column = some column →
      JsValue.get last o.column = column.fromSql (column.read (stored o.column))) :
    ∃ encoded, cursorValues plan order last = .ok encoded ∧
      parseCursor (opaqueCursor encoded) plan order = .ok (order.map fun o => stored o.column) := by
  obtain ⟨encoded, hencoded, hlength, hparse⟩ := parseValues_cursorValues hfits hlast
  refine ⟨encoded, hencoded, ?_⟩
  simp [parseCursor, opaqueCursor, lookup, hlength, hparse]

end Cursor

end AckerDB
