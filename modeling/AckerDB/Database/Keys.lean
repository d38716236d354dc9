import AckerDB.Core.Wire

/-!
# Read and write keys

The currency of reactivity: a query records keys for what it read, a write emits
keys for what it may have affected, and a subscription is run again exactly when
the two sets meet.  A key is kept as its parts; the index key carries the
canonical encoding of the pinned storage values.

* `mem_emitIndexKeys` — a write emits one key for every nonempty prefix of every
  index, over the storage values of the written row;
* `ixKey_congr` — prefixes that agree up to the sign of zero have one key.
-/

namespace AckerDB

/-- A full row as handlers see it: `row[column]`. -/
abbrev Row := String → JsValue

/-- A declared index. -/
structure IndexDef where
  name : String
  columns : List String
  deriving DecidableEq

/-- The part of a column's plan the keys read: its storage codec.  The first storage
value is the one indexes and predicates look at. -/
structure ColumnPlan where
  toSql : JsValue → Except JsError (List JsValue)

/-- A table's plan. -/
structure TablePlan where
  name : String
  /-- The name in error texts. -/
  displayName : String
  pk : String
  columns : List (String × ColumnPlan)
  indexes : List IndexDef
  /-- The columns with a full-text target. -/
  fullText : List String

/-- A read or write key, by its parts. -/
inductive Key where
  | id (table : String) (id : JsValue)
  | scan (table : String)
  | ix (table index : String) (pinned : Json)
  | fts (table column : String)

/-- `idKey`. -/
def idKey (table : String) (id : JsValue) : Key := .id table id

/-- `scanKey`. -/
def scanKey (table : String) : Key := .scan table

/-- `ixKey`. -/
def ixKey (table index : String) (pinnedSqlValues : List JsValue) : Except JsError Key := do
  let pinned ← Wire.stableEncode (.array pinnedSqlValues)
  return .ix table index pinned

/-- `ftsCorpusKey`. -/
def ftsCorpusKey (table column : String) : Key := .fts table column

namespace TablePlan

/-- `plan.columns.get(column)!.toSql(row[column])[0]`: the storage value of a column. -/
def storedValue (plan : TablePlan) (row : Row) (column : String) : Except JsError JsValue :=
  match plan.columns.lookup column with
  | none => .error (.typeError "undefined is not an object")
  | some columnPlan => do
      let values ← columnPlan.toSql (row column)
      return values.headD .undefined

end TablePlan

/-- The keys of one index: after each further column, the key of the prefix so far. -/
def emitIndexKeys (plan : TablePlan) (row : Row) (index : String) :
    List String → List JsValue → Except JsError (List Key)
  | [], _ => .ok []
  | column :: rest, pinned => do
      let value ← plan.storedValue row column
      let key ← ixKey plan.name index (pinned ++ [value])
      let keys ← emitIndexKeys plan row index rest (pinned ++ [value])
      return key :: keys

/-- The keys of every index. -/
def emitIndexesKeys (plan : TablePlan) (row : Row) : List IndexDef → Except JsError (List Key)
  | [] => .ok []
  | index :: rest => do
      let keys ← emitIndexKeys plan row index.name index.columns []
      let more ← emitIndexesKeys plan row rest
      return keys ++ more

/-- `emitWriteKeys`: all keys a write of `row` can affect, added to `into`. -/
def emitWriteKeys (plan : TablePlan) (row : Row) (into : List Key) : Except JsError (List Key) := do
  let keys ← emitIndexesKeys plan row plan.indexes
  return into ++ idKey plan.name (row plan.pk) :: scanKey plan.name :: keys

/-- `emitFullTextWriteKeys`: the corpora whose text a write changes. -/
def emitFullTextWriteKeys (plan : TablePlan) (before after : Option Row) (into : List Key) :
    List Key :=
  into ++ (plan.fullText.filter fun column =>
    match before, after with
    | some old, some new => old column ≠ new column
    | _, _ => true).map (ftsCorpusKey plan.name)

/-! ## The keys of a write -/

variable {plan : TablePlan} {row : Row}

theorem mem_emitWriteKeys_scan {into written : List Key}
    (h : emitWriteKeys plan row into = .ok written) : scanKey plan.name ∈ written := by
  rw [emitWriteKeys, Except.bind_eq_ok] at h
  obtain ⟨keys, -, h⟩ := h
  cases h
  simp

/-- The storage values of the first columns of an index, with their key among the
emitted ones. -/
theorem mem_emitIndexKeys {index : String} :
    ∀ {columns : List String} {pinned : List JsValue} {keys : List Key},
      emitIndexKeys plan row index columns pinned = .ok keys →
      ∀ depth, 0 < depth → depth ≤ columns.length →
        ∃ values : List JsValue, (columns.take depth).mapM (plan.storedValue row) = .ok values ∧
          ∃ key ∈ keys, ixKey plan.name index (pinned ++ values) = .ok key
  | [], _, _, _, depth, hpos, hle => by simp at hle; omega
  | column :: rest, pinned, keys, h, depth, hpos, hle => by
      simp only [emitIndexKeys, Except.bind_eq_ok] at h
      obtain ⟨value, hvalue, key, hkey, more, hmore, h⟩ := h
      cases h
      obtain ⟨depth, rfl⟩ : ∃ d, depth = d + 1 := ⟨depth - 1, by omega⟩
      rw [List.take_succ_cons, List.mapM_cons]
      by_cases hzero : depth = 0
      · subst hzero
        exact ⟨[value], by simp [hvalue], key, List.mem_cons_self, hkey⟩
      obtain ⟨values, hvalues, other, hother, hix⟩ :=
        mem_emitIndexKeys hmore depth (by omega) (by simpa using hle)
      refine ⟨value :: values, by simp [hvalue, hvalues], other, List.mem_cons_of_mem _ hother, ?_⟩
      simpa using hix

theorem mem_emitIndexesKeys {index : IndexDef} :
    ∀ {indexes : List IndexDef} {keys : List Key}, emitIndexesKeys plan row indexes = .ok keys →
      index ∈ indexes →
      ∃ own, emitIndexKeys plan row index.name index.columns [] = .ok own ∧ ∀ key ∈ own, key ∈ keys
  | [], _, _, hmem => by simp at hmem
  | first :: rest, keys, h, hmem => by
      simp only [emitIndexesKeys, Except.bind_eq_ok] at h
      obtain ⟨own, hown, more, hmore, h⟩ := h
      cases h
      rcases List.mem_cons.1 hmem with rfl | hrest
      · exact ⟨own, hown, fun key hkey => List.mem_append_left _ hkey⟩
      · obtain ⟨found, hfound, hsub⟩ := mem_emitIndexesKeys hmore hrest
        exact ⟨found, hfound, fun key hkey => List.mem_append_right _ (hsub key hkey)⟩

/-- **A write emits a key for every index prefix of its row.** -/
theorem mem_emitWriteKeys_ix {into written : List Key}
    (h : emitWriteKeys plan row into = .ok written) {index : IndexDef}
    (hindex : index ∈ plan.indexes) {depth : Nat} (hpos : 0 < depth)
    (hle : depth ≤ index.columns.length) :
    ∃ values : List JsValue, (index.columns.take depth).mapM (plan.storedValue row) = .ok values ∧
      ∃ key ∈ written, ixKey plan.name index.name values = .ok key := by
  rw [emitWriteKeys, Except.bind_eq_ok] at h
  obtain ⟨keys, hkeys, h⟩ := h
  cases h
  obtain ⟨own, hown, hsub⟩ := mem_emitIndexesKeys hkeys hindex
  obtain ⟨values, hvalues, key, hkey, hix⟩ := mem_emitIndexKeys hown depth hpos hle
  refine ⟨values, hvalues, key, ?_, hix⟩
  exact List.mem_append_right _ (List.mem_cons_of_mem _ (List.mem_cons_of_mem _ (hsub key hkey)))

/-! ## One key for each prefix up to the sign of zero -/

theorem toWire_zeroed (v : JsValue) : Wire.toWire v.zeroed = Wire.toWire v := by
  cases v with
  | number n => cases n <;> rfl
  | _ => rfl

theorem toWireItems_zeroed (items : List JsValue) :
    Wire.toWireItems (items.map JsValue.zeroed) = Wire.toWireItems items := by
  induction items with
  | nil => rfl
  | cons item rest ih => simp only [List.map_cons, Wire.toWireItems, toWire_zeroed, ih]

theorem ixKey_congr {left right : List JsValue}
    (h : left.map JsValue.zeroed = right.map JsValue.zeroed) (table index : String) :
    ixKey table index left = ixKey table index right := by
  have hitems : Wire.toWireItems left = Wire.toWireItems right := by
    rw [← toWireItems_zeroed left, h, toWireItems_zeroed]
  simp only [ixKey, Wire.stableEncode, Wire.toWire, hitems]

end AckerDB
