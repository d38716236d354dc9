import AckerDB.Database.Query.Reactivity

/-!
# Serializable filters

A caller sends a filter as an expression; `FilterValidator` checks it against the declared fields
within budgets of nodes and values, reports what is wrong as issues, and `filterPredicate` turns
what is left into a predicate tree, folding the constants that empty groups and memberships are.

* `FieldPlan` — a declared column, with what its validator promises;
* `validate`, `filterPredicate` — the two passes;
* `meaning` — what an expression says, clause by clause;
* `filter_means` — an accepted filter means what it says exactly when each of its operators is one
  of the vocabulary, and not a name that every object inherits.
-/

namespace AckerDB

open JsValue List

/-! ## Declared fields -/

/-- The kinds of column that can be compared. -/
inductive ColumnKind where
  | pk | string | int | float | bigint | identity | file | fileGrant | scheduleAt | boolean | enum
  deriving DecidableEq

namespace ColumnKind

/-- The name in the source. -/
def name : ColumnKind → String
  | pk => "pk"
  | string => "string"
  | int => "int"
  | float => "float"
  | bigint => "bigint"
  | identity => "identity"
  | file => "file"
  | fileGrant => "fileGrant"
  | scheduleAt => "scheduleAt"
  | boolean => "boolean"
  | enum => "enum"

/-- `ORDERED_KINDS`. -/
def ordered : ColumnKind → Bool
  | file | fileGrant | boolean | enum => false
  | _ => true

/-- The values a validator of the kind may accept. -/
def accepts : ColumnKind → JsValue → Bool
  | pk, .bigint _ | bigint, .bigint _ | identity, .bigint _ | file, .bigint _
  | fileGrant, .bigint _ => true
  | string, .string _ | enum, .string _ => true
  | int, .number n | float, .number n | scheduleAt, .number n => n.isFinite
  | boolean, .bool _ => true
  | _, _ => false

/-- `scalarEncoder`: a boolean is stored as a number, everything else as it is. -/
def encodeScalar : ColumnKind → JsValue → JsValue
  | boolean, .bool b => .number (.finite (if b then 1 else 0))
  | _, value => value

end ColumnKind

/-- A declared column: its validator and, for an enum, the tags of the variants. -/
structure FieldPlan where
  kind : ColumnKind
  nullable : Bool
  /-- `check`; an error is its message without the path. -/
  check : JsValue → Except String JsValue
  typeName : String
  variantTag : String → Option Int
  /-- A scalar validator returns the value it is given. -/
  checked : ∀ value found, check value = .ok found → found = value ∧ kind.accepts value = true
  /-- Every declared variant has a tag. -/
  tagged : kind = .enum → ∀ variant found, check (.string variant) = .ok found →
    (variantTag variant).isSome = true

/-- `this.fields`, and the names of the table. -/
structure FilterableFields where
  displayName : String
  pk : String
  fields : List (String × FieldPlan)

namespace Filter

/-! ## The vocabulary -/

/-- What `OPERATORS[op]` finds. -/
inductive FilterOperator where
  | known (op : ComparisonOperator)
  /-- Something every object inherits: a function, or the prototype itself. -/
  | inherited (name : String)
  deriving DecidableEq

/-- The names every object inherits. -/
def inheritedNames : List String :=
  ["constructor", "__defineGetter__", "__defineSetter__", "hasOwnProperty", "__lookupGetter__",
    "__lookupSetter__", "isPrototypeOf", "propertyIsEnumerable", "toString", "valueOf",
    "__proto__", "toLocaleString"]

/-- The own fields of `OPERATORS`. -/
def comparisonOperator? : String → Option ComparisonOperator
  | "eq" => some .eq
  | "neq" => some .ne
  | "gt" => some .gt
  | "gte" => some .gte
  | "lt" => some .lt
  | "lte" => some .lte
  | _ => none

/-- `OPERATORS[op]`. -/
def operator? (name : String) : Option FilterOperator :=
  match comparisonOperator? name with
  | some op => some (.known op)
  | none => if name ∈ inheritedNames then some (.inherited name) else none

/-- `MAX_FILTER_DEPTH`. -/
def maxFilterDepth : Nat := 8

/-- `MAX_FILTER_NODES`. -/
def maxFilterNodes : Nat := 128

/-- `MAX_FILTER_VALUES`. -/
def maxFilterValues : Nat := 1024

/-- One character of `JSON.stringify`. -/
def escapeJson (c : Char) : String :=
  match c.toNat with
  | 34 => "\\\""
  | 92 => "\\\\"
  | 8 => "\\b"
  | 9 => "\\t"
  | 10 => "\\n"
  | 12 => "\\f"
  | 13 => "\\r"
  | code =>
    if code < 16 then "\\u000" ++ String.ofList (Nat.toDigits 16 code)
    else if code < 32 then "\\u00" ++ String.ofList (Nat.toDigits 16 code)
    else c.toString

/-- `JSON.stringify` of a string. -/
def quoteJson (text : String) : String :=
  "\"" ++ String.join (text.toList.map escapeJson) ++ "\""

/-! ## Validation -/

/-- `FilterIssue`. -/
structure FilterIssue where
  path : String
  message : String
  deriving DecidableEq

/-- `Walk`. -/
structure Walk where
  issues : List FilterIssue := []
  nodes : Nat := 0
  values : Nat := 0
  overflowed : Bool := false
  deriving DecidableEq

/-- `walk.issues.push`. -/
def Walk.report (walk : Walk) (path message : String) : Walk :=
  { walk with issues := walk.issues ++ [{ path, message }] }

/-- `overflow`. -/
def Walk.overflow (walk : Walk) (path bound : String) : Walk :=
  if walk.overflowed then walk
  else { walk with overflowed := true }.report path ("a filter may hold " ++ bound)

/-- The two groups. -/
inductive GroupOperator where
  | all | any
  deriving DecidableEq

/-- The key of a group. -/
def GroupOperator.key : GroupOperator → String
  | all => "all"
  | any => "any"

/-- `ValidatedNode`. -/
inductive ValidatedNode where
  | column (column : String) (op : FilterOperator) (value : JsValue)
  | null (column : String) (isNull : Bool)
  | set (column : String) (negated : Bool) (values : List JsValue)
  | group (op : GroupOperator) (children : List ValidatedNode)

/-- The answer of a pass over a node, and the walk after it. -/
abbrev Walked (α : Type) := Option α × Walk

section Validator

variable (declared : FilterableFields)

/-- `checked`. -/
def checkedValue (plan : FieldPlan) (value : JsValue) (path : String) (walk : Walk) :
    Walked JsValue :=
  match plan.check value with
  | .ok found => (some found, walk)
  | .error message => (none, walk.report path message)

/-- `comparison`. -/
def comparison (field : String) (plan : FieldPlan) (name : String) (op : FilterOperator)
    (value : JsValue) (path : String) (walk : Walk) : Walked ValidatedNode :=
  let equality : Bool := name = "eq" || name = "neq"
  if value = .null then
    if !equality then
      (none, walk.report (path ++ ".value")
        "null combines only with \"eq\" and \"neq\", which test presence")
    else if !plan.nullable then (none, walk.report (path ++ ".value") "this field is not nullable")
    else (some (.null field (name = "eq")), walk)
  else if !equality && !plan.kind.ordered then
    (none, walk.report (path ++ ".op")
      ("a " ++ plan.kind.name ++ " field does not support " ++ quoteJson name))
  else if maxFilterValues ≤ walk.values then
    (none, { walk with values := walk.values + 1 }.overflow (path ++ ".value")
      "at most 1024 values")
  else
    match checkedValue plan value (path ++ ".value") { walk with values := walk.values + 1 } with
    | (none, walk) => (none, walk)
    | (some found, walk) => (some (.column field op found), walk)

/-- The loop of `membership`, from an index on. -/
def membershipFrom (plan : FieldPlan) (path : String) :
    Nat → List JsValue → List JsValue → Bool → Walk → Walked (List JsValue)
  | _, [], values, failed, walk => (if failed then none else some values, walk)
  | index, member :: rest, values, failed, walk =>
    let memberPath := path ++ ".values[" ++ toString index ++ "]"
    if maxFilterValues ≤ walk.values then
      (none, { walk with values := walk.values + 1 }.overflow memberPath "at most 1024 values")
    else if member = .null then
      membershipFrom plan path (index + 1) rest values true
        ({ walk with values := walk.values + 1 }.report memberPath
          "null is not a member value — use \"eq\" or \"neq\" against null")
    else
      match checkedValue plan member memberPath { walk with values := walk.values + 1 } with
      | (none, walk) => membershipFrom plan path (index + 1) rest values true walk
      | (some found, walk) =>
        membershipFrom plan path (index + 1) rest (values ++ [found]) failed walk

/-- `membership`. -/
def membership (field : String) (plan : FieldPlan) (negated : Bool) (raw : JsValue)
    (path : String) (walk : Walk) : Walked ValidatedNode :=
  match raw with
  | .array members =>
    match membershipFrom plan path 0 members [] false walk with
    | (none, walk) => (none, walk)
    | (some values, walk) => (some (.set field negated values), walk)
  | _ => (none, walk.report (path ++ ".values") "\"values\" must be an array")

/-- The keys a clause may have. -/
def unexpectedKey? (raw : List (String × JsValue)) (valueKey : String) : Option String :=
  (raw.map Prod.fst).find? fun key => key ≠ "field" && key ≠ "op" && key ≠ valueKey

/-- `clause`, once its field and its operator are known to be strings. -/
def namedClause (raw : List (String × JsValue)) (field name : String) (path : String)
    (walk : Walk) : Walked ValidatedNode :=
  let isMembership : Bool := name = "anyOf" || name = "noneOf"
  let valueKey := if isMembership then "values" else "value"
  match if isMembership then some (.known .eq) else operator? name with
  | none => (none, walk.report (path ++ ".op") ("unknown operator " ++ quoteJson name))
  | some op =>
    match unexpectedKey? raw valueKey with
    | some key =>
      (none, walk.report (path ++ "." ++ key) ("unexpected key " ++ quoteJson key))
    | none =>
      if (raw.lookup valueKey).isNone then
        (none, walk.report path
          ("operator " ++ quoteJson name ++ " requires \"" ++ valueKey ++ "\""))
      else
        match declared.fields.lookup field with
        | none =>
          (none, walk.report (path ++ ".field")
            ("unknown filterable field " ++ quoteJson field))
        | some plan =>
          if isMembership then
            membership field plan (name = "noneOf") (get raw "values") path walk
          else comparison field plan name op (get raw "value") path walk

/-- `clause`. -/
def clause (raw : List (String × JsValue)) (path : String) (walk : Walk) : Walked ValidatedNode :=
  match get raw "field", get raw "op" with
  | .string field, .string name => namedClause declared raw field name path walk
  | _, _ =>
    (none, walk.report path
      "a clause declares \"field\" and \"op\" (or is an \"all\"/\"any\" group)")

/-- The loop over the members of a group, from an index on. -/
def membersFrom (visit : JsValue → String → Walk → Walked ValidatedNode) (path : String) :
    Nat → List JsValue → List ValidatedNode → Bool → Walk → Walked (List ValidatedNode)
  | _, [], children, failed, walk => (if failed then none else some children, walk)
  | index, member :: rest, children, failed, walk =>
    if walk.overflowed then (none, walk)
    else
      match visit member (path ++ "[" ++ toString index ++ "]") walk with
      | (none, walk) => membersFrom visit path (index + 1) rest children true walk
      | (some child, walk) =>
        membersFrom visit path (index + 1) rest (children ++ [child]) failed walk

/-- The group an object is, if it has a key of one. -/
inductive GroupShape where
  | clause
  | malformed
  | group (op : GroupOperator) (members : JsValue)

/-- `keys.includes("all")`, and what follows from it. -/
def groupShape (raw : List (String × JsValue)) : GroupShape :=
  if (raw.lookup "all").isNone && (raw.lookup "any").isNone then .clause
  else
    match raw with
    | [(key, members)] => .group (if key = "all" then .all else .any) members
    | _ => .malformed

/-- `node`, with the number of levels that groups may still nest. -/
def node : Nat → JsValue → String → Walk → Walked ValidatedNode
  | levels, raw, path, walk =>
    if maxFilterNodes ≤ walk.nodes then
      (none, { walk with nodes := walk.nodes + 1 }.overflow path
        "at most 128 clauses and groups")
    else
      match raw with
      | .object source =>
        match groupShape source with
        | .clause => clause declared source path { walk with nodes := walk.nodes + 1 }
        | .malformed =>
          (none, { walk with nodes := walk.nodes + 1 }.report path
            "a group has exactly one key: \"all\" or \"any\"")
        | .group op (.array members) =>
          match levels with
          | 0 =>
            (none, { walk with nodes := walk.nodes + 1 }.report path
              "groups may not nest deeper than 8 levels")
          | levels + 1 =>
            match membersFrom (node levels) (path ++ "." ++ op.key) 0 members [] false
                { walk with nodes := walk.nodes + 1 } with
            | (none, walk) => (none, walk)
            | (some children, walk) => (some (.group op children), walk)
        | .group op _ =>
          (none, { walk with nodes := walk.nodes + 1 }.report (path ++ "." ++ op.key)
            ("\"" ++ op.key ++ "\" must be an array"))
      -- a byte array is an object without the fields of a clause
      | .bytes _ => clause declared [] path { walk with nodes := walk.nodes + 1 }
      | _ =>
        (none, { walk with nodes := walk.nodes + 1 }.report path
          "expected a filter expression object")

/-- `validate`: the filter, or the issues of `filter.invalid`. -/
def validate (expression : JsValue) : Except (List FilterIssue) ValidatedNode :=
  match node declared maxFilterDepth expression "$" {} with
  | (some filter, walk) => if walk.issues = [] then .ok filter else .error walk.issues
  | (none, walk) => .error walk.issues

end Validator

/-! ## Compilation -/

/-- A predicate tree as `fold` builds it, whose operators are what the table of operators held. -/
inductive FilterTree where
  | comparison (column : String) (op : FilterOperator) (value : JsValue)
  | in (column : String) (values : List JsValue)
  | null (column : String) (isNull : Bool)
  | not (expression : FilterTree)
  | and (left right : FilterTree)
  | or (left right : FilterTree)

/-- `FoldedNode`. -/
inductive Folded where
  | true
  | false
  | tree (tree : FilterTree)

/-- `toSqlPredicateValue`, for a column that is not a union. -/
def toSqlPredicateValue (declared : FilterableFields) (column : String) (plan : FieldPlan)
    (value : JsValue) : Except String JsValue :=
  let path := declared.displayName ++ "." ++ column
  if value = .null then .error (path ++ ": use .isNull() or .isNotNull() for nullable values")
  else if plan.kind = .enum then
    match value with
    | .string variant =>
      match plan.variantTag variant with
      | some tag => .ok (.number (.finite tag))
      | none =>
        .error (path ++ ": unknown " ++ plan.typeName ++ " variant " ++ quoteJson variant)
    | _ => .error (path ++ ": unknown " ++ plan.typeName ++ " variant")
  else
    match plan.check value with
    | .ok found => .ok (plan.kind.encodeScalar found)
    | .error message => .error (path ++ ": " ++ message)

/-- The storage value of a filter's value; the plan has every column of the table. -/
def storageValue (declared : FilterableFields) (column : String) (value : JsValue) :
    Except String JsValue :=
  match declared.fields.lookup column with
  | some plan => toSqlPredicateValue declared column plan value
  | none => .error "column without a plan"

/-- The constant a group starts from. -/
def GroupOperator.identity : GroupOperator → Folded
  | all => .true
  | any => .false

/-- The truth of a group, from those of its members. -/
def GroupOperator.many : GroupOperator → List Kleene → Kleene
  | all => Kleene.all
  | any => Kleene.any

/-- Two trees under the group's connective. -/
def GroupOperator.join : GroupOperator → FilterTree → FilterTree → FilterTree
  | all => .and
  | any => .or

/-- One child of a group; nothing where the child absorbs the group. -/
def GroupOperator.combine (op : GroupOperator) (combined folded : Folded) : Option Folded :=
  match op, folded with
  | all, .false => none
  | any, .true => none
  | all, .true => some combined
  | any, .false => some combined
  | op, .tree right =>
    match combined with
    | .tree left => some (.tree (op.join left right))
    | _ => some (.tree right)

mutual

/-- `fold`. -/
def fold (declared : FilterableFields) : ValidatedNode → Except String Folded
  | .column column op value => do
      let stored ← storageValue declared column value
      return .tree (.comparison column op stored)
  | .null column isNull => .ok (.tree (.null column isNull))
  | .set column negated values =>
    if values = [] then .ok (if negated then .true else .false)
    else do
      let stored ← values.mapM (storageValue declared column)
      return .tree (if negated then .not (.in column stored) else .in column stored)
  | .group op children => foldChildren declared op op.identity children

/-- The loop of `fold` over the children of a group. -/
def foldChildren (declared : FilterableFields) (op : GroupOperator) (combined : Folded) :
    List ValidatedNode → Except String Folded
  | [] => .ok combined
  | child :: rest => do
      let folded ← fold declared child
      match op.combine combined folded with
      -- an absorbing child ends the loop
      | none => return folded
      | some combined => foldChildren declared op combined rest

end

/-- `filterPredicate`; nothing stands for a filter that matches every row. -/
def filterPredicate (declared : FilterableFields) (filter : ValidatedNode) :
    Except String (Option FilterTree) := do
  match ← fold declared filter with
  | .true => return none
  | .false => return some (.in declared.pk [])
  | .tree tree => return some tree

/-- The predicate a tree is, if all of its operators are operators. -/
def FilterTree.predicate? : FilterTree → Option PredicateNode
  | .comparison column (.known op) value => some (.comparison column op value)
  | .comparison _ (.inherited _) _ => none
  | .in column values => some (.in column values)
  | .null column isNull => some (.null column isNull)
  | .not expression => do
      let expression ← expression.predicate?
      return .not expression
  | .and left right => do
      let left ← left.predicate?
      let right ← right.predicate?
      return .and left right
  | .or left right => do
      let left ← left.predicate?
      let right ← right.predicate?
      return .or left right

/-! ## What an expression says -/

/-- The truth of an expression on a row, given by the storage value of each column. -/
abbrev Truth := (String → JsValue) → Kleene

section Meaning

variable (declared : FilterableFields) (sql : Sql)

/-- The meaning of a comparison with a value, or of a test for presence. -/
def comparisonMeaning (field : String) (op : ComparisonOperator) (value : JsValue) :
    Option Truth :=
  if value = .null then
    match op with
    | .eq => some fun stored => some (decide (stored field = .null))
    | .ne => some fun stored => some (decide (stored field ≠ .null))
    | _ => none
  else
    match storageValue declared field value with
    | .ok found => some fun stored => sql.comparison field op (stored field) found
    | .error _ => none

/-- The meaning of a membership. -/
def membershipMeaning (field : String) (values : JsValue) : Option Truth :=
  match values with
  | .array members =>
    match members.mapM (storageValue declared field) with
    | .ok found =>
      some fun stored => Kleene.any (found.map (sql.comparison field .eq (stored field)))
    | .error _ => none
  | _ => none

/-- The meaning of a clause; an operator that is none has no meaning. -/
def clauseMeaning (raw : List (String × JsValue)) : Option Truth :=
  match get raw "field", get raw "op" with
  | .string field, .string "anyOf" =>
    membershipMeaning declared sql field (get raw "values")
  | .string field, .string "noneOf" =>
    (membershipMeaning declared sql field (get raw "values")).map
      fun truth stored => Kleene.not (truth stored)
  | .string field, .string name =>
    match comparisonOperator? name with
    | some op => comparisonMeaning declared sql field op (get raw "value")
    | none => none
  | _, _ => none

/-- **The direct meaning of an expression**, as deep as filters may nest. -/
def meaning : Nat → JsValue → Option Truth
  | levels, .object source =>
    match groupShape source with
    | .clause => clauseMeaning declared sql source
    | .malformed => none
    | .group op (.array members) =>
      match levels with
      | 0 => none
      | levels + 1 =>
        (members.mapM (meaning levels)).map
          fun truths stored => op.many (truths.map fun truth => truth stored)
    | .group _ _ => none
  | _, _ => none

end Meaning

variable {plan : FieldPlan} {value raw : JsValue} {path name field : String} {walk after : Walk}
  {source : List (String × JsValue)} {filter : ValidatedNode} {members : List JsValue}
  {children : List ValidatedNode} {levels : Nat} {α β : Type}

/-- Every operator of the expression is one of the vocabulary. -/
def knownOperators : Nat → JsValue → Bool
  | levels, .object source =>
    match groupShape source with
    | .clause =>
      match get source "op" with
      | .string name =>
        name = "anyOf" || name = "noneOf" || (comparisonOperator? name).isSome
      | _ => false
    | .malformed => false
    | .group _ (.array members) =>
      match levels with
      | 0 => false
      | levels + 1 => members.all (knownOperators levels)
    | .group _ _ => false
  | _, _ => false

/-- The columns of the predicate are declared, apart from the constant `pk IN ()`. -/
def OnDeclared (declared : FilterableFields) : PredicateNode → Prop
  | .comparison column _ _ => (declared.fields.lookup column).isSome = true
  | .in column values => (declared.fields.lookup column).isSome = true ∨ values = []
  | .between _ _ _ => False
  | .null column _ => (declared.fields.lookup column).isSome = true
  | .and left right => OnDeclared declared left ∧ OnDeclared declared right
  | .or left right => OnDeclared declared left ∧ OnDeclared declared right
  | .not expression => OnDeclared declared expression

/-- **What the compiler returns means what the expression says.** -/
def MeansIt (declared : FilterableFields) (sql : Sql) (truth : Truth) : Option FilterTree → Prop
  | none => ∀ stored, truth stored = some true
  | some tree => ∃ predicate, tree.predicate? = some predicate ∧ OnDeclared declared predicate ∧
      ∀ stored, predicate.eval sql stored = truth stored

/-! ## What the validator accepts -/

/-- A clause, and the node it becomes. -/
inductive ReadsClause (declared : FilterableFields) (source : List (String × JsValue)) :
    ValidatedNode → Prop
  | presence {field name : String} {op : ComparisonOperator} {plan : FieldPlan} :
      get source "field" = .string field → get source "op" = .string name →
      comparisonOperator? name = some op → op = .eq ∨ op = .ne →
      declared.fields.lookup field = some plan → get source "value" = .null →
      ReadsClause declared source (.null field (op = .eq))
  | comparison {field name : String} {op : FilterOperator} {plan : FieldPlan} {value : JsValue} :
      get source "field" = .string field → get source "op" = .string name →
      name ≠ "anyOf" → name ≠ "noneOf" → operator? name = some op →
      declared.fields.lookup field = some plan → get source "value" = value →
      value ≠ .null → plan.check value = .ok value →
      ReadsClause declared source (.column field op value)
  | membership {field name : String} {negated : Bool} {plan : FieldPlan}
      {members : List JsValue} :
      get source "field" = .string field → get source "op" = .string name →
      name = (if negated then "noneOf" else "anyOf") →
      declared.fields.lookup field = some plan → get source "values" = .array members →
      (∀ member ∈ members, member ≠ .null ∧ plan.check member = .ok member) →
      ReadsClause declared source (.set field negated members)

/-- An expression, and the node it becomes. -/
def Reads (declared : FilterableFields) : Nat → JsValue → ValidatedNode → Prop
  | levels, .object source, filter =>
    match groupShape source with
    | .clause => ReadsClause declared source filter
    | .malformed => False
    | .group op (.array members) =>
      match levels with
      | 0 => False
      | levels + 1 => ∃ children, filter = .group op children ∧
          Forall₂ (Reads declared levels) members children
    | .group _ _ => False
  | _, _, _ => False

variable {declared : FilterableFields}

theorem check_eq {found : JsValue} (h : plan.check value = .ok found) :
    found = value := (plan.checked value found h).1

theorem checkedValue_eq_some {found : JsValue}
    (h : checkedValue plan value path walk = (some found, after)) :
    found = value ∧ plan.check value = .ok value := by
  unfold checkedValue at h
  split at h
  · rename_i checked hcheck
    cases h
    have heq := check_eq hcheck
    rw [heq] at hcheck
    exact ⟨heq, hcheck⟩
  · cases h

theorem comparisonOperator?_equality (h : name = "eq" ∨ name = "neq") :
    ∃ op, comparisonOperator? name = some op ∧ (op = .eq ∨ op = .ne) ∧
      decide (name = "eq") = decide (op = .eq) := by
  rcases h with rfl | rfl
  · exact ⟨.eq, rfl, .inl rfl, rfl⟩
  · exact ⟨.ne, rfl, .inr rfl, rfl⟩

theorem readsClause_of_comparison {op : FilterOperator}
    (hfield : get source "field" = .string field)
    (hname : get source "op" = .string name) (hany : name ≠ "anyOf")
    (hnone : name ≠ "noneOf") (hop : operator? name = some op)
    (hplan : declared.fields.lookup field = some plan)
    (h : comparison field plan name op (get source "value") path walk =
      (some filter, after)) : ReadsClause declared source filter := by
  unfold comparison at h
  dsimp only at h
  split at h
  · rename_i hnull
    split at h
    · cases h
    rename_i hequality
    split at h
    · cases h
    cases h
    have hnames : name = "eq" ∨ name = "neq" := by
      rw [Bool.not_eq_true', Bool.not_eq_false, Bool.or_eq_true, decide_eq_true_eq,
        decide_eq_true_eq] at hequality
      exact hequality
    obtain ⟨found, hfound, hkind, hdecide⟩ := comparisonOperator?_equality hnames
    rw [hdecide]
    exact .presence hfield hname hfound hkind hplan hnull
  rename_i hvalue
  split at h
  · cases h
  split at h
  · cases h
  split at h
  · cases h
  rename_i found walk' hchecked
  cases h
  obtain ⟨rfl, hcheck⟩ := checkedValue_eq_some hchecked
  exact .comparison hfield hname hany hnone hop hplan rfl hvalue hcheck

theorem membershipFrom_eq_some {index : Nat} {values out : List JsValue} {failed : Bool}
    (h : membershipFrom plan path index members values failed walk = (some out, after)) :
    failed = false ∧ out = values ++ members ∧
      ∀ member ∈ members, member ≠ .null ∧ plan.check member = .ok member := by
  induction members generalizing index values failed walk with
  | nil =>
    simp only [membershipFrom, Prod.mk.injEq, Option.ite_none_left_eq_some,
      Option.some.injEq] at h
    obtain ⟨⟨hfailed, rfl⟩, -⟩ := h
    simpa using hfailed
  | cons _ _ ih =>
    simp only [membershipFrom] at h
    split at h
    · cases h
    split at h
    · obtain ⟨hfailed, -⟩ := ih h
      cases hfailed
    rename_i hnull
    split at h
    · obtain ⟨hfailed, -⟩ := ih h
      cases hfailed
    rename_i found walk' hchecked
    obtain ⟨rfl, hcheck⟩ := checkedValue_eq_some hchecked
    obtain ⟨hfailed, rfl, hrest⟩ := ih h
    refine ⟨hfailed, by simp, ?_⟩
    rw [forall_mem_cons]
    exact ⟨⟨hnull, hcheck⟩, hrest⟩

theorem readsClause_of_membership (hfield : get source "field" = .string field)
    (hname : get source "op" = .string name) (hmember : name = "anyOf" ∨ name = "noneOf")
    (hplan : declared.fields.lookup field = some plan)
    (h : membership field plan (name = "noneOf") (get source "values") path walk =
      (some filter, after)) : ReadsClause declared source filter := by
  unfold membership at h
  split at h
  · rename_i members hmembers
    split at h
    · cases h
    rename_i values walk' hvalues
    cases h
    obtain ⟨-, rfl, hall⟩ := membershipFrom_eq_some hvalues
    refine .membership hfield hname ?_ hplan hmembers hall
    rcases hmember with rfl | rfl <;> rfl
  · cases h

theorem readsClause_of_clause (h : clause declared source path walk = (some filter, after)) :
    ReadsClause declared source filter := by
  unfold clause at h
  split at h
  · rename_i field name hfield hname
    unfold namedClause at h
    by_cases hmember : name = "anyOf" ∨ name = "noneOf"
    · have hbool : (decide (name = "anyOf") || decide (name = "noneOf")) = true := by
        simpa using hmember
      simp only [hbool, if_true] at h
      split at h
      · cases h
      split at h
      · cases h
      split at h
      · cases h
      · rename_i plan hplan
        exact readsClause_of_membership hfield hname hmember hplan h
    have hbool : (decide (name = "anyOf") || decide (name = "noneOf")) = false := by
      simpa using hmember
    simp only [hbool, Bool.false_eq_true, if_false] at h
    rw [not_or] at hmember
    split at h
    · cases h
    rename_i op hop
    split at h
    · cases h
    split at h
    · cases h
    split at h
    · cases h
    · rename_i plan hplan
      exact readsClause_of_comparison hfield hname hmember.1 hmember.2 hop hplan h
  · cases h

theorem membersFrom_eq_some {visit : JsValue → String → Walk → Walked ValidatedNode} {index : Nat}
    {out : List ValidatedNode} {failed : Bool}
    (h : membersFrom visit path index members children failed walk = (some out, after)) :
    failed = false ∧ ∃ more, out = children ++ more ∧
      Forall₂ (fun member child => ∃ path walk after,
        visit member path walk = (some child, after)) members more := by
  induction members generalizing index children failed walk with
  | nil =>
    simp only [membersFrom, Prod.mk.injEq, Option.ite_none_left_eq_some,
      Option.some.injEq] at h
    obtain ⟨⟨hfailed, rfl⟩, -⟩ := h
    exact ⟨by simpa using hfailed, [], by simp, .nil⟩
  | cons _ _ ih =>
    simp only [membersFrom] at h
    split at h
    · cases h
    split at h
    · obtain ⟨hfailed, -⟩ := ih h
      cases hfailed
    · rename_i child walk' hvisit
      obtain ⟨hfailed, more, rfl, hrest⟩ := ih h
      exact ⟨hfailed, child :: more, by simp, .cons ⟨_, _, _, hvisit⟩ hrest⟩

/-- **What the validator accepts is a filter**, and the node says which. -/
theorem reads_of_node (h : node declared levels raw path walk = (some filter, after)) :
    Reads declared levels raw filter := by
  induction levels using Nat.strong_induction_on generalizing raw path walk after filter with
  | _ _ ih =>
    unfold node at h
    split at h
    · cases h
    split at h
    · rename_i source
      split at h
      · rename_i hshape
        simp only [Reads, hshape]
        exact readsClause_of_clause h
      · cases h
      · rename_i op members hshape
        split at h
        · cases h
        split at h
        · cases h
        rename_i inner _ children walk' hmembers
        cases h
        obtain ⟨-, more, rfl, hall⟩ := membersFrom_eq_some hmembers
        simp only [Reads, hshape]
        refine ⟨_, rfl, ?_⟩
        simpa using hall.imp fun member child ⟨_, _, _, hvisit⟩ =>
          ih inner (Nat.lt_succ_self _) hvisit
      · cases h
    · have hbytes := readsClause_of_clause h
      cases hbytes <;> simp [JsValue.get] at *
    · cases h

/-! ## What the compiler makes of it -/

variable {sql : Sql}

/-- What a folded node says. -/
def Agrees (declared : FilterableFields) (sql : Sql) (truth : Truth) : Folded → Prop
  | .true => ∀ stored, truth stored = some true
  | .false => ∀ stored, truth stored = some false
  | .tree tree => ∃ predicate, tree.predicate? = some predicate ∧ OnDeclared declared predicate ∧
      ∀ stored, predicate.eval sql stored = truth stored

/-- A value that its column accepts has a storage value. -/
theorem exists_storageValue (hplan : declared.fields.lookup field = some plan)
    (hnull : value ≠ .null) (hcheck : plan.check value = .ok value) :
    ∃ stored, storageValue declared field value = .ok stored := by
  simp only [storageValue, hplan, toSqlPredicateValue, if_neg hnull]
  split
  · rename_i henum
    have haccepts := (plan.checked value value hcheck).2
    rw [henum] at haccepts
    cases value with
    | string variant =>
      obtain ⟨tag, htag⟩ := Option.isSome_iff_exists.1 (plan.tagged henum variant _ hcheck)
      exact ⟨.number (.finite tag), by simp [htag]⟩
    | _ => cases haccepts
  · exact ⟨plan.kind.encodeScalar value, by simp [hcheck]⟩

theorem clauseMeaning_comparison (hfield : get source "field" = .string field)
    (hname : get source "op" = .string name) (hany : name ≠ "anyOf")
    (hnone : name ≠ "noneOf") :
    clauseMeaning declared sql source =
      match comparisonOperator? name with
      | some op => comparisonMeaning declared sql field op (get source "value")
      | none => none := by
  unfold clauseMeaning
  rw [hfield, hname]
  split
  · rename_i heq
    cases heq
    exact absurd rfl hany
  · rename_i heq
    cases heq
    exact absurd rfl hnone
  · rename_i hfound hop
    cases hfound
    cases hop
    rfl
  · rename_i hnot
    exact absurd rfl (hnot field name rfl)

/-- A clause with an operator of the vocabulary means what its node is folded to. -/
theorem fold_clause (h : ReadsClause declared source filter)
    (hknown : ∀ name, get source "op" = .string name →
      name = "anyOf" ∨ name = "noneOf" ∨ (comparisonOperator? name).isSome = true) :
    ∃ truth folded, clauseMeaning declared sql source = some truth ∧
      fold declared filter = .ok folded ∧ Agrees declared sql truth folded := by
  cases h with
  | @presence field name _ _ hfield hname hop hkind hplan hvalue =>
    have hany : name ≠ "anyOf" := by
      rintro rfl
      cases hop
    have hnone : name ≠ "noneOf" := by
      rintro rfl
      cases hop
    have hdeclared : (declared.fields.lookup field).isSome = true := by simp [hplan]
    rw [clauseMeaning_comparison hfield hname hany hnone, hop, hvalue]
    rcases hkind with rfl | rfl
    · refine ⟨_, _, rfl, rfl, _, rfl, hdeclared, fun stored => ?_⟩
      simp [PredicateNode.eval]
    · refine ⟨_, _, rfl, rfl, _, rfl, hdeclared, fun stored => ?_⟩
      by_cases hnull : stored field = .null <;> simp [PredicateNode.eval, hnull]
  | @comparison field name op _ _ hfield hname hany hnone hop hplan hvalue hnull hcheck =>
    obtain ⟨stored, hstored⟩ := exists_storageValue hplan hnull hcheck
    have hdeclared : (declared.fields.lookup field).isSome = true := by simp [hplan]
    obtain ⟨found, hfound⟩ : ∃ found, comparisonOperator? name = some found := by
      rcases hknown name hname with heq | heq | hsome
      · exact absurd heq hany
      · exact absurd heq hnone
      · exact Option.isSome_iff_exists.1 hsome
    have hop' : op = .known found := by
      rw [operator?, hfound] at hop
      exact (Option.some.inj hop).symm
    rw [clauseMeaning_comparison hfield hname hany hnone, hfound, hvalue]
    refine ⟨fun row => sql.comparison field found (row field) stored,
      .tree (.comparison field op stored), ?_, ?_, .comparison field found stored, ?_,
      hdeclared, fun row => rfl⟩
    · simp only [comparisonMeaning, if_neg hnull, hstored]
    · simp [fold, hstored]
    · rw [hop']
      rfl
  | @membership field _ negated _ members hfield hname hnegated hplan hmembers hall =>
    have hdeclared : (declared.fields.lookup field).isSome = true := by simp [hplan]
    obtain ⟨stored, hstored, -⟩ := Except.exists_mapM_eq_ok fun member hmember =>
      exists_storageValue hplan (hall member hmember).1 (hall member hmember).2
    have hmeaning : membershipMeaning declared sql field (.array members) =
        some fun row => Kleene.any (stored.map (sql.comparison field .eq (row field))) := by
      simp [membershipMeaning, hstored]
    have hclause : clauseMeaning declared sql source = some fun row =>
        if negated then
          Kleene.not (Kleene.any (stored.map (sql.comparison field .eq (row field))))
        else Kleene.any (stored.map (sql.comparison field .eq (row field))) := by
      cases negated with
      | true | false => simp [clauseMeaning, hfield, hname, hnegated, hmembers, hmeaning]
    by_cases hnil : members = []
    · subst hnil
      cases hstored
      refine ⟨_, _, hclause, by simp [fold]; rfl, ?_⟩
      cases negated <;> simp [Agrees, Kleene.any, Kleene.not]
    refine ⟨_, _, hclause, by simp [fold, hnil, hstored]; rfl, ?_⟩
    cases negated with
    | true | false => exact ⟨_, rfl, .inl hdeclared, fun row => rfl⟩

/-- An operator outside of the vocabulary has no meaning. -/
theorem clauseMeaning_eq_none (h : ReadsClause declared source filter)
    (hname : get source "op" = .string name) (hany : name ≠ "anyOf")
    (hnone : name ≠ "noneOf") (hop : comparisonOperator? name = none) :
    clauseMeaning declared sql source = none := by
  obtain ⟨field, hfield⟩ : ∃ field, get source "field" = .string field := by
    cases h with
    | presence hfield | comparison hfield | membership hfield => exact ⟨_, hfield⟩
  rw [clauseMeaning_comparison hfield hname hany hnone, hop]

/-! ## Groups -/

/-- The connective of a group. -/
def GroupOperator.connect : GroupOperator → Kleene → Kleene → Kleene
  | all => Kleene.and
  | any => Kleene.or

section

variable (op : GroupOperator)

theorem many_cons (a : Kleene) (rest : List Kleene) :
    op.many (a :: rest) = op.connect a (op.many rest) := by
  cases op <;> rfl

theorem connect_assoc (a b c : Kleene) :
    op.connect (op.connect a b) c = op.connect a (op.connect b c) := by
  cases op with
  | all => exact Kleene.and_assoc a b c
  | any => exact Kleene.or_assoc a b c

theorem connect_many_nil (a : Kleene) : op.connect a (op.many []) = a := by
  cases op with
  | all => exact Kleene.and_true a
  | any => exact Kleene.or_false a

theorem many_nil_connect (a : Kleene) : op.connect (op.many []) a = a := by
  cases op with
  | all => exact Kleene.true_and a
  | any => exact Kleene.false_or a

theorem agrees_identity :
    Agrees declared sql (fun _ => op.many []) op.identity := by
  cases op <;> exact fun _ => rfl

end

variable {op : GroupOperator} {combined : Folded}

/-- A child of a group that is still open. -/
theorem combine_agrees {folded : Folded} {before truth : Truth}
    (hopen : combined = op.identity ∨ ∃ tree, combined = .tree tree)
    (hbefore : Agrees declared sql before combined) (htruth : Agrees declared sql truth folded) :
    match op.combine combined folded with
    | some next => (next = op.identity ∨ ∃ tree, next = .tree tree) ∧
        Agrees declared sql (fun stored => op.connect (before stored) (truth stored)) next
    | none => ∀ rest : Truth, Agrees declared sql
        (fun stored => op.connect (before stored) (op.connect (truth stored) (rest stored)))
        folded := by
  cases op with
  | all =>
    cases folded with
    | true =>
      refine ⟨hopen, ?_⟩
      have heq : (fun stored => Kleene.and (before stored) (truth stored)) = before := by
        funext stored
        rw [htruth stored, Kleene.and_true]
      show Agrees declared sql (fun stored => Kleene.and (before stored) (truth stored)) _
      rw [heq]
      exact hbefore
    | false =>
      intro rest stored
      show Kleene.and _ (Kleene.and _ _) = _
      rw [htruth stored, Kleene.false_and, Kleene.and_false]
    | tree right =>
      obtain ⟨predicate, hright, hdeclared, heval⟩ := htruth
      rcases hopen with rfl | ⟨left, rfl⟩
      · refine ⟨.inr ⟨right, rfl⟩, predicate, hright, hdeclared, fun stored => ?_⟩
        show _ = Kleene.and _ _
        rw [hbefore stored, Kleene.true_and, heval]
      obtain ⟨other, hleft, hother, hevalOther⟩ := hbefore
      refine ⟨.inr ⟨_, rfl⟩, .and other predicate, ?_, ⟨hother, hdeclared⟩, fun stored => ?_⟩
      · simp [GroupOperator.join, FilterTree.predicate?, hleft, hright]
      · rw [PredicateNode.eval, hevalOther, heval]
        rfl
  | any =>
    cases folded with
    | true =>
      intro rest stored
      show Kleene.or _ (Kleene.or _ _) = _
      rw [htruth stored, Kleene.true_or, Kleene.or_true]
    | false =>
      refine ⟨hopen, ?_⟩
      have heq : (fun stored => Kleene.or (before stored) (truth stored)) = before := by
        funext stored
        rw [htruth stored, Kleene.or_false]
      show Agrees declared sql (fun stored => Kleene.or (before stored) (truth stored)) _
      rw [heq]
      exact hbefore
    | tree right =>
      obtain ⟨predicate, hright, hdeclared, heval⟩ := htruth
      rcases hopen with rfl | ⟨left, rfl⟩
      · refine ⟨.inr ⟨right, rfl⟩, predicate, hright, hdeclared, fun stored => ?_⟩
        show _ = Kleene.or _ _
        rw [hbefore stored, Kleene.false_or, heval]
      obtain ⟨other, hleft, hother, hevalOther⟩ := hbefore
      refine ⟨.inr ⟨_, rfl⟩, .or other predicate, ?_, ⟨hother, hdeclared⟩, fun stored => ?_⟩
      · simp [GroupOperator.join, FilterTree.predicate?, hleft, hright]
      · rw [PredicateNode.eval, hevalOther, heval]
        rfl

/-- What an expression and its node have to do with each other. -/
def Compiles (declared : FilterableFields) (sql : Sql) (reading : JsValue → Option Truth)
    (raw : JsValue) (filter : ValidatedNode) : Prop :=
  ∃ truth folded, reading raw = some truth ∧ fold declared filter = .ok folded ∧
    Agrees declared sql truth folded

variable {reading : JsValue → Option Truth}

theorem exists_truths (h : Forall₂ (Compiles declared sql reading) members children) :
    ∃ truths, members.mapM reading = some truths := by
  induction h with
  | nil => exact ⟨[], rfl⟩
  | cons hfirst _ ih =>
    obtain ⟨truth, -, htruth, -⟩ := hfirst
    obtain ⟨truths, htruths⟩ := ih
    exact ⟨truth :: truths, by simp [mapM_cons, htruth, htruths]⟩

/-- **The loop over the children of a group.** -/
theorem foldChildren_agrees {before : Truth}
    (h : Forall₂ (Compiles declared sql reading) members children)
    (hopen : combined = op.identity ∨ ∃ tree, combined = .tree tree)
    (hbefore : Agrees declared sql before combined) :
    ∃ truths folded, members.mapM reading = some truths ∧
      foldChildren declared op combined children = .ok folded ∧
      Agrees declared sql
        (fun stored => op.connect (before stored) (op.many (truths.map fun t => t stored)))
        folded := by
  induction h generalizing combined before with
  | nil =>
    refine ⟨[], combined, rfl, by simp [foldChildren], ?_⟩
    have heq : (fun stored => op.connect (before stored)
        (op.many (([] : List Truth).map fun t => t stored))) = before := by
      funext stored
      exact connect_many_nil op _
    rw [heq]
    exact hbefore
  | @cons _ _ _ _ hfirst hrest ih =>
    obtain ⟨truth, folded, htruth, hfolded, hagrees⟩ := hfirst
    have hcombine := combine_agrees hopen hbefore hagrees
    cases hnext : op.combine combined folded with
    | none =>
      rw [hnext] at hcombine
      obtain ⟨truths, htruths⟩ := exists_truths hrest
      refine ⟨truth :: truths, folded, by simp [mapM_cons, htruth, htruths],
        by simp [foldChildren, hfolded, hnext], ?_⟩
      simp only [map_cons, many_cons]
      exact hcombine fun stored => op.many (truths.map fun t => t stored)
    | some =>
      rw [hnext] at hcombine
      obtain ⟨truths, result, htruths, hresult, hmeans⟩ := ih hcombine.1 hcombine.2
      refine ⟨truth :: truths, result, by simp [mapM_cons, htruth, htruths],
        by simp [foldChildren, hfolded, hnext, hresult], ?_⟩
      simp only [map_cons, many_cons, ← connect_assoc]
      exact hmeans

variable {as : List α} {bs : List β}

theorem forall₂_of_mem {R S : α → β → Prop} (h : Forall₂ R as bs)
    (himp : ∀ a b, a ∈ as → R a b → S a b) :
    Forall₂ S as bs := by
  induction h with
  | nil => exact .nil
  | cons hfirst _ ih =>
    exact .cons (himp _ _ mem_cons_self hfirst)
      (ih fun a b hmem => himp a b (mem_cons_of_mem _ hmem))

theorem exists_of_forall₂ {R : α → β → Prop} (h : Forall₂ R as bs) {a : α} (hmem : a ∈ as) :
    ∃ b, R a b := by
  induction h with
  | nil => cases hmem
  | cons hfirst _ ih =>
    rcases mem_cons.1 hmem with rfl | hrest
    · exact ⟨_, hfirst⟩
    · exact ih hrest

/-! ## Accepted filters -/

theorem known_name (hshape : groupShape source = .clause)
    (hknown : knownOperators levels (.object source) = true)
    (hname : get source "op" = .string name) :
    name = "anyOf" ∨ name = "noneOf" ∨ (comparisonOperator? name).isSome = true := by
  unfold knownOperators at hknown
  simpa [hshape, hname, or_assoc] using hknown

theorem meaning_clause (hshape : groupShape source = .clause) :
    meaning declared sql levels (.object source) = clauseMeaning declared sql source := by
  unfold meaning
  simp only [hshape]

/-- A filter is a clause, or a group of filters. -/
theorem Reads.cases (h : Reads declared levels raw filter) :
    (∃ source, raw = .object source ∧ groupShape source = .clause ∧
      ReadsClause declared source filter) ∨
    ∃ inner source op members children, levels = inner + 1 ∧ raw = .object source ∧
      groupShape source = .group op (.array members) ∧ filter = .group op children ∧
      Forall₂ (Reads declared inner) members children := by
  unfold Reads at h
  split at h
  · rename_i source
    split at h
    · rename_i hshape
      exact .inl ⟨source, rfl, hshape, h⟩
    · exact h.elim
    · rename_i op members hshape
      cases levels with
      | zero => exact h.elim
      | succ inner =>
        obtain ⟨children, rfl, hchildren⟩ := h
        exact .inr ⟨inner, source, op, members, children, rfl, rfl, hshape, rfl, hchildren⟩
    · exact h.elim
  · exact h.elim

/-- **A filter of known operators compiles to what it says.** -/
theorem compiles_of_reads (h : Reads declared levels raw filter)
    (hknown : knownOperators levels raw = true) :
    Compiles declared sql (meaning declared sql levels) raw filter := by
  induction levels using Nat.strong_induction_on generalizing raw filter with
  | _ _ ih =>
    rcases h.cases with ⟨source, rfl, hshape, hclause⟩ |
      ⟨inner, source, op, members, children, rfl, rfl, hshape, rfl, hchildren⟩
    · rw [Compiles, meaning_clause hshape]
      exact fold_clause hclause fun _ => known_name hshape hknown
    have hall : ∀ member ∈ members, knownOperators inner member = true := by
      unfold knownOperators at hknown
      simpa [hshape] using hknown
    have hcompiles := forall₂_of_mem hchildren fun member child hmember hreads =>
      ih inner (Nat.lt_succ_self _) hreads (hall member hmember)
    obtain ⟨truths, folded, htruths, hfolded, hagrees⟩ :=
      foldChildren_agrees hcompiles (.inl rfl) (agrees_identity op)
    simp only [many_nil_connect] at hagrees
    refine ⟨_, folded, ?_, by simp [fold, hfolded], hagrees⟩
    unfold meaning
    simp [hshape, htruths]

theorem mapM_eq_none {f : α → Option β} {a : α} (hmem : a ∈ as) (hnone : f a = none) :
    as.mapM f = none := by
  induction as with
  | nil => cases hmem
  | cons first _ ih =>
    rcases mem_cons.1 hmem with rfl | hrest
    · simp [mapM_cons, hnone]
    · rw [mapM_cons, ih hrest]
      cases f first <;> rfl

theorem unknown_clause (h : ReadsClause declared source filter)
    (hshape : groupShape source = .clause) (hknown : knownOperators levels (.object source) = false) :
    clauseMeaning declared sql source = none := by
  obtain ⟨name, hname⟩ : ∃ name, get source "op" = .string name := by
    cases h with
    | presence _ hname | comparison _ hname | membership _ hname => exact ⟨_, hname⟩
  have hnot : ¬ (name = "anyOf" ∨ name = "noneOf" ∨ (comparisonOperator? name).isSome = true) := by
    unfold knownOperators at hknown
    simpa [hshape, hname, and_assoc] using hknown
  rw [not_or, not_or] at hnot
  exact clauseMeaning_eq_none h hname hnot.1 hnot.2.1 (by simpa using hnot.2.2)

/-- **A filter with an unknown operator says nothing.** -/
theorem meaning_eq_none (h : Reads declared levels raw filter)
    (hknown : knownOperators levels raw = false) :
    meaning declared sql levels raw = none := by
  induction levels using Nat.strong_induction_on generalizing raw filter with
  | _ _ ih =>
    rcases h.cases with ⟨source, rfl, hshape, hclause⟩ |
      ⟨inner, source, op, members, children, rfl, rfl, hshape, rfl, hchildren⟩
    · rw [meaning_clause hshape]
      exact unknown_clause hclause hshape hknown
    obtain ⟨member, hmember, hunknown⟩ :
        ∃ member ∈ members, knownOperators inner member = false := by
      unfold knownOperators at hknown
      simpa [hshape] using hknown
    obtain ⟨child, hreads⟩ := exists_of_forall₂ hchildren hmember
    unfold meaning
    simp [hshape, mapM_eq_none hmember (ih inner (Nat.lt_succ_self _) hreads hunknown)]

/-! ## The whole -/

theorem filterPredicate_means {folded : Folded} {truth : Truth}
    (hfold : fold declared filter = .ok folded) (hagrees : Agrees declared sql truth folded) :
    ∃ result, filterPredicate declared filter = .ok result ∧
      MeansIt declared sql truth result := by
  unfold filterPredicate
  rw [hfold]
  cases folded with
  | true => exact ⟨none, rfl, hagrees⟩
  | false =>
    refine ⟨some (.in declared.pk []), rfl, .in declared.pk [], rfl, .inr rfl, fun stored => ?_⟩
    rw [hagrees stored]
    rfl
  | tree tree => exact ⟨some tree, rfl, hagrees⟩

theorem reads_of_validate {expression : JsValue} (h : validate declared expression = .ok filter) :
    Reads declared maxFilterDepth expression filter := by
  unfold validate at h
  split at h
  · rename_i found walk hnode
    split at h
    · cases h
      exact reads_of_node hnode
    · cases h
  · cases h

/-- **An accepted filter means what it says exactly when its operators are operators.** -/
theorem filter_means (declared : FilterableFields) (sql : Sql) (expression : JsValue)
    (filter : ValidatedNode) (h : validate declared expression = .ok filter) :
    (∃ result truth, filterPredicate declared filter = .ok result ∧
      meaning declared sql maxFilterDepth expression = some truth ∧
      MeansIt declared sql truth result) ↔
    knownOperators maxFilterDepth expression = true := by
  have hreads := reads_of_validate h
  constructor
  · rintro ⟨result, truth, -, htruth, -⟩
    by_contra hknown
    rw [meaning_eq_none hreads (Bool.not_eq_true _ ▸ hknown)] at htruth
    cases htruth
  intro hknown
  have hcompiles : Compiles declared sql (meaning declared sql maxFilterDepth) expression
      filter := compiles_of_reads hreads hknown
  obtain ⟨truth, folded, htruth, hfolded, hagrees⟩ := hcompiles
  obtain ⟨result, hresult, hmeans⟩ := filterPredicate_means hfolded hagrees
  exact ⟨result, truth, hresult, htruth, hmeans⟩

/-- A table of notes with a title. -/
def noteFields : FilterableFields where
  displayName := "Note"
  pk := "id"
  fields := [("title",
    { kind := .string
      nullable := false
      check := fun value =>
        match value with
        | .string text => .ok (.string text)
        | _ => .error "expected string"
      typeName := "string"
      variantTag := fun _ => none
      checked := by
        intro value found h
        cases value <;> cases h
        exact ⟨rfl, rfl⟩
      tagged := fun h => by cases h })]

/-- `{ field: "title", op, value: "Ada" }`. -/
def titleClause (op : String) : JsValue :=
  .object [("field", .string "title"), ("op", .string op), ("value", .string "Ada")]

theorem filter_means_title :
    knownOperators maxFilterDepth (titleClause "eq") = true ∧
    ∃ result truth,
      filterPredicate noteFields (.column "title" (.known .eq) (.string "Ada")) = .ok result ∧
      meaning noteFields exactSql maxFilterDepth (titleClause "eq") = some truth ∧
      MeansIt noteFields exactSql truth result :=
  have hknown : knownOperators maxFilterDepth (titleClause "eq") = true := by decide +kernel
  ⟨hknown, (filter_means noteFields exactSql (titleClause "eq")
    (.column "title" (.known .eq) (.string "Ada")) rfl).2 hknown⟩

/-- **An inherited name passes for an operator**: `OPERATORS["toString"]` is not `undefined`, so
the clause is accepted, and what it compiles to is not a predicate. -/
theorem toString_is_accepted :
    ∃ filter tree, validate noteFields (titleClause "toString") = .ok filter ∧
      filterPredicate noteFields filter = .ok (some tree) ∧ tree.predicate? = none :=
  ⟨.column "title" (.inherited "toString") (.string "Ada"),
    .comparison "title" (.inherited "toString") (.string "Ada"),
    rfl, rfl, rfl⟩

end Filter

end AckerDB
