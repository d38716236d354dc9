import AckerDB.Core.Wire
import AckerDB.Lib.InsertionMap

/-!
# The canonical encoding

What `stableEncode` identifies.  Two values are meant to have the same encoding exactly when
they are equal up to the order of object keys and the documented normal form; the encoding is
that of the normal form with its keys sorted, provided that no object has a `__proto__` field,
which the codec loses, or a `$` field that is `undefined`, which it escapes though it drops it.

* `Reordered` — equality up to the order of keys;
* `Plain` — the values whose encoding is that of their normal form;
* `stableEncode_eq_iff` — the encoding of plain values is canonical.
-/

namespace AckerDB.Wire

open Except List

/-! ## Values up to the order of keys -/

mutual

/-- Equality up to the order of object keys. -/
inductive Reordered : JsValue → JsValue → Prop
  | same (v : JsValue) : Reordered v v
  | array {items others : List JsValue} : ReorderedItems items others →
      Reordered (.array items) (.array others)
  | object {fields others shuffled : List (String × JsValue)} : ReorderedFields fields others →
      others.Perm shuffled → Reordered (.object fields) (.object shuffled)

/-- Array items, one by one. -/
inductive ReorderedItems : List JsValue → List JsValue → Prop
  | nil : ReorderedItems [] []
  | cons {item other : JsValue} {rest others : List JsValue} : Reordered item other →
      ReorderedItems rest others → ReorderedItems (item :: rest) (other :: others)

/-- Fields of the same keys, one by one. -/
inductive ReorderedFields : List (String × JsValue) → List (String × JsValue) → Prop
  | nil : ReorderedFields [] []
  | cons {key : String} {value other : JsValue} {rest others : List (String × JsValue)} :
      Reordered value other → ReorderedFields rest others →
      ReorderedFields ((key, value) :: rest) ((key, other) :: others)

end

mutual

/-- The objects inside a value have distinct keys, as every JavaScript object does. -/
def WellFormed : JsValue → Prop
  | .array items => WellFormedItems items
  | .object fields => (fields.map Prod.fst).Nodup ∧ WellFormedFields fields
  | _ => True

/-- Every item is well formed. -/
def WellFormedItems : List JsValue → Prop
  | [] => True
  | item :: rest => WellFormed item ∧ WellFormedItems rest

/-- Every field is well formed. -/
def WellFormedFields : List (String × JsValue) → Prop
  | [] => True
  | (_, value) :: rest => WellFormed value ∧ WellFormedFields rest

end

mutual

/-- **No object has a defined `__proto__` field or an undefined `$` field.** -/
def Plain : JsValue → Prop
  | .array items => PlainItems items
  | .object fields => PlainFields fields
  | _ => True

/-- Every item is plain. -/
def PlainItems : List JsValue → Prop
  | [] => True
  | item :: rest => Plain item ∧ PlainItems rest

/-- Every field is plain. -/
def PlainFields : List (String × JsValue) → Prop
  | [] => True
  | (key, value) :: rest =>
    (key = "__proto__" → value = .undefined) ∧ (key = "$" → value ≠ .undefined) ∧ Plain value ∧
      PlainFields rest

end

mutual

/-- Every object with its keys in order. -/
def sortKeys : JsValue → JsValue
  | .array items => .array (sortKeysItems items)
  | .object fields => .object ((sortKeysFields fields).insertionSort fun a b => a.1 ≤ b.1)
  | v => v

/-- `sortKeys` on array items. -/
def sortKeysItems : List JsValue → List JsValue
  | [] => []
  | item :: rest => sortKeys item :: sortKeysItems rest

/-- `sortKeys` on the values of object fields. -/
def sortKeysFields : List (String × JsValue) → List (String × JsValue)
  | [] => []
  | (key, value) :: rest => (key, sortKeys value) :: sortKeysFields rest

end

/-! ## Sorting by key -/

section Sorting

variable {α β : Type}

theorem insertionSort_eq_of_perm {fields others : List (String × α)} (h : fields.Perm others)
    (hkeys : (fields.map Prod.fst).Nodup) :
    fields.insertionSort (fun a b => a.1 ≤ b.1) = others.insertionSort fun a b => a.1 ≤ b.1 := by
  have hperm := (perm_insertionSort (fun a b => a.1 ≤ b.1) fields).trans
    (h.trans (perm_insertionSort (fun a b => a.1 ≤ b.1) others).symm)
  refine hperm.eq_of_pairwise (fun a b ha hb hab hba => ?_)
    (pairwise_insertionSort _ _) (pairwise_insertionSort _ _)
  rw [mem_insertionSort] at ha hb
  exact inj_on_of_nodup_map hkeys ha (h.mem_iff.2 hb) (le_antisymm hab hba)

variable {r : String × α → String × β → Prop}

theorem forall₂_orderedInsert (hr : ∀ a b, r a b → a.1 = b.1) {fields : List (String × α)}
    {others : List (String × β)} (h : Forall₂ r fields others) {a : String × α}
    {b : String × β} (hab : r a b) :
    Forall₂ r (fields.orderedInsert (fun a b => a.1 ≤ b.1) a)
      (others.orderedInsert (fun a b => a.1 ≤ b.1) b) := by
  induction h with
  | nil => exact .cons hab .nil
  | cons hfirst hrest ih =>
    rename_i first other rest tail
    rw [orderedInsert_cons, orderedInsert_cons, hr a b hab, hr first other hfirst]
    split
    · exact .cons hab (.cons hfirst hrest)
    · exact .cons hfirst ih

theorem forall₂_insertionSort (hr : ∀ a b, r a b → a.1 = b.1) {fields : List (String × α)}
    {others : List (String × β)} (h : Forall₂ r fields others) :
    Forall₂ r (fields.insertionSort fun a b => a.1 ≤ b.1)
      (others.insertionSort fun a b => a.1 ≤ b.1) := by
  induction h with
  | nil => exact .nil
  | cons hfirst _ ih =>
    exact forall₂_orderedInsert hr ih hfirst

end Sorting

theorem sortKeysFields_eq_map (fields : List (String × JsValue)) :
    sortKeysFields fields = fields.map fun field => (field.1, sortKeys field.2) := by
  induction fields with
  | nil => rfl
  | cons _ _ ih => rw [sortKeysFields, ih, map_cons]

theorem keys_sortKeysFields (fields : List (String × JsValue)) :
    (sortKeysFields fields).map Prod.fst = fields.map Prod.fst := by
  rw [sortKeysFields_eq_map, map_map]
  rfl

/-! ## Sorted values are equal exactly when the values are, up to order -/

mutual

theorem sortKeys_eq_of_reordered : ∀ {v w : JsValue}, Reordered v w → WellFormed v →
    sortKeys v = sortKeys w
  | .array items, w, h, hwf => by
      cases h with
      | same => rfl
      | array hitems => rw [sortKeys, sortKeys, sortKeysItems_eq_of_reordered hitems hwf]
  | .object fields, w, h, hwf => by
      cases h with
      | same => rfl
      | object hfields hperm =>
        rw [sortKeys, sortKeys, sortKeysFields_eq_of_reordered hfields hwf.2,
          insertionSort_eq_of_perm]
        · rw [sortKeysFields_eq_map, sortKeysFields_eq_map]
          exact hperm.map _
        · rw [← sortKeysFields_eq_of_reordered hfields hwf.2, keys_sortKeysFields]
          exact hwf.1
  | .undefined, w, h, _ | .null, w, h, _ | .bool _, w, h, _ | .number _, w, h, _
  | .string _, w, h, _ | .bigint _, w, h, _ | .bytes _, w, h, _ | .other _, w, h, _ => by
      cases h
      rfl

theorem sortKeysItems_eq_of_reordered : ∀ {items others : List JsValue},
    ReorderedItems items others → WellFormedItems items →
    sortKeysItems items = sortKeysItems others
  | [], _, h, _ => by
      cases h
      rfl
  | item :: rest, _, h, hwf => by
      cases h with
      | cons hitem hrest =>
        rw [sortKeysItems, sortKeysItems, sortKeys_eq_of_reordered hitem hwf.1,
          sortKeysItems_eq_of_reordered hrest hwf.2]

theorem sortKeysFields_eq_of_reordered : ∀ {fields others : List (String × JsValue)},
    ReorderedFields fields others → WellFormedFields fields →
    sortKeysFields fields = sortKeysFields others
  | [], _, h, _ => by
      cases h
      rfl
  | (key, value) :: rest, _, h, hwf => by
      cases h with
      | cons hvalue hrest =>
        rw [sortKeysFields, sortKeysFields, sortKeys_eq_of_reordered hvalue hwf.1,
          sortKeysFields_eq_of_reordered hrest hwf.2]

end

/-- A permutation of an image is the image of a permutation. -/
theorem exists_perm_map_eq {α β : Type} {f : α → β} {images : List β} {items : List α}
    (h : images.Perm (items.map f)) :
    ∃ shuffled : List α, shuffled.Perm items ∧ shuffled.map f = images := by
  have hpairs : Forall₂ (fun image item => image = f item) (items.map f) items := by
    rw [forall₂_map_left_iff]
    exact forall₂_same.2 fun _ _ => rfl
  obtain ⟨shuffled, heq, hperm⟩ := perm_comp_forall₂ h hpairs
  refine ⟨shuffled, hperm, ?_⟩
  clear hpairs h hperm
  induction heq with
  | nil => rfl
  | cons hfirst _ ih => rw [map_cons, ih, hfirst]

mutual

theorem reordered_of_sortKeys_eq : ∀ {v w : JsValue}, sortKeys v = sortKeys w → Reordered v w
  | .array items, w, h => by
      cases w with
      | array =>
        simp only [sortKeys, JsValue.array.injEq] at h
        exact .array (reorderedItems_of_sortKeys_eq h)
      | _ => simp [sortKeys] at h
  | .object fields, w, h => by
      cases w with
      | object others =>
        simp only [sortKeys, JsValue.object.injEq] at h
        have hperm := (perm_insertionSort (fun a b : String × JsValue => a.1 ≤ b.1)
          (sortKeysFields fields)).symm
        rw [h] at hperm
        replace hperm := hperm.trans (perm_insertionSort _ (sortKeysFields others))
        rw [sortKeysFields_eq_map others] at hperm
        obtain ⟨shuffled, hshuffled, heq⟩ := exists_perm_map_eq hperm
        rw [← sortKeysFields_eq_map] at heq
        exact .object (reorderedFields_of_sortKeys_eq heq.symm) hshuffled
      | _ => simp [sortKeys] at h
  | .undefined, w, h | .null, w, h | .bool _, w, h | .number _, w, h | .string _, w, h
  | .bigint _, w, h | .bytes _, w, h | .other _, w, h => by
      cases w <;> simp only [sortKeys, reduceCtorEq] at h
      all_goals first | exact .same _ | (cases h; exact .same _)

theorem reorderedItems_of_sortKeys_eq : ∀ {items others : List JsValue},
    sortKeysItems items = sortKeysItems others → ReorderedItems items others
  | [], others, h => by
      cases others with
      | nil => exact .nil
      | cons => simp [sortKeysItems] at h
  | item :: rest, others, h => by
      cases others with
      | nil => simp [sortKeysItems] at h
      | cons =>
        simp only [sortKeysItems, cons.injEq] at h
        exact .cons (reordered_of_sortKeys_eq h.1) (reorderedItems_of_sortKeys_eq h.2)

theorem reorderedFields_of_sortKeys_eq : ∀ {fields others : List (String × JsValue)},
    sortKeysFields fields = sortKeysFields others → ReorderedFields fields others
  | [], others, h => by
      cases others with
      | nil => exact .nil
      | cons => simp [sortKeysFields] at h
  | (key, value) :: rest, others, h => by
      cases others with
      | nil => simp [sortKeysFields] at h
      | cons other =>
        obtain ⟨otherKey, otherValue⟩ := other
        simp only [sortKeysFields, cons.injEq, Prod.mk.injEq] at h
        obtain ⟨⟨rfl, hvalue⟩, hrest⟩ := h
        exact .cons (reordered_of_sortKeys_eq hvalue) (reorderedFields_of_sortKeys_eq hrest)

end

/-! ## The encoding of a plain value -/

mutual

theorem Plain.protoFree : ∀ {v : JsValue}, Plain v → ProtoFree v
  | .array _, h => PlainItems.protoFree h
  | .object _, h => PlainFields.protoFree h
  | .undefined, _ | .null, _ | .bool _, _ | .number _, _ | .string _, _ | .bigint _, _
  | .bytes _, _ | .other _, _ => trivial

theorem PlainItems.protoFree : ∀ {items : List JsValue}, PlainItems items → ProtoFreeItems items
  | [], _ => trivial
  | _ :: _, h => ⟨h.1.protoFree, PlainItems.protoFree h.2⟩

theorem PlainFields.protoFree : ∀ {fields : List (String × JsValue)}, PlainFields fields →
    ProtoFreeFields fields
  | [], _ => trivial
  | (_, _) :: _, h => ⟨h.1, h.2.2.1.protoFree, PlainFields.protoFree h.2.2.2⟩

end

/-- A field and its encoding. -/
def Wires (field : String × JsValue) (out : String × Json) : Prop :=
  field.1 = out.1 ∧ field.1 ≠ "__proto__" ∧ toWire field.2 = .ok (some out.2)

variable {fields : List (String × JsValue)}

theorem toWireFields_of_wires {out : List (String × Json)} (h : Forall₂ Wires fields out) :
    toWireFields fields = .ok out := by
  induction h with
  | nil => rfl
  | @cons field json _ _ hfield _ ih =>
    obtain ⟨key, value⟩ := field
    obtain ⟨otherKey, text⟩ := json
    obtain ⟨hkey, hproto, hvalue⟩ := hfield
    subst hkey
    simp only [toWireFields, hvalue, ih, ok_bind, assign, if_neg hproto]
    rfl

theorem isSome_lookup {α : Type} {key : String} {fields : List (String × α)} :
    (fields.lookup key).isSome = true ↔ key ∈ fields.map Prod.fst := by
  rw [← not_iff_not, Bool.not_eq_true, Option.isSome_eq_false_iff, Option.isNone_iff_eq_none]
  exact InsertionMap.lookup_eq_none

/-- A plain object keeps its `$` field. -/
theorem mem_keys_normalizeFields (h : PlainFields fields) :
    "$" ∈ (normalizeFields fields).map Prod.fst ↔ "$" ∈ fields.map Prod.fst := by
  induction fields with
  | nil => rfl
  | cons field _ ih =>
    obtain ⟨key, value⟩ := field
    obtain ⟨-, hdollar, -, hrest⟩ := h
    by_cases hundef : value = .undefined
    · subst hundef
      have hkey : key ≠ "$" := fun heq => hdollar heq rfl
      rw [normalizeFields, ih hrest, map_cons]
      simp [hkey.symm]
    · rw [normalizeFields_cons hundef, map_cons, map_cons, mem_cons,
        mem_cons, ih hrest]

/-- The escape of an object with a `$` key is already in order. -/
theorem sortDeep_escape (out : List (String × Json)) :
    sortDeep (.object [("$", .string "o"), ("v", .object out)]) =
      .object [("$", .string "o"),
        ("v", .object ((sortDeepFields out).insertionSort fun a b => a.1 ≤ b.1))] := by
  have hle : "$" ≤ "v" := by decide
  simp [sortDeep, sortDeepFields, hle]

mutual

theorem toWire_sortKeys : ∀ v : JsValue, Encodable v → v ≠ .undefined → Plain v →
    ∃ json, toWire v = .ok (some json) ∧
      toWire (sortKeys (normalizeDefined v)) = .ok (some (sortDeep json))
  | .undefined, _, hundef, _ => absurd rfl hundef
  | .null, _, _, _ => ⟨.null, rfl, rfl⟩
  | .bool b, _, _, _ => ⟨.bool b, rfl, rfl⟩
  | .number (.finite q), _, _, _ => ⟨.number q, rfl, rfl⟩
  | .number .negZero, _, _, _ => ⟨.number 0, rfl, rfl⟩
  | .number (.infinity _), h, _, _ => by simp [Encodable, JsNumber.isFinite] at h
  | .number .nan, h, _, _ => by simp [Encodable, JsNumber.isFinite] at h
  | .string s, _, _, _ => ⟨.string s, rfl, rfl⟩
  | .bigint n, _, _, _ => by
      have hle : "$" ≤ "v" := by decide
      exact ⟨_, rfl, by simp [normalizeDefined, sortKeys, toWire, sortDeep, sortDeepFields, hle]⟩
  | .bytes b, _, _, _ => by
      have hle : "$" ≤ "v" := by decide
      exact ⟨_, rfl, by simp [normalizeDefined, sortKeys, toWire, sortDeep, sortDeepFields, hle]⟩
  | .other _, h, _, _ => absurd h (by simp [Encodable])
  | .array items, h, _, hplain => by
      obtain ⟨out, hitems, hsorted⟩ := toWireItems_sortKeysItems items h hplain
      refine ⟨.array out, by simp [toWire, hitems], ?_⟩
      simp [normalizeDefined, sortKeys, toWire, hsorted, sortDeep]
  | .object fields, h, _, hplain => by
      obtain ⟨out, hfields, hwires⟩ := toWireFields_sortKeysFields fields h hplain
      have hsorted := forall₂_insertionSort (fun _ _ hwire => hwire.1) hwires
      have hout := toWireFields_of_wires hsorted
      have hdollar : (((sortKeysFields (normalizeFields fields)).insertionSort
          fun a b => a.1 ≤ b.1).lookup "$").isSome = (fields.lookup "$").isSome := by
        rw [Bool.eq_iff_iff, isSome_lookup, isSome_lookup, ← mem_keys_normalizeFields hplain,
          ← keys_sortKeysFields (normalizeFields fields)]
        exact ((perm_insertionSort _ _).map Prod.fst).mem_iff
      refine ⟨_, by simp only [toWire, hfields, ok_bind]; rfl, ?_⟩
      simp only [normalizeDefined, sortKeys, toWire, hout, hdollar, ok_bind]
      split
      · rw [sortDeep_escape]
        rfl
      · rfl

theorem toWireItems_sortKeysItems : ∀ items : List JsValue, EncodableItems items →
    PlainItems items → ∃ out, toWireItems items = .ok out ∧
      toWireItems (sortKeysItems (normalizeItems items)) = .ok (sortDeepItems out)
  | [], _, _ => ⟨[], rfl, rfl⟩
  | item :: rest, h, hplain => by
      obtain ⟨out, hrest, hsorted⟩ := toWireItems_sortKeysItems rest h.2 hplain.2
      by_cases hundef : item = .undefined
      · subst hundef
        refine ⟨.null :: out, by simp [toWireItems, toWire, hrest], ?_⟩
        simp [normalizeItems, sortKeysItems, sortKeys, toWireItems, toWire, hsorted, sortDeepItems,
          sortDeep]
      obtain ⟨json, hitem, hitemSorted⟩ := toWire_sortKeys item h.1 hundef hplain.1
      refine ⟨json :: out, by simp [toWireItems, hitem, hrest], ?_⟩
      simp [normalizeItems_cons hundef, sortKeysItems, toWireItems, hitemSorted, hsorted,
        sortDeepItems]

theorem toWireFields_sortKeysFields : ∀ fields : List (String × JsValue),
    EncodableFields fields → PlainFields fields → ∃ out, toWireFields fields = .ok out ∧
      Forall₂ Wires (sortKeysFields (normalizeFields fields)) (sortDeepFields out)
  | [], _, _ => ⟨[], rfl, .nil⟩
  | (key, value) :: rest, h, hplain => by
      obtain ⟨hproto, -, hvaluePlain, hrestPlain⟩ := hplain
      obtain ⟨out, hrest, hsorted⟩ := toWireFields_sortKeysFields rest h.2 hrestPlain
      by_cases hundef : value = .undefined
      · subst hundef
        exact ⟨out, by simp [toWireFields, toWire, hrest], hsorted⟩
      obtain ⟨json, hvalue, hvalueSorted⟩ := toWire_sortKeys value h.1 hundef hvaluePlain
      have hkey : key ≠ "__proto__" := fun heq => hundef (hproto heq)
      refine ⟨(key, json) :: out, ?_, ?_⟩
      · simp only [toWireFields, hvalue, hrest, ok_bind, assign, if_neg hkey]
        rfl
      · rw [normalizeFields_cons hundef, sortKeysFields, sortDeepFields]
        exact .cons ⟨rfl, hkey, hvalueSorted⟩ hsorted

end

/-- The normal form with its keys in order. -/
def canonical (v : JsValue) : JsValue := sortKeys (normalize v)

variable {v : JsValue}

theorem stableEncode_eq_encode_canonical (h : Encodable v) (hplain : Plain v) :
    ∃ text, stableEncode v = .ok text ∧ encode (canonical v) = .ok text := by
  by_cases hundef : v = .undefined
  · subst hundef
    exact ⟨.null, rfl, rfl⟩
  obtain ⟨json, hto, hsorted⟩ := toWire_sortKeys v h hundef hplain
  refine ⟨sortDeep json, by simp [stableEncode, hto], ?_⟩
  have hnormal : normalize v = normalizeDefined v := by
    cases v <;> first | rfl | exact absurd rfl hundef
  simp [canonical, hnormal, encode, hsorted]

/-! ## The canonical form is read back as it is -/

mutual

/-- Already normal: nothing is undefined, negative zero, or named `__proto__`. -/
def Normal : JsValue → Prop
  | .undefined => False
  | .number n => n.zeroed = n
  | .array items => NormalItems items
  | .object fields => NormalFields fields
  | _ => True

/-- Every item is normal. -/
def NormalItems : List JsValue → Prop
  | [] => True
  | item :: rest => Normal item ∧ NormalItems rest

/-- Every field is normal. -/
def NormalFields : List (String × JsValue) → Prop
  | [] => True
  | (key, value) :: rest => (key ≠ "__proto__" ∧ Normal value) ∧ NormalFields rest

end

theorem normalFields_iff :
    NormalFields fields ↔ ∀ field ∈ fields, field.1 ≠ "__proto__" ∧ Normal field.2 := by
  induction fields with
  | nil => simp [NormalFields]
  | cons _ _ ih => rw [NormalFields, ih, forall_mem_cons]

theorem Normal.ne_undefined (h : Normal v) : v ≠ .undefined := by
  intro heq
  subst heq
  exact h

mutual

theorem Normal.readBackDefined_eq : ∀ {v : JsValue}, Normal v → readBackDefined v = v
  | .undefined, h => h.elim
  | .null, _ | .bool _, _ | .string _, _ | .bigint _, _ | .bytes _, _ | .other _, _ => rfl
  | .number _, h => congrArg JsValue.number h
  | .array _, h => congrArg JsValue.array (NormalItems.readBackItems_eq h)
  | .object _, h => congrArg JsValue.object (NormalFields.readBackFields_eq h)

theorem NormalItems.readBackItems_eq : ∀ {items : List JsValue}, NormalItems items →
    readBackItems items = items
  | [], _ => rfl
  | item :: rest, h => by
      rw [readBackItems_cons h.1.ne_undefined, h.1.readBackDefined_eq,
        NormalItems.readBackItems_eq h.2]

theorem NormalFields.readBackFields_eq : ∀ {fields : List (String × JsValue)},
    NormalFields fields → readBackFields fields = fields
  | [], _ => rfl
  | (key, value) :: rest, h => by
      rw [readBackFields_cons h.1.2.ne_undefined, h.1.2.readBackDefined_eq,
        NormalFields.readBackFields_eq h.2, assign, if_neg h.1.1]

end

mutual

theorem normal_sortKeys : ∀ v : JsValue, ProtoFree v → v ≠ .undefined →
    Normal (sortKeys (normalizeDefined v))
  | .undefined, _, hundef => absurd rfl hundef
  | .null, _, _ | .bool _, _, _ | .string _, _, _ | .bigint _, _, _ | .bytes _, _, _
  | .other _, _, _ => trivial
  | .number n, _, _ => by cases n <;> rfl
  | .array items, h, _ => normalItems_sortKeys items h
  | .object fields, h, _ => by
      simp only [normalizeDefined, sortKeys, Normal, normalFields_iff, mem_insertionSort]
      exact normalFields_iff.1 (normalFields_sortKeys fields h)

theorem normalItems_sortKeys : ∀ items : List JsValue, ProtoFreeItems items →
    NormalItems (sortKeysItems (normalizeItems items))
  | [], _ => trivial
  | item :: rest, h => by
      have hrest := normalItems_sortKeys rest h.2
      by_cases hundef : item = .undefined
      · subst hundef
        exact ⟨trivial, hrest⟩
      · rw [normalizeItems_cons hundef]
        exact ⟨normal_sortKeys item h.1 hundef, hrest⟩

theorem normalFields_sortKeys : ∀ fields : List (String × JsValue), ProtoFreeFields fields →
    NormalFields (sortKeysFields (normalizeFields fields))
  | [], _ => trivial
  | (key, value) :: rest, h => by
      have hrest := normalFields_sortKeys rest h.2.2
      by_cases hundef : value = .undefined
      · subst hundef
        exact hrest
      · rw [normalizeFields_cons hundef]
        exact ⟨⟨fun hkey => hundef (h.1 hkey), normal_sortKeys value h.2.1 hundef⟩, hrest⟩

end

theorem readBack_canonical (h : ProtoFree v) :
    readBack (canonical v) = canonical v := by
  by_cases hundef : v = .undefined
  · subst hundef
    rfl
  have hnormal : normalize v = normalizeDefined v := by
    cases v <;> first | rfl | exact absurd rfl hundef
  have hcanonical := normal_sortKeys v h hundef
  rw [canonical, hnormal, readBack_of_defined hcanonical.ne_undefined,
    hcanonical.readBackDefined_eq]

/-- **The canonical encoding is read back as the canonical form.** -/
theorem decode_stableEncode (h : Encodable v) (hplain : Plain v) :
    ∃ text, stableEncode v = .ok text ∧ encode (canonical v) = .ok text ∧
      decode text = .ok (canonical v) := by
  obtain ⟨text, hstable, hencode⟩ := stableEncode_eq_encode_canonical h hplain
  obtain ⟨other, hother, hdecode⟩ :=
    decode_encode ((encode_eq_ok_iff (canonical v)).1 ⟨text, hencode⟩)
  obtain rfl : text = other := ok.inj (hencode.symm.trans hother)
  exact ⟨text, hstable, hencode, by rw [hdecode, readBack_canonical hplain.protoFree]⟩

theorem stableEncode_eq_iff_canonical {a b : JsValue} (ha : Encodable a) (hb : Encodable b)
    (hplainA : Plain a) (hplainB : Plain b) :
    stableEncode a = stableEncode b ↔ canonical a = canonical b := by
  obtain ⟨textA, hstableA, hencodeA, hdecodeA⟩ := decode_stableEncode ha hplainA
  obtain ⟨textB, hstableB, hencodeB, hdecodeB⟩ := decode_stableEncode hb hplainB
  constructor
  · intro heq
    rw [hstableA, hstableB, ok.injEq] at heq
    rw [heq, hdecodeB, ok.injEq] at hdecodeA
    exact hdecodeA.symm
  · intro heq
    rw [heq, hencodeB] at hencodeA
    rw [hstableA, hstableB, hencodeA]

/-! ## Well-formedness of the normal form -/

theorem keys_normalizeFields_sublist (fields : List (String × JsValue)) :
    ((normalizeFields fields).map Prod.fst).Sublist (fields.map Prod.fst) := by
  induction fields with
  | nil => exact Sublist.refl _
  | cons field _ ih =>
    obtain ⟨key, value⟩ := field
    by_cases hundef : value = .undefined
    · subst hundef
      exact ih.cons key
    · rw [normalizeFields_cons hundef, map_cons]
      exact ih.cons_cons key

mutual

theorem WellFormed.normalizeDefined : ∀ {v : JsValue}, WellFormed v →
    WellFormed (normalizeDefined v)
  | .array _, h => WellFormedItems.normalizeItems h
  | .object fields, h =>
    ⟨h.1.sublist (keys_normalizeFields_sublist fields), WellFormedFields.normalizeFields h.2⟩
  | .undefined, _ | .null, _ | .bool _, _ | .number _, _ | .string _, _ | .bigint _, _
  | .bytes _, _ | .other _, _ => trivial

theorem WellFormedItems.normalizeItems : ∀ {items : List JsValue}, WellFormedItems items →
    WellFormedItems (normalizeItems items)
  | [], _ => trivial
  | item :: rest, h => by
      by_cases hundef : item = .undefined
      · subst hundef
        exact ⟨trivial, WellFormedItems.normalizeItems h.2⟩
      · rw [normalizeItems_cons hundef]
        exact ⟨h.1.normalizeDefined, WellFormedItems.normalizeItems h.2⟩

theorem WellFormedFields.normalizeFields : ∀ {fields : List (String × JsValue)},
    WellFormedFields fields → WellFormedFields (normalizeFields fields)
  | [], _ => trivial
  | (key, value) :: rest, h => by
      have hrest := WellFormedFields.normalizeFields h.2
      by_cases hundef : value = .undefined
      · subst hundef
        exact hrest
      · rw [normalizeFields_cons hundef]
        exact ⟨h.1.normalizeDefined, hrest⟩

end

theorem WellFormed.normalize (h : WellFormed v) : WellFormed (normalize v) := by
  cases v with
  | undefined => trivial
  | _ => exact WellFormed.normalizeDefined h

/-- **The canonical encoding.**  Two plain values have the same canonical encoding exactly when
their normal forms are equal up to the order of keys. -/
theorem stableEncode_eq_iff {a b : JsValue} (ha : Encodable a) (hb : Encodable b)
    (hwf : WellFormed a) (hplainA : Plain a) (hplainB : Plain b) :
    stableEncode a = stableEncode b ↔ Reordered (normalize a) (normalize b) := by
  rw [stableEncode_eq_iff_canonical ha hb hplainA hplainB]
  constructor
  · exact reordered_of_sortKeys_eq
  · intro h
    exact sortKeys_eq_of_reordered h hwf.normalize

/-! ## A `__proto__` field is lost -/

mutual

/-- The value without its `__proto__` fields. -/
def dropProto : JsValue → JsValue
  | .array items => .array (dropProtoItems items)
  | .object fields => .object (dropProtoFields fields)
  | v => v

/-- `dropProto` on array items. -/
def dropProtoItems : List JsValue → List JsValue
  | [] => []
  | item :: rest => dropProto item :: dropProtoItems rest

/-- `dropProto` on object fields. -/
def dropProtoFields : List (String × JsValue) → List (String × JsValue)
  | [] => []
  | (key, value) :: rest => assign key (dropProto value) (dropProtoFields rest)

end

theorem keys_dropProtoFields_sublist (fields : List (String × JsValue)) :
    ((dropProtoFields fields).map Prod.fst).Sublist (fields.map Prod.fst) := by
  induction fields with
  | nil => exact Sublist.refl _
  | cons field _ ih =>
    obtain ⟨key, value⟩ := field
    rw [dropProtoFields, assign]
    split
    · exact ih.cons key
    · exact ih.cons_cons key

theorem exists_toWire (h : Encodable v) : ∃ out, toWire v = .ok out := by
  by_cases hundef : v = .undefined
  · subst hundef
    exact ⟨none, rfl⟩
  · obtain ⟨json, hto, -⟩ := fromWire_toWire v h hundef
    exact ⟨some json, hto⟩

theorem lookup_dropProtoFields (fields : List (String × JsValue)) :
    ((dropProtoFields fields).lookup "$").isSome = (fields.lookup "$").isSome := by
  induction fields with
  | nil => rfl
  | cons field _ ih =>
    obtain ⟨key, value⟩ := field
    rw [dropProtoFields, assign]
    split
    · rename_i hkey
      subst hkey
      rw [ih]
      rfl
    by_cases hkey : key = "$"
    · subst hkey
      simp
    · have hbeq := beq_eq_false_iff_ne.2 (Ne.symm hkey)
      rw [lookup_cons, lookup_cons, hbeq]
      exact ih

mutual

theorem toWire_dropProto : ∀ v : JsValue, Encodable v → toWire (dropProto v) = toWire v
  | .array items, h => by rw [dropProto, toWire, toWire, toWireItems_dropProtoItems items h]
  | .object fields, h => by
      rw [dropProto, toWire, toWire, toWireFields_dropProtoFields fields h, lookup_dropProtoFields]
  | .undefined, _ | .null, _ | .bool _, _ | .number _, _ | .string _, _ | .bigint _, _
  | .bytes _, _ | .other _, _ => rfl

theorem toWireItems_dropProtoItems : ∀ items : List JsValue, EncodableItems items →
    toWireItems (dropProtoItems items) = toWireItems items
  | [], _ => rfl
  | item :: rest, h => by
      rw [dropProtoItems, toWireItems, toWireItems, toWire_dropProto item h.1,
        toWireItems_dropProtoItems rest h.2]

theorem toWireFields_dropProtoFields : ∀ fields : List (String × JsValue),
    EncodableFields fields → toWireFields (dropProtoFields fields) = toWireFields fields
  | [], _ => rfl
  | (key, value) :: rest, h => by
      have hrest := toWireFields_dropProtoFields rest h.2
      rw [dropProtoFields, assign]
      split
      · -- the encoder would have lost the field, too
        rename_i hkey
        obtain ⟨out, hout⟩ := exists_toWire h.1
        obtain ⟨tail, htail, -⟩ := fromWireFields_toWireFields rest h.2
        rw [hrest, toWireFields, hout, htail]
        cases out <;> simp [assign, hkey]
      · rw [toWireFields, toWireFields, toWire_dropProto value h.1, hrest]

end

mutual

theorem WellFormed.dropProto : ∀ {v : JsValue}, WellFormed v → WellFormed (dropProto v)
  | .array _, h => WellFormedItems.dropProtoItems h
  | .object fields, h =>
    ⟨h.1.sublist (keys_dropProtoFields_sublist fields), WellFormedFields.dropProtoFields h.2⟩
  | .undefined, _ | .null, _ | .bool _, _ | .number _, _ | .string _, _ | .bigint _, _
  | .bytes _, _ | .other _, _ => trivial

theorem WellFormedItems.dropProtoItems : ∀ {items : List JsValue}, WellFormedItems items →
    WellFormedItems (dropProtoItems items)
  | [], _ => trivial
  | _ :: _, h => ⟨h.1.dropProto, WellFormedItems.dropProtoItems h.2⟩

theorem WellFormedFields.dropProtoFields : ∀ {fields : List (String × JsValue)},
    WellFormedFields fields → WellFormedFields (dropProtoFields fields)
  | [], _ => trivial
  | (key, value) :: rest, h => by
      have hrest := WellFormedFields.dropProtoFields h.2
      rw [Wire.dropProtoFields, assign]
      split
      · exact hrest
      · exact ⟨h.1.dropProto, hrest⟩

end

mutual

theorem protoFree_dropProto : ∀ v : JsValue, ProtoFree (dropProto v)
  | .array items => protoFreeItems_dropProtoItems items
  | .object fields => protoFreeFields_dropProtoFields fields
  | .undefined | .null | .bool _ | .number _ | .string _ | .bigint _ | .bytes _ | .other _ =>
    trivial

theorem protoFreeItems_dropProtoItems : ∀ items : List JsValue,
    ProtoFreeItems (dropProtoItems items)
  | [] => trivial
  | item :: rest => ⟨protoFree_dropProto item, protoFreeItems_dropProtoItems rest⟩

theorem protoFreeFields_dropProtoFields : ∀ fields : List (String × JsValue),
    ProtoFreeFields (dropProtoFields fields)
  | [] => trivial
  | (key, value) :: rest => by
      have hrest := protoFreeFields_dropProtoFields rest
      rw [dropProtoFields, assign]
      split
      · exact hrest
      · rename_i hkey
        exact ⟨fun heq => absurd heq hkey, protoFree_dropProto value, hrest⟩

end

theorem normalizeDefined_eq_undefined :
    normalizeDefined v = .undefined ↔ v = .undefined := by
  cases v <;> simp [normalizeDefined]

mutual

theorem protoFree_normalizeDefined : ∀ v : JsValue, ProtoFree (normalizeDefined v) ↔ ProtoFree v
  | .array items => protoFreeItems_normalizeItems items
  | .object fields => protoFreeFields_normalizeFields fields
  | .undefined | .null | .bool _ | .number _ | .string _ | .bigint _ | .bytes _ | .other _ =>
    Iff.rfl

theorem protoFreeItems_normalizeItems : ∀ items : List JsValue,
    ProtoFreeItems (normalizeItems items) ↔ ProtoFreeItems items
  | [] => Iff.rfl
  | item :: rest => by
      by_cases hundef : item = .undefined
      · subst hundef
        rw [normalizeItems, ProtoFreeItems, ProtoFreeItems, protoFreeItems_normalizeItems rest]
        rfl
      · rw [normalizeItems_cons hundef, ProtoFreeItems, ProtoFreeItems,
          protoFree_normalizeDefined item, protoFreeItems_normalizeItems rest]

theorem protoFreeFields_normalizeFields : ∀ fields : List (String × JsValue),
    ProtoFreeFields (normalizeFields fields) ↔ ProtoFreeFields fields
  | [] => Iff.rfl
  | (key, value) :: rest => by
      by_cases hundef : value = .undefined
      · subst hundef
        rw [normalizeFields, ProtoFreeFields, protoFreeFields_normalizeFields rest]
        simp [ProtoFree]
      · rw [normalizeFields_cons hundef, ProtoFreeFields, ProtoFreeFields,
          normalizeDefined_eq_undefined, protoFree_normalizeDefined value,
          protoFreeFields_normalizeFields rest]

end

theorem protoFree_normalize (v : JsValue) : ProtoFree (normalize v) ↔ ProtoFree v := by
  cases v with
  | undefined => rfl
  | _ => exact protoFree_normalizeDefined _

theorem protoFreeFields_iff :
    ProtoFreeFields fields ↔
      ∀ field ∈ fields, (field.1 = "__proto__" → field.2 = .undefined) ∧ ProtoFree field.2 := by
  induction fields with
  | nil => simp [ProtoFreeFields]
  | cons _ _ ih => rw [ProtoFreeFields, ih, forall_mem_cons, and_assoc]

mutual

theorem Reordered.protoFree : ∀ {v w : JsValue}, Reordered v w → ProtoFree w → ProtoFree v
  | .array items, w, h, hfree => by
      cases h with
      | same => exact hfree
      | array hitems => exact ReorderedItems.protoFree hitems hfree
  | .object fields, w, h, hfree => by
      cases h with
      | same => exact hfree
      | object hfields hperm =>
        refine ReorderedFields.protoFree hfields (protoFreeFields_iff.2 fun field hmem => ?_)
        exact protoFreeFields_iff.1 hfree field (hperm.subset hmem)
  | .undefined, _, _, _ | .null, _, _, _ | .bool _, _, _, _ | .number _, _, _, _
  | .string _, _, _, _ | .bigint _, _, _, _ | .bytes _, _, _, _ | .other _, _, _, _ => trivial

theorem ReorderedItems.protoFree : ∀ {items others : List JsValue},
    ReorderedItems items others → ProtoFreeItems others → ProtoFreeItems items
  | [], _, _, _ => trivial
  | item :: rest, _, h, hfree => by
      cases h with
      | cons hitem hrest =>
        exact ⟨hitem.protoFree hfree.1, ReorderedItems.protoFree hrest hfree.2⟩

theorem ReorderedFields.protoFree : ∀ {fields others : List (String × JsValue)},
    ReorderedFields fields others → ProtoFreeFields others → ProtoFreeFields fields
  | [], _, _, _ => trivial
  | (key, value) :: rest, _, h, hfree => by
      cases h with
      | cons hvalue hrest =>
        obtain ⟨hproto, hother, htail⟩ := hfree
        refine ⟨fun hkey => ?_, hvalue.protoFree hother, ReorderedFields.protoFree hrest htail⟩
        rw [hproto hkey] at hvalue
        cases hvalue
        rfl

end

/-- **A `__proto__` field makes a collision**: the value without it has the same encoding. -/
theorem exists_collision {a : JsValue} (ha : Encodable a) (hproto : ¬ ProtoFree a) :
    stableEncode a = stableEncode (dropProto a) ∧
      ¬ Reordered (normalize a) (normalize (dropProto a)) := by
  refine ⟨by rw [stableEncode, stableEncode, toWire_dropProto a ha], fun h => hproto ?_⟩
  exact (protoFree_normalize a).1 (h.protoFree
    ((protoFree_normalize _).2 (protoFree_dropProto a)))

/-! ## An undefined `$` field is escaped and dropped -/

mutual

/-- The number of nodes of a text. -/
def weight : Json → Nat
  | .array items => weightItems items + 1
  | .object fields => weightFields fields + 1
  | _ => 1

/-- The nodes of array items. -/
def weightItems : List Json → Nat
  | [] => 0
  | item :: rest => weight item + weightItems rest

/-- The nodes of object fields. -/
def weightFields : List (String × Json) → Nat
  | [] => 0
  | (_, value) :: rest => weight value + weightFields rest

end

theorem weightFields_perm {fields others : List (String × Json)} (h : fields.Perm others) :
    weightFields fields = weightFields others := by
  induction h with
  | nil => rfl
  | cons _ _ ih => rw [weightFields, weightFields, ih]
  | swap =>
    simp only [weightFields]
    omega
  | trans _ _ ih ih' => exact ih.trans ih'

mutual

theorem weight_sortDeep : ∀ json : Json, weight (sortDeep json) = weight json
  | .array items => by rw [sortDeep, weight, weight, weightItems_sortDeepItems items]
  | .object fields => by
      rw [sortDeep, weight, weight, weightFields_perm (perm_insertionSort _ _),
        weightFields_sortDeepFields fields]
  | .null | .bool _ | .number _ | .string _ => rfl

theorem weightItems_sortDeepItems : ∀ items : List Json,
    weightItems (sortDeepItems items) = weightItems items
  | [] => rfl
  | item :: rest => by
      rw [sortDeepItems, weightItems, weightItems, weight_sortDeep item,
        weightItems_sortDeepItems rest]

theorem weightFields_sortDeepFields : ∀ fields : List (String × Json),
    weightFields (sortDeepFields fields) = weightFields fields
  | [] => rfl
  | (key, value) :: rest => by
      rw [sortDeepFields, weightFields, weightFields, weight_sortDeep value,
        weightFields_sortDeepFields rest]

end

theorem weightFields_assign {key : String} (hkey : key ≠ "__proto__") (json : Json)
    (out : List (String × Json)) : weightFields (assign key json out) = weight json +
      weightFields out := by
  rw [assign, if_neg hkey, weightFields]

theorem weight_escape (out : List (String × Json)) :
    weight (.object [("$", .string "o"), ("v", .object out)]) = weightFields out + 3 := by
  simp only [weight, weightFields]
  omega

section

variable {fields : List (String × JsValue)}

theorem plainFields_of_keys (hfree : ProtoFreeFields fields)
    (hdollar : ∀ field ∈ fields, field.1 = "$" → field.2 ≠ .undefined)
    (hplain : ∀ field ∈ fields, Plain field.2) : PlainFields fields := by
  induction fields with
  | nil => trivial
  | cons _ _ ih =>
    rw [forall_mem_cons] at hdollar hplain
    exact ⟨hfree.1, hdollar.1, hplain.1, ih hfree.2.2 hdollar.2 hplain.2⟩

theorem mem_normalizeFields_key {key : String}
    (h : key ∈ (normalizeFields fields).map Prod.fst) :
    ∃ field ∈ fields, field.1 = key ∧ field.2 ≠ .undefined := by
  induction fields with
  | nil => simp [normalizeFields] at h
  | cons field _ ih =>
    obtain ⟨other, value⟩ := field
    by_cases hundef : value = .undefined
    · subst hundef
      obtain ⟨field, hmem, hfield⟩ := ih h
      exact ⟨field, mem_cons_of_mem _ hmem, hfield⟩
    rw [normalizeFields_cons hundef, map_cons, mem_cons] at h
    rcases h with rfl | h
    · exact ⟨_, mem_cons_self, rfl, hundef⟩
    · obtain ⟨field, hmem, hfield⟩ := ih h
      exact ⟨field, mem_cons_of_mem _ hmem, hfield⟩

theorem defined_of_mem_keys {key : String}
    (hkeys : (fields.map Prod.fst).Nodup) (hkept : key ∈ (normalizeFields fields).map Prod.fst)
    {field : String × JsValue} (hmem : field ∈ fields) (hkey : field.1 = key) :
    field.2 ≠ .undefined := by
  obtain ⟨other, hother, hsame, hdefined⟩ := mem_normalizeFields_key hkept
  obtain rfl := inj_on_of_nodup_map hkeys hmem hother (hkey.trans hsame.symm)
  exact hdefined

end

mutual

theorem toWire_normalizeDefined : ∀ v : JsValue, Encodable v → v ≠ .undefined → WellFormed v →
    ProtoFree v → ∃ json normal, toWire v = .ok (some json) ∧
      toWire (normalizeDefined v) = .ok (some normal) ∧ weight normal ≤ weight json ∧ (weight json ≤ weight normal → Plain v)
  | .undefined, _, hundef, _, _ => absurd rfl hundef
  | .null, _, _, _, _ | .bool _, _, _, _, _ | .string _, _, _, _, _ | .bigint _, _, _, _, _
  | .bytes _, _, _, _, _ => ⟨_, _, rfl, rfl, le_refl _, fun _ => trivial⟩
  | .number (.finite q), _, _, _, _ =>
    ⟨.number q, .number q, rfl, rfl, le_refl _, fun _ => trivial⟩
  | .number .negZero, _, _, _, _ =>
    ⟨.number 0, .number 0, rfl, rfl, le_refl _, fun _ => trivial⟩
  | .number (.infinity _), h, _, _, _ => by simp [Encodable, JsNumber.isFinite] at h
  | .number .nan, h, _, _, _ => by simp [Encodable, JsNumber.isFinite] at h
  | .other _, h, _, _, _ => absurd h (by simp [Encodable])
  | .array items, h, _, hwf, hfree => by
      obtain ⟨out, normal, hout, hnormal, hle, hplain⟩ :=
        toWireItems_normalizeItems items h hwf hfree
      refine ⟨.array out, .array normal, by simp [toWire, hout],
        by simp [normalizeDefined, toWire, hnormal], Nat.succ_le_succ hle, fun hge => ?_⟩
      exact hplain (Nat.le_of_succ_le_succ hge)
  | .object fields, h, _, hwf, hfree => by
      obtain ⟨out, normal, hout, hnormal, hle, hplain⟩ :=
        toWireFields_normalizeFields fields h hwf.2 hfree
      refine ⟨_, _, by simp only [toWire, hout, ok_bind]; rfl,
        by simp only [normalizeDefined, toWire, hnormal, ok_bind]; rfl, ?_⟩
      by_cases hkept : "$" ∈ (normalizeFields fields).map Prod.fst
      · have hdollar := (keys_normalizeFields_sublist fields).subset hkept
        rw [if_pos (isSome_lookup.2 hkept), if_pos (isSome_lookup.2 hdollar), weight_escape,
          weight_escape]
        refine ⟨by omega, fun hge => plainFields_of_keys hfree (fun field hmem hkey => ?_)
          (hplain (by omega))⟩
        exact defined_of_mem_keys hwf.1 hkept hmem hkey
      rw [if_neg (mt isSome_lookup.1 hkept)]
      by_cases hdollar : "$" ∈ fields.map Prod.fst
      · -- the escape alone makes the encoding longer
        rw [if_pos (isSome_lookup.2 hdollar), weight_escape, weight]
        exact ⟨by omega, fun hge => absurd hge (by omega)⟩
      rw [if_neg (mt isSome_lookup.1 hdollar), weight, weight]
      refine ⟨by omega, fun hge => plainFields_of_keys hfree (fun field hmem hkey => ?_)
        (hplain (by omega))⟩
      exact absurd (mem_map.2 ⟨field, hmem, hkey⟩) hdollar

theorem toWireItems_normalizeItems : ∀ items : List JsValue, EncodableItems items →
    WellFormedItems items → ProtoFreeItems items → ∃ out normal, toWireItems items = .ok out ∧
      toWireItems (normalizeItems items) = .ok normal ∧ weightItems normal ≤ weightItems out ∧
      (weightItems out ≤ weightItems normal → PlainItems items)
  | [], _, _, _ => ⟨[], [], rfl, rfl, le_refl _, fun _ => trivial⟩
  | item :: rest, h, hwf, hfree => by
      obtain ⟨out, normal, hrest, hrestNormal, hle, hplain⟩ :=
        toWireItems_normalizeItems rest h.2 hwf.2 hfree.2
      by_cases hundef : item = .undefined
      · subst hundef
        refine ⟨.null :: out, .null :: normal, by simp [toWireItems, toWire, hrest],
          by simp [normalizeItems, toWireItems, toWire, hrestNormal], ?_, fun hge => ?_⟩
        · exact Nat.add_le_add_left hle _
        · exact ⟨trivial, hplain (Nat.le_of_add_le_add_left hge)⟩
      obtain ⟨json, small, hitem, hitemNormal, hitemLe, hitemPlain⟩ :=
        toWire_normalizeDefined item h.1 hundef hwf.1 hfree.1
      refine ⟨json :: out, small :: normal, by simp [toWireItems, hitem, hrest],
        by simp [normalizeItems_cons hundef, toWireItems, hitemNormal, hrestNormal], ?_,
        fun hge => ?_⟩
      · exact Nat.add_le_add hitemLe hle
      · rw [weightItems, weightItems] at hge
        exact ⟨hitemPlain (by omega), hplain (by omega)⟩

theorem toWireFields_normalizeFields : ∀ fields : List (String × JsValue),
    EncodableFields fields → WellFormedFields fields → ProtoFreeFields fields →
    ∃ out normal, toWireFields fields = .ok out ∧
      toWireFields (normalizeFields fields) = .ok normal ∧
      weightFields normal ≤ weightFields out ∧
      (weightFields out ≤ weightFields normal → ∀ field ∈ fields, Plain field.2)
  | [], _, _, _ => ⟨[], [], rfl, rfl, le_refl _, fun _ => by simp⟩
  | (key, value) :: rest, h, hwf, hfree => by
      obtain ⟨out, normal, hrest, hrestNormal, hle, hplain⟩ :=
        toWireFields_normalizeFields rest h.2 hwf.2 hfree.2.2
      by_cases hundef : value = .undefined
      · subst hundef
        refine ⟨out, normal, by simp [toWireFields, toWire, hrest], hrestNormal, hle,
          fun hge => ?_⟩
        exact forall_mem_cons.2 ⟨trivial, hplain hge⟩
      obtain ⟨json, small, hvalue, hvalueNormal, hvalueLe, hvaluePlain⟩ :=
        toWire_normalizeDefined value h.1 hundef hwf.1 hfree.2.1
      have hkey : key ≠ "__proto__" := fun heq => hundef (hfree.1 heq)
      refine ⟨assign key json out, assign key small normal,
        by simp [toWireFields, hvalue, hrest],
        by simp [normalizeFields_cons hundef, toWireFields, hvalueNormal, hrestNormal], ?_, ?_⟩
      · rw [weightFields_assign hkey, weightFields_assign hkey]
        exact Nat.add_le_add hvalueLe hle
      · intro hge
        rw [weightFields_assign hkey, weightFields_assign hkey] at hge
        exact forall_mem_cons.2 ⟨hvaluePlain (by omega), hplain (by omega)⟩

end

/-- **An undefined `$` field splits one value into two**: the normal form has another
encoding. -/
theorem stableEncode_ne_normalize {a : JsValue} (ha : Encodable a) (hwf : WellFormed a)
    (hfree : ProtoFree a) (hplain : ¬ Plain a) :
    stableEncode a ≠ stableEncode (normalize a) ∧
      Reordered (normalize a) (normalize (normalize a)) := by
  have hundef : a ≠ .undefined := by
    rintro rfl
    exact hplain trivial
  have hnormal : normalize a = normalizeDefined a := by
    cases a <;> first | rfl | exact absurd rfl hundef
  constructor
  · intro h
    obtain ⟨json, normal, hto, htoNormal, -, hge⟩ := toWire_normalizeDefined a ha hundef hwf hfree
    simp only [stableEncode, hnormal, hto, htoNormal, ok_bind] at h
    have hsame := ok.inj h
    have hweight := congrArg weight hsame
    rw [weight_sortDeep, weight_sortDeep] at hweight
    exact hplain (hge hweight.le)
  have hidem : normalize (normalize a) = normalize a := by
    rw [← (readBack_eq_normalize_iff (normalize a)).2 ((protoFree_normalize a).2 hfree),
      ← (readBack_eq_normalize_iff a).2 hfree, readBack_idem]
  rw [hidem]
  exact .same _

/-- A value that is not plain is confused with another, or kept apart from its normal form. -/
theorem exists_miscoded {a : JsValue} (ha : Encodable a) (hwf : WellFormed a)
    (hplain : ¬ Plain a) : ∃ b, Encodable b ∧ WellFormed b ∧
      ¬ (stableEncode a = stableEncode b ↔ Reordered (normalize a) (normalize b)) := by
  by_cases hfree : ProtoFree a
  · obtain ⟨hne, hsame⟩ := stableEncode_ne_normalize ha hwf hfree hplain
    refine ⟨normalize a, ?_, hwf.normalize, fun h => hne (h.2 hsame)⟩
    rw [← (readBack_eq_normalize_iff a).2 hfree]
    exact encodable_readBack ha
  obtain ⟨hsame, hne⟩ := exists_collision ha hfree
  refine ⟨dropProto a, ?_, hwf.dropProto, fun h => hne (h.1 hsame)⟩
  obtain ⟨out, hout⟩ := exists_toWire ha
  exact encodable_of_toWire ((toWire_dropProto a ha).trans hout)

end AckerDB.Wire
