import AckerDB.Database.Keys

/-!
# Table writes

The write methods of a table: each changes the stored rows and adds the keys of
the rows it touched to the transaction's write set.  Rows are validated before
they get here, and an insert is given the primary key SQLite assigns.

* `Write.run_spec` — a write changes no row outside those whose old and new versions
  both emitted their keys.
-/

namespace AckerDB

open Function

variable {plan : TablePlan} {keys : List Key} {row : Option Row} {before after : WriteState}

/-- The rows of a table by primary key. -/
abbrev Table := Int → Option Row

/-- At most this many rows are deleted at once. -/
def deleteManyLimit : Nat := 256

/-- A table and the write set of the transaction so far. -/
structure WriteState where
  table : Table
  keys : List Key

section

variable (plan : TablePlan)

/-- `{ ...values, [plan.pk]: id }`. -/
def withPk (values : Row) (id : Int) : Row :=
  update values plan.pk (.bigint id)

/-- The keys of a row version, if there is one. -/
def emitVersionKeys (keys : List Key) : Option Row → Except JsError (List Key)
  | some row => emitWriteKeys plan row keys
  | none => .ok keys

/-- The emission of one write: the keys of the old row, of the new row, and of the
full-text corpora it changes. -/
def emitRowWrite (before after : Option Row) (keys : List Key) :
    Except JsError (List Key) := do
  let keys ← emitVersionKeys plan keys before
  let keys ← emitVersionKeys plan keys after
  return emitFullTextWriteKeys plan before after keys

/-- Store a new version of a row (or none) and emit its keys. -/
def writeRow (state : WriteState) (id : Int) (after : Option Row) :
    Except JsError WriteState := do
  let keys ← emitRowWrite plan (state.table id) after state.keys
  return { table := update state.table id after, keys }

/-- The loop of `updateRow` over a partial row: `undefined` fields are skipped, the
primary key and unknown fields are refused. -/
def changedFields (plan : TablePlan) :
    List (String × JsValue) → Except JsError (List (String × JsValue))
  | [] => .ok []
  | (key, value) :: rest =>
    if value = .undefined then changedFields plan rest
    else if key = plan.pk then
      .error (.validationError
        (plan.displayName ++ ".patch: the primary key cannot be changed"))
    else if (plan.columns.lookup key).isNone then
      .error (.validationError (plan.displayName ++ ".patch: unknown field \"" ++ key ++ "\""))
    else do
      let changed ← changedFields plan rest
      return (key, value) :: changed

/-- The old row with the changed fields. -/
def updatedRow (oldRow : Row) (changed : List (String × JsValue)) : Row :=
  changed.foldl (fun row field => update row field.1 field.2) oldRow

/-- The write methods of a table. -/
inductive Write where
  | insert (id : Int) (values : Row)
  | patch (id : Int) (fields : List (String × JsValue))
  | replace (id : Int) (values : Row)
  | delete (id : Int)
  | deleteMany (ids : List Int)

/-- `delete`: deleting a missing row is idempotent under retry. -/
def deleteRow (state : WriteState) (id : Int) : Except JsError WriteState :=
  match state.table id with
  | none => .ok state
  | some _ => writeRow plan state id none

/-- Delete the rows that exist among the ids, one after another. -/
def deleteRows (plan : TablePlan) (state : WriteState) : List Int → Except JsError WriteState
  | [] => .ok state
  | id :: rest => do
      let state ← deleteRow plan state id
      deleteRows plan state rest

/-- Run one write method. -/
def Write.run (state : WriteState) : Write → Except JsError WriteState
  | .insert id values =>
    match state.table id with
    | some _ => .error (.error "UNIQUE constraint failed")
    | none => writeRow plan state id (some (withPk plan values id))
  | .patch id fields =>
    match state.table id with
    | none =>
      .error (.error (plan.displayName ++ ".patch: row " ++ toString id ++ " not found"))
    | some old => do
        let changed ← changedFields plan fields
        if changed = [] then .ok state
        else writeRow plan state id (some (updatedRow old changed))
  | .replace id values =>
    match state.table id with
    | none =>
      .error (.error (plan.displayName ++ ".replace: row " ++ toString id ++ " not found"))
    | some _ => writeRow plan state id (some (withPk plan values id))
  | .delete id => deleteRow plan state id
  | .deleteMany ids =>
    let distinct := ids.dedup
    if distinct.length > deleteManyLimit then
      .error (.validationError (plan.displayName ++ ".deleteMany: at most " ++
        toString deleteManyLimit ++ " distinct ids may be deleted at once"))
    else deleteRows plan state distinct

/-! ## What a write emits -/

/-- The keys of the row, if there is one, are all in the write set. -/
def Emitted (row : Option Row) (keys : List Key) : Prop :=
  ∀ present, row = some present →
    ∃ written, emitWriteKeys plan present [] = .ok written ∧ ∀ key ∈ written, key ∈ keys

end

theorem emitWriteKeys_into {row : Row} {into : List Key}
    (h : emitWriteKeys plan row into = .ok keys) :
    ∃ written, emitWriteKeys plan row [] = .ok written ∧ keys = into ++ written := by
  rw [emitWriteKeys, Except.bind_eq_ok] at h
  obtain ⟨own, hown, h⟩ := h
  cases h
  exact ⟨_, by rw [emitWriteKeys, hown]; rfl, rfl⟩

theorem emitted_none (plan : TablePlan) (keys : List Key) : Emitted plan none keys := by
  intro present hpresent
  cases hpresent

theorem emitVersionKeys_spec {into : List Key} (h : emitVersionKeys plan into row = .ok keys) :
    Emitted plan row keys ∧ ∀ key ∈ into, key ∈ keys := by
  cases row with
  | none =>
    cases h
    exact ⟨emitted_none plan keys, fun key hkey => hkey⟩
  | some =>
    obtain ⟨written, hwritten, rfl⟩ := emitWriteKeys_into h
    refine ⟨?_, fun key hkey => List.mem_append_left _ hkey⟩
    intro found hfound
    cases hfound
    exact ⟨written, hwritten, fun key hkey => List.mem_append_right _ hkey⟩

theorem Emitted.mono {more : List Key} (h : Emitted plan row keys) (hsub : ∀ key ∈ keys, key ∈ more) :
    Emitted plan row more := by
  intro present hpresent
  obtain ⟨written, hwritten, hmem⟩ := h present hpresent
  exact ⟨written, hwritten, fun key hkey => hsub key (hmem key hkey)⟩

/-- What a run of writes leaves: the write set only grows, and each row that is no longer
what it was has its old and its new version's keys in it. -/
structure WriteSpec (plan : TablePlan) (before after : WriteState) : Prop where
  grows : ∀ key ∈ before.keys, key ∈ after.keys
  emitted : ∀ id, after.table id ≠ before.table id →
    Emitted plan (before.table id) after.keys ∧ Emitted plan (after.table id) after.keys

theorem WriteSpec.refl (plan : TablePlan) (state : WriteState) : WriteSpec plan state state where
  grows := fun _ hkey => hkey
  emitted := fun _ hne => absurd rfl hne

theorem writeRow_spec {id : Int} (h : writeRow plan before id row = .ok after) :
    after.table = update before.table id row ∧ WriteSpec plan before after := by
  simp only [writeRow, emitRowWrite, Except.bind_eq_ok] at h
  obtain ⟨keys, ⟨keysBefore, hbefore, keysAfter, hafter, hkeys⟩, h⟩ := h
  cases h
  cases hkeys
  obtain ⟨hold, hgrowsOld⟩ := emitVersionKeys_spec hbefore
  obtain ⟨hnew, hgrowsNew⟩ := emitVersionKeys_spec hafter
  have hfts : ∀ key ∈ keysAfter,
      key ∈ emitFullTextWriteKeys plan (before.table id) row keysAfter :=
    fun key hkey => List.mem_append_left _ hkey
  refine ⟨rfl, ⟨fun key hkey => hfts key (hgrowsNew key (hgrowsOld key hkey)), ?_⟩⟩
  intro other hne
  have hid : other = id := by
    by_contra hother
    exact hne (update_of_ne hother _ _)
  subst hid
  dsimp only
  rw [update_self]
  exact ⟨(hold.mono hgrowsNew).mono hfts, hnew.mono hfts⟩

theorem deleteRow_spec {id : Int} (h : deleteRow plan before id = .ok after) :
    WriteSpec plan before after ∧
      ∀ other, after.table other = before.table other ∨ after.table other = none := by
  unfold deleteRow at h
  split at h
  · cases h
    exact ⟨WriteSpec.refl plan before, fun _ => .inl rfl⟩
  obtain ⟨htable, hwrite⟩ := writeRow_spec h
  refine ⟨hwrite, ?_⟩
  intro other
  rw [htable]
  by_cases hother : other = id
  · subst hother
    exact .inr (update_self ..)
  · exact .inl (update_of_ne hother _ _)

/-- Deleting rows one after another: a row once gone stays gone, so the two halves of the
specification compose. -/
theorem deleteRows_spec {ids : List Int} (h : deleteRows plan before ids = .ok after) :
    WriteSpec plan before after ∧ ∀ id, after.table id = before.table id ∨ after.table id = none := by
  induction ids generalizing before with
  | nil =>
    cases h
    exact ⟨WriteSpec.refl plan _, fun _ => .inl rfl⟩
  | cons id rest ih =>
    simp only [deleteRows, Except.bind_eq_ok] at h
    obtain ⟨middle, hmiddle, hrest⟩ := h
    obtain ⟨hspec, hgone⟩ := ih hrest
    have hfirst := deleteRow_spec hmiddle
    refine ⟨⟨fun key hkey => hspec.grows key (hfirst.1.grows key hkey), ?_⟩, ?_⟩
    · intro other hne
      by_cases hsame : middle.table other = before.table other
      · have hlater := hspec.emitted other (by rw [hsame]; exact hne)
        rw [hsame] at hlater
        exact hlater
      have hmid := hfirst.1.emitted other hsame
      have hnone := (hfirst.2 other).resolve_left hsame
      have hafter : after.table other = none := by
        rcases hgone other with heq | heq
        · rw [heq, hnone]
        · exact heq
      refine ⟨hmid.1.mono hspec.grows, ?_⟩
      rw [hafter]
      exact emitted_none plan after.keys
    intro other
    rcases hgone other with heq | heq
    · rw [heq]
      exact hfirst.2 other
    · exact .inr heq

/-- **Every write method emits the keys of what it changes.** -/
theorem Write.run_spec {write : Write} (h : write.run plan before = .ok after) :
    WriteSpec plan before after := by
  cases write with
  | insert | replace =>
    simp only [Write.run] at h
    split at h
    · cases h
    · exact (writeRow_spec h).2
  | patch =>
    simp only [Write.run] at h
    split at h
    · cases h
    rw [Except.bind_eq_ok] at h
    obtain ⟨changed, -, h⟩ := h
    split at h
    · cases h
      exact WriteSpec.refl plan before
    · exact (writeRow_spec h).2
  | delete => exact (deleteRow_spec h).1
  | deleteMany =>
    simp only [Write.run] at h
    split at h
    · cases h
    · exact (deleteRows_spec h).1

end AckerDB
