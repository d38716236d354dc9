import AckerDB.Lib.Run

/-!
# Nested mutation scopes

The registered mutations that run inside one writer transaction.  Each runs in a savepoint of its
own; what it stages for after the commit goes into one write collector, which is checkpointed when
the scope opens and set back when it fails.  Children of one mutation wait for each other through
the `tail` of its frame, and a database call is refused unless its scope is the innermost one.

* `JournaledSet`, `WriteCollector` — what is staged, and how it is set back;
* `MutationScopes` — the frames, the savepoints and the collector of one transaction;
* `MutationScopes.step` — a mutation is called, opens its scope, uses the database, settles and
  closes its scope;
* `WriteCollector.rollback_checkpoint` — a rollback restores what the checkpoint saw.
-/

namespace AckerDB

open List

/-! ## The write collector -/

/-- `JournaledSet`: a set, in the order of insertion, and the journal of its insertions. -/
structure JournaledSet (α : Type) where
  elements : List α := []
  insertions : List α := []
  deriving DecidableEq

namespace JournaledSet

variable {α : Type} [DecidableEq α]

/-- `add`. -/
def add (set : JournaledSet α) (value : α) : JournaledSet α :=
  if value ∈ set.elements then set
  else { elements := set.elements ++ [value], insertions := set.insertions ++ [value] }

/-- `checkpoint`. -/
def checkpoint (set : JournaledSet α) : Nat := set.insertions.length

/-- `rollback`: what was inserted since is deleted, the latest first. -/
def rollback (set : JournaledSet α) (checkpoint : Nat) : JournaledSet α where
  elements := (set.insertions.drop checkpoint).reverse.foldl List.erase set.elements
  insertions := set.insertions.take checkpoint

end JournaledSet

/-- What a database call stages. -/
structure Staging (κ ε : Type) where
  keys : List κ := []
  events : List ε := []
  scheduledTables : List String := []
  fileCleanupAt : Option Int := none
  credentialInvalidations : List String := []
  deriving DecidableEq

/-- `WriteCollector`. -/
structure WriteCollector (κ ε : Type) where
  keys : JournaledSet κ := {}
  events : List ε := []
  scheduledTables : JournaledSet String := {}
  fileCleanupAt : Option Int := none
  credentialInvalidations : List String := []
  deriving DecidableEq

/-- `WriteCollectorCheckpoint`. -/
structure WriteCollectorCheckpoint where
  keys : Nat := 0
  events : Nat := 0
  scheduledTables : Nat := 0
  fileCleanupAt : Option Int := none
  credentialInvalidations : Nat := 0
  deriving DecidableEq

namespace WriteCollector

variable {κ ε : Type} [DecidableEq κ]

variable (writes : WriteCollector κ ε)

/-- A call stages its effects. -/
def stage (staging : Staging κ ε) : WriteCollector κ ε where
  keys := staging.keys.foldl JournaledSet.add writes.keys
  events := writes.events ++ staging.events
  scheduledTables := staging.scheduledTables.foldl JournaledSet.add writes.scheduledTables
  fileCleanupAt :=
    match writes.fileCleanupAt, staging.fileCleanupAt with
    | none, at_ => at_
    | some earliest, none => some earliest
    | some earliest, some at_ => some (min earliest at_)
  credentialInvalidations := writes.credentialInvalidations ++ staging.credentialInvalidations

/-- `checkpointWriteCollector`. -/
def checkpoint : WriteCollectorCheckpoint where
  keys := writes.keys.checkpoint
  events := writes.events.length
  scheduledTables := writes.scheduledTables.checkpoint
  fileCleanupAt := writes.fileCleanupAt
  credentialInvalidations := writes.credentialInvalidations.length

/-- `rollbackWriteCollector`. -/
def rollback (checkpoint : WriteCollectorCheckpoint) :
    WriteCollector κ ε where
  keys := writes.keys.rollback checkpoint.keys
  events := writes.events.take checkpoint.events
  scheduledTables := writes.scheduledTables.rollback checkpoint.scheduledTables
  fileCleanupAt := checkpoint.fileCleanupAt
  credentialInvalidations := writes.credentialInvalidations.take checkpoint.credentialInvalidations

end WriteCollector

/-! ## Rolling back to a checkpoint -/

namespace JournaledSet

variable {α : Type} [DecidableEq α]

/-- The journal is the set. -/
structure Sound (set : JournaledSet α) : Prop where
  elements : set.elements = set.insertions
  nodup : set.insertions.Nodup

/-- One set comes from another by insertions. -/
structure Extends (later earlier : JournaledSet α) : Prop extends Sound later where
  journal : earlier.insertions <+: later.insertions

theorem Sound.add {set : JournaledSet α} (h : set.Sound) (value : α) :
    (set.add value).Extends set := by
  unfold JournaledSet.add
  split
  · exact ⟨h, prefix_rfl⟩
  rename_i hnew
  rw [h.elements] at hnew
  refine ⟨⟨by rw [h.elements], ?_⟩, prefix_append _ _⟩
  rw [nodup_append]
  refine ⟨h.nodup, nodup_singleton value, fun old hold new hmem heq => hnew ?_⟩
  rw [mem_singleton] at hmem
  rwa [← hmem, ← heq]

omit [DecidableEq α] in
theorem Extends.trans {a b c : JournaledSet α} (hbc : c.Extends b) (hab : b.Extends a) :
    c.Extends a := ⟨hbc.toSound, hab.journal.trans hbc.journal⟩

theorem Sound.addAll {set : JournaledSet α} (h : set.Sound) (values : List α) :
    (values.foldl JournaledSet.add set).Extends set := by
  induction values generalizing set with
  | nil => exact ⟨h, prefix_rfl⟩
  | cons value rest ih => exact (ih (h.add value).toSound).trans (h.add value)

/-- Erasing the end of a list, the last element first. -/
theorem foldl_erase_append {front back : List α} (h : (front ++ back).Nodup) :
    back.reverse.foldl List.erase (front ++ back) = front := by
  induction back using List.reverseRecOn with
  | nil => simp
  | append_singleton back last ih =>
    rw [← List.append_assoc] at h ⊢
    obtain ⟨hinit, -, hfresh⟩ := List.nodup_append.1 h
    have hlast : last ∉ front ++ back := fun hmem => hfresh last hmem last (by simp) rfl
    rw [List.reverse_append, List.reverse_singleton, List.singleton_append, List.foldl_cons,
      List.erase_append_right _ hlast]
    simpa using ih hinit

/-- **A rollback restores the set.** -/
theorem Extends.rollback {later earlier : JournaledSet α} (h : later.Extends earlier)
    (hsound : earlier.Sound) : later.rollback earlier.checkpoint = earlier := by
  obtain ⟨more, hmore⟩ := h.journal
  have hnodup := h.nodup
  rw [← hmore] at hnodup
  have hinsertions : later.insertions.take earlier.insertions.length = earlier.insertions := by
    rw [← hmore, List.take_left]
  have helements : (later.insertions.drop earlier.insertions.length).reverse.foldl List.erase
      later.elements = earlier.elements := by
    rw [h.elements, hsound.elements, ← hmore, List.drop_left, foldl_erase_append hnodup]
  unfold JournaledSet.rollback checkpoint
  rw [hinsertions, helements]

end JournaledSet

namespace WriteCollector

variable {κ ε : Type} [DecidableEq κ]

/-- The journals are the sets. -/
structure Sound (writes : WriteCollector κ ε) : Prop where
  keys : writes.keys.Sound
  scheduledTables : writes.scheduledTables.Sound

/-- One collector comes from another by staging. -/
structure Extends (later earlier : WriteCollector κ ε) : Prop where
  keys : later.keys.Extends earlier.keys
  events : earlier.events <+: later.events
  scheduledTables : later.scheduledTables.Extends earlier.scheduledTables
  credentialInvalidations : earlier.credentialInvalidations <+: later.credentialInvalidations

variable {writes : WriteCollector κ ε}

omit [DecidableEq κ] in
theorem Sound.refl (h : writes.Sound) : writes.Extends writes :=
  ⟨⟨h.keys, prefix_rfl⟩, prefix_rfl, ⟨h.scheduledTables, prefix_rfl⟩,
    prefix_rfl⟩

omit [DecidableEq κ] in
theorem Extends.sound {later earlier : WriteCollector κ ε} (h : later.Extends earlier) :
    later.Sound := ⟨h.keys.toSound, h.scheduledTables.toSound⟩

omit [DecidableEq κ] in
theorem Extends.trans {a b c : WriteCollector κ ε} (hbc : c.Extends b) (hab : b.Extends a) :
    c.Extends a :=
  ⟨hbc.keys.trans hab.keys, hab.events.trans hbc.events,
    hbc.scheduledTables.trans hab.scheduledTables,
    hab.credentialInvalidations.trans hbc.credentialInvalidations⟩

theorem Sound.stage (h : writes.Sound) (staging : Staging κ ε) :
    (writes.stage staging).Extends writes :=
  ⟨h.keys.addAll _, prefix_append _ _, h.scheduledTables.addAll _, prefix_append _ _⟩

/-- What a list of calls stages, one after the other. -/
def ofCalls (calls : List (Staging κ ε)) : WriteCollector κ ε := calls.foldl stage {}

omit [DecidableEq κ] in
theorem sound_empty : ({} : WriteCollector κ ε).Sound :=
  ⟨⟨rfl, nodup_nil⟩, ⟨rfl, nodup_nil⟩⟩

theorem extends_foldl (h : writes.Sound)
    (calls : List (Staging κ ε)) : (calls.foldl WriteCollector.stage writes).Extends writes := by
  induction calls generalizing writes with
  | nil => exact h.refl
  | cons call rest ih => exact (ih (h.stage call).sound).trans (h.stage call)

theorem ofCalls_append_singleton (calls : List (Staging κ ε)) (call : Staging κ ε) :
    ofCalls (calls ++ [call]) = (ofCalls calls).stage call := by
  rw [ofCalls, foldl_append]
  rfl

/-- **A rollback restores what the checkpoint saw.** -/
theorem rollback_checkpoint {earlier later : List (Staging κ ε)} (h : earlier <+: later) :
    (ofCalls later).rollback (ofCalls earlier).checkpoint = ofCalls earlier := by
  obtain ⟨more, rfl⟩ := h
  have hsound := (extends_foldl sound_empty earlier).sound
  have hextends : (ofCalls (earlier ++ more)).Extends (ofCalls earlier) := by
    rw [ofCalls, foldl_append]
    exact extends_foldl hsound more
  obtain ⟨moreEvents, hevents⟩ := hextends.events
  obtain ⟨moreIds, hids⟩ := hextends.credentialInvalidations
  unfold rollback checkpoint
  rw [hextends.keys.rollback hsound.keys, hextends.scheduledTables.rollback hsound.scheduledTables,
    ← hevents, ← hids, take_left, take_left]

end WriteCollector

/-! ## The scopes of a transaction -/

/-- How a mutation ends. -/
inductive ScopeOutcome where
  | ok | err | threw
  deriving DecidableEq

/-- Where a mutation is. -/
inductive ScopePhase where
  /-- Called, and waiting for its turn in the parent's `tail`. -/
  | waiting
  | running
  /-- The handler has settled; the scope waits for its own `tail`. -/
  | draining (outcome : ScopeOutcome)
  | ended (outcome : ScopeOutcome)
  deriving DecidableEq

namespace ScopePhase

/-- The scope is open. -/
def isOpen : ScopePhase → Bool
  | running | draining _ => true
  | waiting | ended _ => false

/-- The scope has ended. -/
def isEnded : ScopePhase → Bool
  | ended _ => true
  | _ => false

/-- The scope has ended in an `Err` or a throw. -/
def failed : ScopePhase → Bool
  | ended .err | ended .threw => true
  | _ => false

end ScopePhase

/-- A mutation of the transaction; number zero is the root, which has no scope of its own. -/
structure ScopeFrame where
  parent : Nat := 0
  /-- The scopes the mutation runs in, from its own to the outermost. -/
  scopes : List Nat := []
  phase : ScopePhase := .waiting
  /-- The mutations it has called. -/
  children : List Nat := []
  /-- How many of them the `tail` covered when the handler settled. -/
  awaited : Nat := 0
  /-- `name`: the number in the name of the savepoint. -/
  savepoint : Nat := 0
  before : WriteCollectorCheckpoint := {}

/-- A savepoint of SQLite, with the data it restores. -/
structure Savepoint (κ ε : Type) where
  name : Nat
  data : List (Staging κ ε)

/-- One transaction.  The data is the list of the calls it holds. -/
structure MutationScopes (κ ε : Type) where
  frames : Nat → ScopeFrame := fun f => if f = 0 then { phase := .running } else {}
  count : Nat := 1
  /-- `state.current`. -/
  current : Option Nat := some 0
  nextSavepoint : Nat := 0
  /-- `activeNestedMutationScopes`. -/
  active : Nat := 0
  /-- The innermost savepoint comes first. -/
  savepoints : List (Savepoint κ ε) := []
  data : List (Staging κ ε) := []
  writes : WriteCollector κ ε := {}
  /-- The calls that were not refused, and who made them. -/
  calls : List (Nat × Staging κ ε) := []

/-- What can happen. -/
inductive ScopeEvent (κ ε : Type) where
  /-- The mutation calls a registered mutation (`scope.run`). -/
  | call (f : Nat)
  /-- The turn of the called mutation comes (`runNow`). -/
  | start (f : Nat)
  /-- The mutation uses the database; `checked` calls go through `assertMutationAccess`, the
  operations on credentials do not. -/
  | access (f : Nat) (staging : Staging κ ε) (checked : Bool)
  | settle (f : Nat) (outcome : ScopeOutcome)
  /-- The `tail` is drained, and the scope is closed. -/
  | finish (f : Nat)

namespace MutationScopes

variable {κ ε : Type} [DecidableEq κ]

variable (s : MutationScopes κ ε)

/-- Change one frame. -/
def setFrame (f : Nat) (frame : ScopeFrame) : MutationScopes κ ε :=
  { s with frames := Function.update s.frames f frame }

/-- The mutation is called: a frame in the `tail` of the caller. -/
def addFrame (f : Nat) : MutationScopes κ ε :=
  let caller := s.frames f
  { (s.setFrame f { caller with children := caller.children ++ [s.count] }).setFrame s.count
      { parent := f, scopes := s.count :: caller.scopes } with
    count := s.count + 1 }

/-- The turn of a mutation has come: all that were called before it have ended. -/
def hasTurn (f : Nat) : Bool :=
  ((s.frames (s.frames f).parent).children.takeWhile fun other => other ≠ f).all
    fun other => (s.frames other).phase.isEnded

/-- `runNow`, up to the call of the handler. -/
def openScope (f : Nat) : MutationScopes κ ε :=
  { s.setFrame f
      { s.frames f with
        phase := .running, savepoint := s.nextSavepoint + 1, before := s.writes.checkpoint } with
    nextSavepoint := s.nextSavepoint + 1
    savepoints := { name := s.nextSavepoint + 1, data := s.data } :: s.savepoints
    current := some f
    active := s.active + 1 }

/-- `assertMutationAccess`. -/
def mayAccess (f : Nat) : Bool :=
  s.active = 0 || s.current = some f

/-- `ROLLBACK TO`; nothing where there is no such savepoint. -/
def rollbackTo (name : Nat) : Option (MutationScopes κ ε) :=
  match s.savepoints.dropWhile fun savepoint => savepoint.name ≠ name with
  | [] => none
  | savepoint :: rest =>
    some { s with savepoints := savepoint :: rest, data := savepoint.data }

/-- `RELEASE`; nothing where there is no such savepoint. -/
def release (name : Nat) : Option (MutationScopes κ ε) :=
  match s.savepoints.dropWhile fun savepoint => savepoint.name ≠ name with
  | [] => none
  | _ :: rest => some { s with savepoints := rest }

/-- `leaveNestedMutationScope`, once the frame's promise settles. -/
def leave (f : Nat) (outcome : ScopeOutcome) : MutationScopes κ ε :=
  { s.setFrame f { s.frames f with phase := .ended outcome } with active := s.active - 1 }

/-- The handler of `runNow`: what it cannot roll back is left indeterminate. -/
def abort (f : Nat) : MutationScopes κ ε :=
  match s.rollbackTo (s.frames f).savepoint with
  | none => s.leave f .threw
  | some t =>
    match t.release (s.frames f).savepoint with
    | none => t.leave f .threw
    | some t =>
      leave
        { t with
          writes := t.writes.rollback (s.frames f).before
          current := some (s.frames f).parent } f .threw

/-- `runNow`, from the end of the `tail` on. -/
def closeScope (f : Nat) : ScopeOutcome → MutationScopes κ ε
  | .ok =>
    match s.release (s.frames f).savepoint with
    | none => s.abort f
    | some t => leave { t with current := some (s.frames f).parent } f .ok
  | .err =>
    match s.rollbackTo (s.frames f).savepoint with
    | none => s.abort f
    | some t =>
      let t := { t with writes := t.writes.rollback (s.frames f).before }
      match t.release (s.frames f).savepoint with
      | none => t.abort f
      | some t => leave { t with current := some (s.frames f).parent } f .err
  | .threw => s.abort f

/-- One event. -/
def step : ScopeEvent κ ε → Option (MutationScopes κ ε)
  | .call f =>
    if f < s.count ∧ (s.frames f).phase ≠ .waiting then some (s.addFrame f) else none
  | .start f =>
    if 0 < f ∧ f < s.count ∧ (s.frames f).phase = .waiting ∧ s.hasTurn f = true then
      some (s.openScope f)
    else none
  | .access f staging checked =>
    if f < s.count ∧ (s.frames f).phase ≠ .waiting then
      if checked = true ∧ s.mayAccess f = false then some s
      else
        some
          { s with
            data := s.data ++ [staging]
            writes := s.writes.stage staging
            calls := s.calls ++ [(f, staging)] }
    else none
  | .settle f outcome =>
    if f < s.count ∧ (s.frames f).phase = .running then
      some (s.setFrame f
        { s.frames f with phase := .draining outcome, awaited := (s.frames f).children.length })
    else none
  | .finish f =>
    match (s.frames f).phase with
    | .draining outcome =>
      if ((s.frames f).children.take (s.frames f).awaited).all
          (fun child => (s.frames child).phase.isEnded) then
        if f = 0 then
          some { s.setFrame 0 { s.frames 0 with phase := .ended outcome } with current := none }
        else some (s.closeScope f outcome)
      else none
    | _ => none

/-! ## What has to hold -/

/-- The calls made in scopes none of which has failed. -/
def survivors : List (Staging κ ε) :=
  (s.calls.filter fun call =>
    (s.frames call.1).scopes.all fun scope => !(s.frames scope).phase.failed).map Prod.snd

/-- The open scopes, from the innermost; a mutation has a higher number than its caller. -/
def scopeStack : List Nat :=
  ((range s.count).filter fun f => 0 < f && (s.frames f).phase.isOpen).reverse

/-- **Storage and staged effects are in step.** -/
structure InStep : Prop where
  savepoints : s.savepoints.map (·.name) = s.scopeStack.map fun f => (s.frames f).savepoint
  data : s.data = s.survivors
  writes : s.writes = .ofCalls s.survivors

/-- The condition on a step: a mutation calls others only until its handler settles and uses the
database only until its scope is closed, and what is not checked is done in the innermost scope. -/
def Orderly : ScopeEvent κ ε → Prop
  | .call f => (s.frames f).phase = .running
  | .access f _ checked =>
    (s.frames f).phase.isEnded = false ∧ (checked = false → s.current = some f)
  | _ => True

end MutationScopes

end AckerDB
