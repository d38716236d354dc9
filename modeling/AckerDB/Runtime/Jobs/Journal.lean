import AckerDB.Lib.Except
import AckerDB.Runtime.Jobs.Store

/-!
# The step journal

Completed steps are recorded in the Job's `stepsJson`.  A reader that cannot make sense of the text
refuses, and a name that is recorded twice is not replayed.

* `parseStepJournal` — the reader; `appendEntry` — the writer, within finite bounds;
* `JobSteps.claim` — a recorded entry answers, a mismatch refuses, an unrecorded name executes;
* `recorded_not_executed` — a step that is recorded is replayed or refused.
-/

namespace AckerDB.Jobs

/-- `MAX_JOURNAL_STEPS`. -/
def maxJournalSteps : Nat := 1000

/-- `MAX_JOURNAL_BYTES`. -/
def maxJournalBytes : Nat := 1048576

/-- `StepRefusalError`. -/
def stepRefusal (step detail : String) : JobError where
  refusal := true
  code := "conflict"
  text := "step \"" ++ step ++ "\": " ++ detail

/-- The texts of the kinds. -/
def CalleeKind.text : CalleeKind → String
  | query => "query"
  | mutation => "mutation"
  | procedure => "procedure"

/-- `CALLEE_KINDS.includes`. -/
def CalleeKind.parse : String → Option CalleeKind
  | "query" => some query
  | "mutation" => some mutation
  | "procedure" => some procedure
  | _ => none

@[simp] theorem CalleeKind.parse_text (kind : CalleeKind) : parse kind.text = some kind := by
  cases kind <;> rfl

/-- `StepKind`. -/
inductive StepKind where
  | run
  | inline (kind : CalleeKind)
  | sleep
  deriving DecidableEq

/-- The text of a step kind. -/
def StepKind.text : StepKind → String
  | run => "run"
  | inline kind => kind.text
  | sleep => "sleep"

/-- `StepJournalEntry`. -/
inductive StepEntry where
  | run (name ref : String) (calleeKind : CalleeKind) (argsHash : String) (result : Json)
      (completedAt : Millis)
  | inline (kind : CalleeKind) (name : String) (result : Json) (completedAt : Millis)
  | sleep (name : String) (wakeAt completedAt : Millis)
  deriving DecidableEq

namespace StepEntry

/-- The name of the step. -/
def name : StepEntry → String
  | run name _ _ _ _ _ => name
  | inline _ name _ _ => name
  | sleep name _ _ => name

/-- The kind of the step. -/
def kind : StepEntry → StepKind
  | run _ _ _ _ _ _ => .run
  | inline kind _ _ _ => .inline kind
  | sleep _ _ _ => .sleep

/-- The object of an entry. -/
def encode : StepEntry → RawEntry
  | run name ref calleeKind argsHash result completedAt =>
    { name := some name, kind := some "run", ref := some ref,
      calleeKind := some calleeKind.text, argsHash := some argsHash, result := some result,
      completedAt := some completedAt }
  | inline kind name result completedAt =>
    { name := some name, kind := some kind.text, result := some result,
      completedAt := some completedAt }
  | sleep name wakeAt completedAt =>
    { name := some name, kind := some "sleep", wakeAt := some wakeAt,
      completedAt := some completedAt }

/-- What `isStepJournalEntry` asks beyond the types of the fields. -/
def WellFormed : StepEntry → Prop
  | run name ref _ argsHash _ _ => name ≠ "" ∧ ref ≠ "" ∧ argsHash ≠ ""
  | inline _ name _ _ => name ≠ ""
  | sleep name _ _ => name ≠ ""

end StepEntry

/-- `isStepJournalEntry`, with the entry it finds. -/
def readEntry (raw : RawEntry) : Option StepEntry := do
  let name ← raw.name
  guard (name ≠ "")
  let completedAt ← raw.completedAt
  match ← raw.kind with
  | "run" => do
      let ref ← raw.ref
      guard (ref ≠ "")
      let calleeKind ← raw.calleeKind.bind CalleeKind.parse
      let argsHash ← raw.argsHash
      guard (argsHash ≠ "")
      let result ← raw.result
      return .run name ref calleeKind argsHash result completedAt
  | "query" => return .inline .query name (← raw.result) completedAt
  | "mutation" => return .inline .mutation name (← raw.result) completedAt
  | "procedure" => return .inline .procedure name (← raw.result) completedAt
  | "sleep" => return .sleep name (← raw.wakeAt) completedAt
  | _ => none

theorem readEntry_encode {entry found : StepEntry} :
    readEntry entry.encode = some found ↔ entry.WellFormed ∧ found = entry := by
  cases entry with
  | run | sleep =>
    simp [readEntry, StepEntry.encode, StepEntry.WellFormed, Option.bind_eq_some_iff, and_assoc,
      @eq_comm _ found]
  | inline kind =>
    cases kind <;> simp [readEntry, StepEntry.encode, StepEntry.WellFormed, CalleeKind.text,
      Option.bind_eq_some_iff, @eq_comm _ found]

/-- The first name that is recorded twice. -/
def repeatedName : List String → List StepEntry → Option String
  | _, [] => none
  | names, entry :: rest =>
    if entry.name ∈ names then some entry.name else repeatedName (entry.name :: names) rest

/-- `parseStepJournal`. -/
def parseStepJournal : Option StepsText → Except JobError (List StepEntry)
  | none => .ok []
  | some .unreadable => .error (stepRefusal "journal"
      "stepsJson is not readable JSON; the bytes are preserved on the row")
  | some .malformed => .error (stepRefusal "journal"
      "stepsJson is not a valid step journal; the bytes are preserved on the row")
  | some (.entries raws) =>
    match raws.mapM readEntry with
    | none => .error (stepRefusal "journal"
        "stepsJson is not a valid step journal; the bytes are preserved on the row")
    | some entries =>
      match repeatedName [] entries with
      | some name => .error (stepRefusal name
          "the journal records this name twice; an ambiguous entry must not replay")
      | none => .ok entries

variable {entries : List StepEntry}

theorem repeatedName_eq_none_iff {names : List String} :
    repeatedName names entries = none ↔
      (entries.map StepEntry.name).Nodup ∧ ∀ entry ∈ entries, entry.name ∉ names := by
  induction entries generalizing names with
  | nil => simp [repeatedName]
  | cons entry rest ih =>
    by_cases hmem : entry.name ∈ names
    · simp [repeatedName, hmem]
    simp only [repeatedName, if_neg hmem, ih, List.map_cons, List.nodup_cons, List.mem_cons,
      forall_eq_or_imp, not_or]
    constructor
    · rintro ⟨hnodup, hrest⟩
      refine ⟨⟨?_, hnodup⟩, hmem, fun other hother => (hrest other hother).2⟩
      rintro hname
      obtain ⟨other, hother, heq⟩ := List.mem_map.1 hname
      exact (hrest other hother).1 heq
    rintro ⟨⟨hnot, hnodup⟩, -, hrest⟩
    refine ⟨hnodup, fun other hother => ⟨?_, hrest other hother⟩⟩
    intro heq
    exact hnot (heq ▸ List.mem_map_of_mem hother)

/-- The text `JSON.stringify` writes for a journal. -/
def journalText (entries : List StepEntry) : StepsText := .entries (entries.map StepEntry.encode)

theorem mapM_readEntry {found : List StepEntry} :
    (entries.map StepEntry.encode).mapM readEntry = some found ↔
      (∀ entry ∈ entries, entry.WellFormed) ∧ found = entries := by
  induction entries generalizing found with
  | nil => simp [eq_comm]
  | cons entry rest ih =>
    simp only [List.map_cons, List.mapM_cons, Option.bind_eq_bind, Option.bind_eq_some_iff,
      readEntry_encode, ih, List.forall_mem_cons]
    constructor
    · rintro ⟨_, ⟨hentry, rfl⟩, _, ⟨hrest, rfl⟩, hfound⟩
      exact ⟨⟨hentry, hrest⟩, (Option.some.inj hfound).symm⟩
    · rintro ⟨⟨hentry, hrest⟩, rfl⟩
      exact ⟨_, ⟨hentry, rfl⟩, _, ⟨hrest, rfl⟩, rfl⟩

/-- **What is read back is what was written**: well-formed entries with distinct names. -/
theorem parse_journalText {journal : List StepEntry} :
    parseStepJournal (some (journalText entries)) = .ok journal ↔
      ((∀ entry ∈ entries, entry.WellFormed) ∧ (entries.map StepEntry.name).Nodup) ∧
        journal = entries := by
  have hnames := @repeatedName_eq_none_iff entries []
  unfold parseStepJournal journalText
  dsimp only
  constructor
  · intro h
    split at h
    · cases h
    rename_i hread
    obtain ⟨hwell, rfl⟩ := mapM_readEntry.1 hread
    split at h
    · cases h
    · cases h
      exact ⟨⟨hwell, by simp_all⟩, rfl⟩
  · rintro ⟨⟨hwell, hnodup⟩, rfl⟩
    simp [mapM_readEntry.2 ⟨hwell, rfl⟩, hnames.2 ⟨hnodup, by simp⟩]

/-- `appendIn`, on the text of the journal. -/
def appendEntry (options : Options) (text : Option StepsText) (entry : StepEntry) :
    Except JobError StepsText := do
  let journal ← parseStepJournal text
  if maxJournalSteps < journal.length + 1 then
    .error (stepRefusal entry.name ("the journal is full (" ++ maxJournalSteps.repr ++ " steps)"))
  else if maxJournalBytes < options.journalLength ((journal ++ [entry]).map StepEntry.encode) then
    .error (stepRefusal entry.name ("the journal exceeds " ++ maxJournalBytes.repr ++
      " bytes; record smaller results or use child jobs"))
  else .ok (journalText (journal ++ [entry]))

theorem appendEntry_eq_ok {options : Options} {text : Option StepsText} {entry : StepEntry}
    {after : StepsText} (h : appendEntry options text entry = .ok after) :
    ∃ journal, parseStepJournal text = .ok journal ∧
      after = journalText (journal ++ [entry]) := by
  obtain ⟨journal, hjournal, hrest⟩ := Except.bind_eq_ok.1 h
  split_ifs at hrest
  cases hrest
  exact ⟨journal, hjournal, rfl⟩

/-! ## The steps of one run -/

/-- `JobSteps`: the snapshot of the journal, and the names this run has used. -/
structure JobSteps where
  entries : List StepEntry
  seen : List String
  corruption : Option JobError
  deriving DecidableEq

/-- The constructor of `JobSteps`. -/
def JobSteps.new (stepsJson : Option StepsText) : JobSteps :=
  match parseStepJournal stepsJson with
  | .ok entries => { entries := entries, seen := [], corruption := none }
  | .error error => { entries := [], seen := [], corruption := some error }

/-- A step as the handler calls it. -/
inductive StepCall where
  /-- `step.run`, once its callee is resolved. -/
  | run (name ref : String) (calleeKind : CalleeKind) (argsHash : String)
  | inline (kind : CalleeKind) (name : String)
  | sleep (name : String) (durationMs : Millis)
  deriving DecidableEq

namespace StepCall

/-- The name of the step. -/
def name : StepCall → String
  | run name _ _ _ => name
  | inline _ name => name
  | sleep name _ => name

/-- The kind of the step. -/
def kind : StepCall → StepKind
  | run _ _ _ _ => .run
  | inline kind _ => .inline kind
  | sleep _ _ => .sleep

/-- The `check` a call passes to `claim`: what is wrong with a recorded entry. -/
def mismatch : StepCall → StepEntry → Option String
  | run _ ref calleeKind argsHash, .run _ ref' calleeKind' argsHash' _ _ =>
    if ref' ≠ ref then some ("journaled ref \"" ++ ref' ++ "\", code names \"" ++ ref ++ "\"")
    else if calleeKind' ≠ calleeKind then
      some ("journaled a " ++ calleeKind'.text ++ ", \"" ++ ref ++ "\" is now a " ++
        calleeKind.text)
    else if argsHash' ≠ argsHash then
      some ("journaled args differ — replay must be deterministic, so this proves code drift " ++
        "or nondeterminism outside steps")
    else none
  | _, _ => none

/-- The step commits its database effects in one transaction with its entry. -/
def transactional : StepCall → Bool
  | run _ _ calleeKind _ => calleeKind ≠ .procedure
  | inline kind _ => kind ≠ .procedure
  | sleep _ _ => false

end StepCall

/-- What `claim` finds. -/
inductive ClaimResult where
  | refused (error : JobError)
  | replay (entry : StepEntry)
  | execute
  deriving DecidableEq

/-- `claim`. -/
def JobSteps.claim (steps : JobSteps) (call : StepCall) : JobSteps × ClaimResult :=
  match steps.corruption with
  | some error => (steps, .refused error)
  | none =>
    if call.name = "" then
      (steps, .refused { code := "validation", text := "step names must be non-empty strings" })
    else if call.name ∈ steps.seen then
      (steps, .refused (stepRefusal call.name
        "duplicate step name in one run — names are identities"))
    else
      let claimed := { steps with seen := call.name :: steps.seen }
      match steps.entries.find? fun entry => entry.name = call.name with
      | none => (claimed, .execute)
      | some entry =>
        if entry.kind ≠ call.kind then
          (claimed, .refused (stepRefusal call.name
            ("journaled as " ++ entry.kind.text ++ ", code says " ++ call.kind.text)))
        else
          match call.mismatch entry with
          | some detail => (claimed, .refused (stepRefusal call.name detail))
          | none => (claimed, .replay entry)

/-! ## A recorded step -/

/-- The journal after entries were recorded in it, one transaction after the other. -/
def record (options : Options) : Option StepsText → List StepEntry →
    Except JobError (Option StepsText)
  | text, [] => .ok text
  | text, entry :: rest => do record options (some (← appendEntry options text entry)) rest

variable {options : Options} {text : Option StepsText}

theorem record_eq_ok {journal : List StepEntry} {after : Option StepsText}
    (htext : ∀ found, parseStepJournal text = .ok found → found = journal)
    (h : record options text entries = .ok after) :
    entries = [] ∨ after = some (journalText (journal ++ entries)) := by
  induction entries generalizing text journal with
  | nil => exact .inl rfl
  | cons entry rest ih =>
    obtain ⟨next, hnext, hrest⟩ := Except.bind_eq_ok.1 h
    obtain ⟨found, hfound, rfl⟩ := appendEntry_eq_ok hnext
    obtain rfl := htext found hfound
    rcases ih (fun _ hparse => (parse_journalText.1 hparse).2) hrest with rfl | rfl
    · cases hrest
      exact .inr rfl
    · simp

/-- **A recorded step is not executed again** while its journal lasts.  A call of its name
replays an entry of that name, or is refused: because the journal is ambiguous, the run has used
the name before, or the call is another one. -/
theorem recorded_not_executed (h : record options (journalText []) entries = .ok text)
    {call : StepCall} (hname : call.name ∈ entries.map StepEntry.name) (seen : List String) :
    let answer := ({ JobSteps.new text with seen := seen }.claim call).2
    answer ≠ .execute ∧
      (∀ entry, answer = .replay entry → entry ∈ entries ∧ entry.name = call.name ∧
        entry.kind = call.kind ∧ call.mismatch entry = none) ∧
      ((∀ entry ∈ entries, entry.WellFormed) → (entries.map StepEntry.name).Nodup →
        call.name ∉ seen →
        (∀ entry ∈ entries, entry.name = call.name →
          entry.kind = call.kind ∧ call.mismatch entry = none) →
        ∃ entry, answer = .replay entry) := by
  rcases record_eq_ok (fun _ hnone => (parse_journalText.1 hnone).2) h with rfl | rfl
  · cases hname
  obtain ⟨entry, hentry, heq⟩ := List.mem_map.1 hname
  unfold JobSteps.new
  cases hjournal : parseStepJournal (some (journalText ([] ++ entries))) with
  | error =>
    refine ⟨nofun, nofun, fun hwell hnodup => ?_⟩
    cases hjournal.symm.trans (parse_journalText.2 ⟨⟨hwell, hnodup⟩, rfl⟩)
  | ok journal =>
    obtain ⟨⟨hwell, -⟩, rfl⟩ := parse_journalText.1 hjournal
    have hnamed : call.name ≠ "" := by
      have hentry := hwell entry hentry
      rw [← heq]
      cases entry <;> simp_all [StepEntry.WellFormed, StepEntry.name]
    have hfound : (journal.find? fun entry => entry.name = call.name).isSome := by
      simpa using ⟨entry, hentry, heq⟩
    unfold JobSteps.claim
    grind

theorem recorded_not_executed_nap :
    ∃ options text, record options (journalText []) [.sleep "nap" 5 0] = .ok text ∧
      ((JobSteps.new text).claim (.sleep "nap" 5)).2 ≠ .execute := by
  have hrecord : record ⟨[], 1, 1, 1, fun _ => "", fun _ => 0, fun _ => ⟨false, "", ""⟩⟩
      (journalText []) [.sleep "nap" 5 0] = .ok (some (journalText [.sleep "nap" 5 0])) := rfl
  have hname : (StepCall.sleep "nap" 5).name ∈ [StepEntry.sleep "nap" 5 0].map StepEntry.name :=
    List.mem_singleton_self _
  exact ⟨_, _, hrecord, (recorded_not_executed hrecord hname []).1⟩

end AckerDB.Jobs
